import LoraBridge.Containment
import LoraBridge.Reference

/-!
# What the checksum does not see

Damage to a sealed packet is accepted just when its polynomial is a multiple of `x^16 + x^12 + x^5 + 1`
(`stkTest_damaged_iff`); the smallest such damage has four bits (`detection_exact`). The flips of `wl_pack_break` are
numbered from the low end of each byte, the transmission from the high end; in that order (`wireFlips`) the packet that
is delivered is the one sent with the bits flipped an odd number of times inverted (`packOfData_flipAll`), so the same
polynomial decides on it (`delivery_accepted`).
-/

set_option autoImplicit false

namespace LoraBridge

open Lfsr Polynomial Toggle

/-! ## Damage as a polynomial -/

/-- The polynomial of the damage, the first bit of the transmission leading. -/
noncomputable def damagePoly (S : Finset (Fin 152)) : (ZMod 2)[X] := ∑ k ∈ S, X ^ (151 - k.val)

theorem msgPoly_damage (S : Finset (Fin 152)) : msgPoly (damage S) = damagePoly S := by
  have hterm : ∀ k : Fin 152, C (coeffBit (decide (k ∈ S))) * (X : (ZMod 2)[X]) ^ (152 - 1 - k.val) =
      if k ∈ S then X ^ (151 - k.val) else 0 := by
    intro k
    by_cases hk : k ∈ S <;> simp [hk, coeffBit]
  unfold damage damagePoly
  rw [msgPoly_ofFn, Finset.sum_congr rfl fun k _ => hterm k, Finset.sum_ite_mem, Finset.univ_inter]

/-- **Damage to a sealed packet** passes the test just when its polynomial is a multiple of the generator. -/
theorem stkTest_damaged_iff (data : PackData) (S : Finset (Fin 152)) :
    stkTestPackChecksumm (flipBits (stkSetPackChecksumm data) S) = true ↔
      (X ^ 16 + X ^ 12 + X ^ 5 + 1 : (ZMod 2)[X]) ∣ damagePoly S := by
  rw [stkTest_damaged, crc_zero_iff_dvd (by decide) (by decide), generator_ccitt, msgPoly_damage]

/-- The generator itself, anywhere in the packet. -/
def generatorAt (i : Fin 136) : Finset (Fin 152) :=
  {⟨i, by omega⟩, ⟨i + 4, by omega⟩, ⟨i + 11, by omega⟩, ⟨i + 16, by omega⟩}

theorem generatorAt_card (i : Fin 136) : (generatorAt i).card = 4 := by
  unfold generatorAt
  rw [Finset.card_insert_of_notMem, Finset.card_insert_of_notMem, Finset.card_insert_of_notMem, Finset.card_singleton]
  all_goals simp [Fin.ext_iff]

theorem damagePoly_generatorAt (i : Fin 136) :
    damagePoly (generatorAt i) = (X ^ 16 + X ^ 12 + X ^ 5 + 1) * X ^ (135 - i.val) := by
  have hi := i.isLt
  unfold damagePoly generatorAt
  rw [Finset.sum_insert, Finset.sum_insert, Finset.sum_insert, Finset.sum_singleton]
  · have h16 : 151 - i.val = 16 + (135 - i.val) := by omega
    have h12 : 151 - (i.val + 4) = 12 + (135 - i.val) := by omega
    have h5 : 151 - (i.val + 11) = 5 + (135 - i.val) := by omega
    have h0 : 151 - (i.val + 16) = 135 - i.val := by omega
    simp only [h16, h12, h5, h0, pow_add]
    ring
  all_goals simp [Fin.ext_iff]

/-- Damage that is accepted has four bits at least, two of them 16 apart or more. -/
theorem accepted_damage {data : PackData} {S : Finset (Fin 152)} (hne : S.Nonempty)
    (h : stkTestPackChecksumm (flipBits (stkSetPackChecksumm data) S) = true) :
    4 ≤ S.card ∧ ∃ j ∈ S, ∃ k ∈ S, j.val + 16 ≤ k.val := by
  have hseen : ¬(Odd S.card ∨ S.card = 2 ∨ ∃ i : Nat, ∀ k ∈ S, i ≤ k.val ∧ k.val < i + 16) := by
    intro hS
    rw [stkTest_rejects_damage data S hne hS] at h
    cases h
  obtain ⟨hodd, hrest⟩ := not_or.mp hseen
  obtain ⟨htwo, hburst⟩ := not_or.mp hrest
  constructor
  · have hpos := Finset.card_pos.mpr hne
    obtain ⟨m, hm⟩ := Nat.not_odd_iff_even.mp hodd
    omega
  · -- the first bit of the damage, and one outside the window that it opens
    refine ⟨S.min' hne, S.min'_mem hne, ?_⟩
    by_contra hnone
    apply hburst
    refine ⟨(S.min' hne).val, fun k hk => ⟨S.min'_le k hk, ?_⟩⟩
    by_contra hfar
    exact hnone ⟨k, hk, by omega⟩

/-- **What the checksum detects.** Damage is accepted just when its polynomial is a multiple of the generator; it has
four bits at least, spread over 17; and four bits spread over 17 are enough, anywhere in the packet. -/
theorem detection_exact (data : PackData) :
    (∀ S : Finset (Fin 152), stkTestPackChecksumm (flipBits (stkSetPackChecksumm data) S) = true ↔
      (X ^ 16 + X ^ 12 + X ^ 5 + 1 : (ZMod 2)[X]) ∣ damagePoly S) ∧
    (∀ S : Finset (Fin 152), S.Nonempty → stkTestPackChecksumm (flipBits (stkSetPackChecksumm data) S) = true →
      4 ≤ S.card ∧ ∃ j ∈ S, ∃ k ∈ S, j.val + 16 ≤ k.val) ∧
    ∀ i : Fin 136, (generatorAt i).card = 4 ∧
      stkTestPackChecksumm (flipBits (stkSetPackChecksumm data) (generatorAt i)) = true := by
  refine ⟨stkTest_damaged_iff data, fun S hne h => accepted_damage hne h, fun i => ⟨generatorAt_card i, ?_⟩⟩
  rw [stkTest_damaged_iff, damagePoly_generatorAt]
  exact dvd_mul_right _ _

/-! ## The flips of the emulator -/

/-- Bit `k`, counted from the low end of its byte, in transmission order. -/
def wirePos (k : Fin 152) : Fin 152 := ⟨8 * (k.val / 8) + (7 - k.val % 8), by omega⟩

/-- The flips that reach the packet. -/
def wireFlips (fs : List (BitVec 32)) : List (Fin 152) :=
  fs.filterMap fun bit => if h : bit.toNat < 152 then some (wirePos ⟨bit.toNat, h⟩) else none

theorem wirePos_wirePos (k : Fin 152) : wirePos (wirePos k) = k := Fin.ext (by simp only [wirePos]; omega)

/-- A flip of a bit of the packet, or of the one behind it, is one at its place in the transmission. -/
theorem count_wireFlips {fs : List (BitVec 32)} (hbits : ∀ bit ∈ fs, bit.toNat ≤ 152) (k : Fin 152) :
    (wireFlips fs).count (wirePos k) = (fs.map flipPos).count (k.castLE (by decide)) := by
  induction fs with
  | nil => rfl
  | cons bit fs ih =>
    have hrest := ih fun b hb => hbits b (List.mem_cons_of_mem _ hb)
    have hle := hbits bit List.mem_cons_self
    have hval : (flipPos bit).val = bit.toNat := Nat.mod_eq_of_lt (by omega)
    have hk := k.isLt
    unfold wireFlips at hrest ⊢
    by_cases hin : bit.toNat < 152
    · have hsame : wirePos ⟨bit.toNat, hin⟩ = wirePos k ↔ flipPos bit = k.castLE (by decide) := by
        constructor
        · intro h
          have hpos := congrArg wirePos h
          rw [wirePos_wirePos, wirePos_wirePos] at hpos
          exact Fin.ext (by rw [hval, ← hpos]; rfl)
        · intro h
          have hpos : bit.toNat = k.val := by rw [← hval, h]; rfl
          exact congrArg wirePos (Fin.ext hpos)
      simp only [List.filterMap_cons, hin, dif_pos, List.map_cons, List.count_cons, hrest, beq_iff_eq, hsame]
    · have hne : flipPos bit ≠ k.castLE (by decide) := by
        intro h
        have hpos : bit.toNat = k.val := by rw [← hval, h]; rfl
        omega
      simp only [List.filterMap_cons, hin, not_false_iff, dif_neg, List.map_cons, List.count_cons_of_ne hne, hrest]

theorem bitAt_lt (j : Fin 19) (r : Fin 8) : 8 * j.val + r.val < 152 := by omega

/-- Bit `r` of byte `j`. -/
def bitAt (j : Fin 19) (r : Fin 8) : Fin 152 := ⟨8 * j.val + r.val, bitAt_lt j r⟩

theorem getLsbD_packOfData (data : WlData) {j : Nat} (hj : j < 19) (r : Fin 8) :
    (packOfData data)[j].getLsbD r.val = wlBit data ((bitAt ⟨j, hj⟩ r).castLE (by decide)) := by
  have hbyte : (8 * j + r.val) / 8 = j := by omega
  have hplace : (8 * j + r.val) % 8 = r.val := by omega
  unfold packOfData wlBit bitAt
  simp only [Fin.val_castLE, hbyte, hplace, Vector.getElem_ofFn]
  rfl

theorem getLsbD_flipBits (data : PackData) (S : Finset (Fin 152)) {j : Nat} (hj : j < 19) (r : Fin 8) :
    (flipBits data S)[j].getLsbD r.val = (data[j].getLsbD r.val ^^ decide (wirePos (bitAt ⟨j, hj⟩ r) ∈ S)) := by
  have hk : 8 * j + (7 - r.val) < 152 := by omega
  have hbyte : (8 * j + (7 - r.val)) / 8 = j := by omega
  have hplace : (8 * j + (7 - r.val)) % 8 = 7 - r.val := by omega
  have hwire : wirePos (bitAt ⟨j, hj⟩ r) = ⟨8 * j + (7 - r.val), hk⟩ :=
    Fin.ext (by simp only [wirePos, bitAt]; omega)
  have hmask := getMsbD_flipMask S hk
  simp only [hbyte, hplace] at hmask
  rw [flipBits, Vector.getElem_ofFn, BitVec.getLsbD_xor, hwire, ← hmask]
  congr 1
  rw [BitVec.getLsbD_eq_getMsbD, decide_eq_true r.isLt, Bool.true_and]

/-- The packet after the flips: what has changed are the bits flipped an odd number of times. -/
theorem packOfData_flipAll {fs : List (BitVec 32)} (pack : WlData) (hbits : ∀ bit ∈ fs, bit.toNat ≤ 152) :
    packOfData (flipAll fs pack) = flipBits (packOfData pack) (oddly (wireFlips fs)) := by
  apply Vector.ext
  intro j hj
  apply BitVec.eq_of_getLsbD_eq
  intro r hr
  have hleft := getLsbD_packOfData (flipAll fs pack) hj ⟨r, hr⟩
  have hright := getLsbD_flipBits (packOfData pack) (oddly (wireFlips fs)) hj ⟨r, hr⟩
  have hmem : wirePos (bitAt ⟨j, hj⟩ ⟨r, hr⟩) ∈ oddly (wireFlips fs) ↔
      (bitAt ⟨j, hj⟩ ⟨r, hr⟩).castLE (by decide) ∈ oddly (fs.map flipPos) := by
    rw [mem_oddly, mem_oddly, count_wireFlips hbits]
  rw [wlBit_flipAll, toggle_apply, ← getLsbD_packOfData, ← decide_eq_decide.mpr hmem] at hleft
  exact hleft.trans hright.symm

/-! ## What is delivered -/

/-- Inside the packet every flip counts. -/
theorem wireFlips_length {fs : List (BitVec 32)} (hin : ∀ bit ∈ fs, bit.toNat < 152) :
    (wireFlips fs).length = fs.length := by
  induction fs with
  | nil => rfl
  | cons bit fs ih =>
    have hrest := ih fun b hb => hin b (List.mem_cons_of_mem _ hb)
    unfold wireFlips at hrest ⊢
    simp only [List.filterMap_cons, hin bit List.mem_cons_self, dif_pos, List.length_cons, hrest]

/-- Flips that the checksum finds: an odd number, two, or some within 16 consecutive bits of the transmission. -/
def Findable (fs : List (BitVec 32)) : Prop :=
  fs ≠ [] ∧ (Odd fs.length ∨ fs.length = 2 ∨ ∃ i : Nat, ∀ k ∈ wireFlips fs, i ≤ k.val ∧ k.val < i + 16)

/-- The damage of such flips, when the first bit is not flipped again. -/
theorem Findable.damage {first : BitVec 32} {rest : List (BitVec 32)} (h : Findable (first :: rest))
    (hnew : first ∉ rest) (hin : ∀ bit ∈ first :: rest, bit.toNat < 152) :
    (oddly (wireFlips (first :: rest))).Nonempty ∧
      (Odd (oddly (wireFlips (first :: rest))).card ∨ (oddly (wireFlips (first :: rest))).card = 2 ∨
        ∃ i : Nat, ∀ k ∈ oddly (wireFlips (first :: rest)), i ≤ k.val ∧ k.val < i + 16) := by
  have hlen := wireFlips_length hin
  obtain ⟨k, ks, hcons, hk⟩ : ∃ k ks, wireFlips (first :: rest) = k :: ks ∧ k ∉ ks := by
    refine ⟨wirePos ⟨first.toNat, hin first List.mem_cons_self⟩, wireFlips rest, ?_, ?_⟩
    · simp only [wireFlips, List.filterMap_cons, hin first List.mem_cons_self, dif_pos]
    · intro hmem
      obtain ⟨bit, hbit, heq⟩ := List.mem_filterMap.mp hmem
      rw [dif_pos (hin bit (List.mem_cons_of_mem _ hbit)), Option.some.injEq] at heq
      have hpos := congrArg wirePos heq
      rw [wirePos_wirePos, wirePos_wirePos] at hpos
      have hval : bit = first := BitVec.eq_of_toNat_eq (Fin.mk.inj hpos)
      exact hnew (hval ▸ hbit)
  have hodd := odd_card_oddly (wireFlips (first :: rest))
  obtain ⟨hpos, htwo⟩ := card_oddly_first hk
  rw [← hcons] at hpos htwo
  rw [hlen] at hodd htwo
  refine ⟨Finset.card_pos.mp hpos, ?_⟩
  rcases h.2 with h | h | ⟨i, h⟩
  · exact Or.inl (hodd.mpr h)
  · exact Or.inr (Or.inl ((htwo h.le).trans h))
  · refine Or.inr (Or.inr ⟨i, fun k hk => h k ?_⟩)
    exact List.count_pos_iff.mp (mem_oddly.mp hk).pos

/-- **Delivery.** A sealed packet arrives with the bits inverted that `wl_pack_break` has flipped an odd number of
times; it is accepted just when the sum of the flips, as powers of `x`, is a multiple of the generator; and it is
rejected when the flips are an odd number, two, or lie within 16 consecutive bits of the transmission. -/
theorem delivery_accepted {cfg : WlConfig} {now : Timeval} {draws : List Draw} {src : ConnId} {g g' : WlEmulGlobal}
    {o : List WlEvent} {p : PackData} (h : wlShadowWorkerTarg cfg now draws src src.other g = some (g', o))
    (hfree : (g.dev src.other).inputBuff.isRecieved = false)
    (hfull : (g'.dev src.other).inputBuff.isRecieved = true)
    (hsealed : packOfData (g.dev src).outputBuff.sendData = stkSetPackChecksumm p) :
    ∃ draws' fs, wlIsPacketLost cfg draws = some (false, draws') ∧ wlPackBreakFlips cfg draws' = some fs ∧
      packOfData (g'.dev src.other).inputBuff.recvData = flipBits (stkSetPackChecksumm p) (oddly (wireFlips fs)) ∧
      (stkTestPackChecksumm (packOfData (g'.dev src.other).inputBuff.recvData) = true ↔
        (X ^ 16 + X ^ 12 + X ^ 5 + 1 : (ZMod 2)[X]) ∣ ((wireFlips fs).map fun k => X ^ (151 - k.val)).sum) ∧
      ((∀ draw ∈ wlPackBreakDraws cfg draws', draw.val < packBitEnd) → Findable fs →
        stkTestPackChecksumm (packOfData (g'.dev src.other).inputBuff.recvData) = false) := by
  obtain ⟨draws', data, ret, hlost, hbreak, hread⟩ := wlShadowWorkerTarg_delivers h hfree hfull
  rw [wlPackBreak_eq] at hbreak
  obtain ⟨fs, hfs, heq⟩ := Option.map_eq_some_iff.mp hbreak
  obtain ⟨rfl, -⟩ := Prod.mk.inj heq
  have hcases := wlPackBreakFlips_cases hfs
  have hbits : ∀ bit ∈ fs, bit.toNat ≤ 152 := by
    rcases hcases with rfl | ⟨-, -, -, -, hle⟩
    · simp
    · exact hle
  have hpacket : packOfData (g'.dev src.other).inputBuff.recvData =
      flipBits (stkSetPackChecksumm p) (oddly (wireFlips fs)) := by
    rw [hread, wlPackCopy_all, packOfData_flipAll _ hbits, hsealed]
  refine ⟨draws', fs, hlost, hfs, hpacket, ?_, fun hend hfind => ?_⟩
  · rw [hpacket, stkTest_damaged_iff, damagePoly, sum_map_oddly CharTwo.add_self_eq_zero]
  · have hin : ∀ bit ∈ fs, bit.toNat < 152 := by
      intro bit hbit
      obtain ⟨draw, hdraw, rfl⟩ := wlPackBreakFlips_draws hfs bit hbit
      exact (randPackBit_lt_iff draw).mpr (hend draw hdraw)
    rcases hcases with rfl | ⟨first, rest, rfl, hnew, -⟩
    · exact absurd rfl hfind.1
    · obtain ⟨hne, hS⟩ := hfind.damage hnew hin
      rw [hpacket]
      exact stkTest_rejects_damage p _ hne hS

/-- The packet of zeros, sealed and put. -/
def zerosSent : WlEmulGlobal :=
  WlEmulGlobal.zeroed.setOut .id0 {
    sendTime := ⟨0, 0⟩, isSend := false, num := 0
    sendData := wlPackCopy configWlPackConstLen (fun _ => 0)
      (payloadData (stkSetPackChecksumm (Vector.replicate 19 0))) }

/-- Its second bit flipped. -/
theorem delivery_accepted_zeros : ∃ g', wlShadowWorkerTarg lowScores ⟨1, 0⟩ [0, 14128181, Fin.last randMax] .id0 .id1
      zerosSent = some (g', []) ∧ stkTestPackChecksumm (packOfData (g'.dev .id1).inputBuff.recvData) = false := by
  have heval : (wlShadowWorkerTarg lowScores ⟨1, 0⟩ [0, 14128181, Fin.last randMax] .id0 .id1 zerosSent).map
      (fun r => ((r.1.dev .id1).inputBuff.isRecieved, r.2)) = some (true, []) := by decide +kernel
  obtain ⟨⟨g', o⟩, hstep, hfacts⟩ := Option.map_eq_some_iff.mp heval
  obtain ⟨hfull, rfl⟩ := Prod.mk.inj hfacts
  obtain ⟨draws', fs, hlost, hfs, -, -, hfound⟩ :=
    delivery_accepted (p := Vector.replicate 19 0) hstep rfl hfull (by decide +kernel)
  cases hlost
  have hone : wlPackBreakFlips lowScores [0, 14128181, Fin.last randMax] = some [1#32] := by decide +kernel
  cases hfs.symm.trans hone
  have hdraws : wlPackBreakDraws lowScores [0, 14128181, Fin.last randMax] = [14128181] := by decide +kernel
  refine ⟨g', hstep, hfound ?_ ⟨by simp, Or.inl (by decide)⟩⟩
  rw [hdraws]
  intro draw hdraw
  rw [List.mem_singleton.mp hdraw]
  exact (randPackBit_lt_iff _).mp (by decide)

end LoraBridge
