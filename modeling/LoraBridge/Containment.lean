import LoraBridge.Corruption

/-!
# Flips behind the packet

`rand_pack_bit` divides by `RAND_MAX / 152`, rounded down, so the last values of `rand_r` give bit 152, the first one
behind the packet. A call of `wl_pack_break` that scales one of these flips a bit that is not delivered, and may report
a packet as corrupted that arrives as it was sent; a call that scales none of them does not (`corruption_contained`).
-/

set_option autoImplicit false

namespace LoraBridge

open Toggle

/-- The values of `rand_r` below this give a bit of the packet. -/
def packBitEnd : Nat := randMax / (configWlPackConstLen * 8) * (configWlPackConstLen * 8)

example : packBitEnd = 2147483512 := rfl

/-- The bit is one of the packet for all but the last 136 values. -/
theorem randPackBit_lt_iff (draw : Draw) :
    (randPackBit draw).toNat < configWlPackConstLen * 8 ↔ draw.val < packBitEnd := by
  rw [randPackBit_toNat, packBitEnd, Nat.mul_comm (randMax / (configWlPackConstLen * 8))]
  exact Nat.div_lt_iff_lt_mul (by decide)

/-! ## The draws of a call -/

/-- The draws that the loops of `wl_pack_break` pass to `rand_pack_bit`. -/
def wlPackBreakLoopDraws (cfg : WlConfig) (bitToBreakPrev : BitVec 32) (inner : Bool) : List Draw → List Draw
  | [] => []
  | draw :: draws =>
    if inner then
      if randPackBit draw = bitToBreakPrev then draw :: wlPackBreakLoopDraws cfg bitToBreakPrev true draws
      else draw :: wlPackBreakLoopDraws cfg bitToBreakPrev false draws
    else if bRand draw cfg.errDataMultipScore then wlPackBreakLoopDraws cfg bitToBreakPrev true draws
    else []

/-- The draws that a call passes to `rand_pack_bit`, those for a bit that is drawn again among them. -/
def wlPackBreakDraws (cfg : WlConfig) (draws : List Draw) : List Draw :=
  if cfg.errData then
    match draws with
    | [] => []
    | first :: draws =>
      if bRand first cfg.errDataFirstScore then
        match draws with
        | [] => []
        | draw :: draws => draw :: wlPackBreakLoopDraws cfg (randPackBit draw) false draws
      else []
  else []

theorem wlPackBreakLoopFlips_draws {cfg : WlConfig} {prev : BitVec 32} {inner : Bool} {draws : List Draw}
    {fs : List (BitVec 32)} (h : wlPackBreakLoopFlips cfg prev inner draws = some fs) :
    ∀ bit ∈ fs, ∃ draw ∈ wlPackBreakLoopDraws cfg prev inner draws, randPackBit draw = bit := by
  induction draws generalizing inner fs with
  | nil => cases h
  | cons draw draws ih =>
    intro bit hbit
    unfold wlPackBreakLoopFlips at h
    unfold wlPackBreakLoopDraws
    split_ifs at h ⊢ with hin hprev hmore
    · obtain ⟨d, hd, hbit⟩ := ih h bit hbit
      exact ⟨d, List.mem_cons_of_mem _ hd, hbit⟩
    · obtain ⟨rest, hrest, rfl⟩ := Option.map_eq_some_iff.mp h
      rcases List.mem_cons.mp hbit with rfl | hbit
      · exact ⟨draw, List.mem_cons_self, rfl⟩
      · obtain ⟨d, hd, hbit⟩ := ih hrest bit hbit
        exact ⟨d, List.mem_cons_of_mem _ hd, hbit⟩
    · exact ih h bit hbit
    · cases h
      cases hbit

/-- Every bit flipped comes from one of these draws. -/
theorem wlPackBreakFlips_draws {cfg : WlConfig} {draws : List Draw} {fs : List (BitVec 32)}
    (h : wlPackBreakFlips cfg draws = some fs) :
    ∀ bit ∈ fs, ∃ draw ∈ wlPackBreakDraws cfg draws, randPackBit draw = bit := by
  intro bit hbit
  unfold wlPackBreakFlips at h
  unfold wlPackBreakDraws
  split_ifs at h ⊢ with herr
  · match draws with
    | [] => cases h
    | first :: draws =>
      dsimp only at h ⊢
      split_ifs at h ⊢ with hfirst
      · match draws with
        | [] => cases h
        | draw :: draws =>
          obtain ⟨rest, hrest, rfl⟩ := Option.map_eq_some_iff.mp h
          rcases List.mem_cons.mp hbit with rfl | hbit
          · exact ⟨draw, List.mem_cons_self, rfl⟩
          · obtain ⟨d, hd, hbit⟩ := wlPackBreakLoopFlips_draws hrest bit hbit
            exact ⟨d, List.mem_cons_of_mem _ hd, hbit⟩
      · cases h
        cases hbit
  · cases h
    cases hbit

/-! ## What the receiver reads -/

/-- A bit of the packet that has changed is one that the receiver reads. -/
theorem packOfData_ne {a b : WlData} {k : Fin 2048} (hk : k.val < configWlPackConstLen * 8)
    (h : wlBit a k ≠ wlBit b k) :
    packOfData a ≠ packOfData b := by
  intro hsame
  have hlt : k.val / 8 < 19 := by
    simp only [configWlPackConstLen] at hk
    omega
  have hbyte : (packOfData a)[k.val / 8] = (packOfData b)[k.val / 8] := by rw [hsame]
  simp only [packOfData, Vector.getElem_ofFn] at hbyte
  exact h (congrArg (fun byte : Byte => byte.getLsbD (k.val % 8)) hbyte)

/-- When the first bit flipped is one of the packet, the receiver reads another packet. -/
theorem packOfData_flipAll_ne {first : BitVec 32} {rest : List (BitVec 32)} (pack : WlData) (hnew : first ∉ rest)
    (hbits : ∀ bit ∈ first :: rest, bit.toNat ≤ 152) (hfirst : first.toNat < configWlPackConstLen * 8) :
    packOfData (flipAll (first :: rest) pack) ≠ packOfData pack := by
  have hval : (flipPos first).val = first.toNat := Nat.mod_eq_of_lt (by
    simp only [configWlPackConstLen] at hfirst
    omega)
  refine packOfData_ne (k := flipPos first) (by rw [hval]; exact hfirst) (Ne.symm ?_)
  rw [wlBit_flipAll, List.map_cons, toggle_apply]
  exact (ne_xor_decide _ _).mpr (head_mem_oddly (flipPos_not_mem hnew hbits))

/-! ## Staying inside the packet -/

/-- A call of `wl_pack_break` stays inside the packet: the bits drawn are bits of the packet, the bytes flipped are
delivered, and a packet reported as corrupted is read as another one, whatever the input buffer held. -/
structure Contained (cfg : WlConfig) (draws : List Draw) (pack data : WlData) (ret : BitVec 32) : Prop where
  bits : ∀ draw ∈ wlPackBreakDraws cfg draws, (randPackBit draw).toNat < configWlPackConstLen * 8
  flips : ∀ fs, wlPackBreakFlips cfg draws = some fs → ∀ bit ∈ fs, bit.toNat / 8 < configWlPackConstLen
  read : ret ≠ 0#32 → ∀ old, packOfData (wlPackCopy 256 old data) ≠ packOfData pack

/-- A call stays inside the packet just when it scales none of the last 136 values. -/
theorem contained_iff {cfg : WlConfig} {draws : List Draw} {pack data : WlData} {ret : BitVec 32}
    (h : wlPackBreak cfg draws pack = some (data, ret)) :
    Contained cfg draws pack data ret ↔ ∀ draw ∈ wlPackBreakDraws cfg draws, draw.val < packBitEnd := by
  refine ⟨fun hc draw hdraw => (randPackBit_lt_iff draw).mp (hc.bits draw hdraw), fun hend => ?_⟩
  have hbits : ∀ draw ∈ wlPackBreakDraws cfg draws, (randPackBit draw).toNat < configWlPackConstLen * 8 :=
    fun draw hdraw => (randPackBit_lt_iff draw).mpr (hend draw hdraw)
  have hflips : ∀ fs, wlPackBreakFlips cfg draws = some fs → ∀ bit ∈ fs, bit.toNat < configWlPackConstLen * 8 := by
    intro fs hfs bit hbit
    obtain ⟨draw, hdraw, rfl⟩ := wlPackBreakFlips_draws hfs bit hbit
    exact hbits draw hdraw
  refine ⟨hbits, fun fs hfs bit hbit => ?_, fun hret old => ?_⟩
  · have hlt := hflips fs hfs bit hbit
    omega
  · rw [wlPackBreak_eq] at h
    obtain ⟨fs, hfs, heq⟩ := Option.map_eq_some_iff.mp h
    obtain ⟨rfl, rfl⟩ := Prod.mk.inj heq
    rcases wlPackBreakFlips_cases hfs with rfl | ⟨first, rest, rfl, hnew, hle⟩
    · exact absurd rfl hret
    · rw [wlPackCopy_all]
      exact packOfData_flipAll_ne pack hnew hle (hflips _ hfs first List.mem_cons_self)

/-- **Corruption inside the packet.** A value of `rand_r` gives a bit of the packet unless it is one of the last 136; a
call of `wl_pack_break` stays inside the packet just when it scales none of these; and what is delivered is the buffer
that such a call leaves. -/
theorem corruption_contained (cfg : WlConfig) (draws : List Draw) :
    (∀ draw ∈ draws, (randPackBit draw).toNat < configWlPackConstLen * 8 ↔ draw.val < 2147483512) ∧
    (∀ (pack data : WlData) (ret : BitVec 32), wlPackBreak cfg draws pack = some (data, ret) →
      (Contained cfg draws pack data ret ↔ ∀ draw ∈ wlPackBreakDraws cfg draws, draw.val < 2147483512)) ∧
    ∀ (now : Timeval) (src : ConnId) (g g' : WlEmulGlobal) (o : List WlEvent),
      wlShadowWorkerTarg cfg now draws src src.other g = some (g', o) →
      (g.dev src.other).inputBuff.isRecieved = false → (g'.dev src.other).inputBuff.isRecieved = true →
      ∃ draws' data ret, wlIsPacketLost cfg draws = some (false, draws') ∧
        wlPackBreak cfg draws' (g.dev src).outputBuff.sendData = some (data, ret) ∧
        (g'.dev src.other).inputBuff.recvData = wlPackCopy 256 (g.dev src.other).inputBuff.recvData data :=
  ⟨fun draw _ => randPackBit_lt_iff draw, fun _ _ _ h => contained_iff h,
    fun _ _ _ _ _ h => wlShadowWorkerTarg_delivers h⟩

/-- A packet of zeros with its second bit flipped is delivered as such. -/
theorem corruption_contained_second : ∃ g',
    wlShadowWorkerTarg lowScores ⟨1, 0⟩ [0, 14128181, Fin.last randMax] .id0 .id1 .zeroed = some (g', []) ∧
      packOfData (g'.dev .id1).inputBuff.recvData ≠ packOfData fun _ => 0 := by
  have heval : (wlShadowWorkerTarg lowScores ⟨1, 0⟩ [0, 14128181, Fin.last randMax] .id0 .id1 .zeroed).map
      (fun r => ((r.1.dev .id1).inputBuff.isRecieved, r.2)) = some (true, []) := by decide +kernel
  obtain ⟨⟨g', o⟩, hstep, hfacts⟩ := Option.map_eq_some_iff.mp heval
  obtain ⟨hfull, rfl⟩ := Prod.mk.inj hfacts
  refine ⟨g', hstep, ?_⟩
  obtain ⟨-, hcall, hdelivery⟩ := corruption_contained lowScores [0, 14128181, Fin.last randMax]
  obtain ⟨draws', data, ret, hlost, hbreak, hread⟩ := hdelivery _ .id0 .zeroed g' [] hstep rfl hfull
  cases hlost
  have hret : ret ≠ 0#32 := by
    intro hzero
    subst hzero
    have hone : (wlPackBreak lowScores [0, 14128181, Fin.last randMax]
        (WlEmulGlobal.zeroed.dev .id0).outputBuff.sendData).map Prod.snd = some 1#32 := by decide +kernel
    rw [hbreak] at hone
    cases hone
  have hdraws : wlPackBreakDraws lowScores [0, 14128181, Fin.last randMax] = [14128181] := by decide +kernel
  have hcontained := (hcall _ _ _ hbreak).mpr (by
    rw [hdraws]
    intro draw hdraw
    rw [List.mem_singleton.mp hdraw]
    exact (randPackBit_lt_iff _).mp (by decide))
  rw [show (g'.dev .id1).inputBuff.recvData = _ from hread]
  exact hcontained.read hret _

/-- The highest value of `rand_r` for the first bit. -/
def phantomDraws : List Draw := [0, Fin.last randMax, Fin.last randMax]

/-- A packet reported as corrupted, and read as it was sent. -/
theorem phantom_corruption : ∃ data, wlPackBreak lowScores phantomDraws (fun _ => 0) = some (data, 1#32) ∧
    (randPackBit (Fin.last randMax)).toNat = 152 ∧
    packOfData (wlPackCopy 256 (fun _ => 0) data) = (packOfData fun _ => 0) ∧
    ¬ Contained lowScores phantomDraws (fun _ => 0) data 1#32 := by
  have hbit : (randPackBit (Fin.last randMax)).toNat = 152 := by decide
  have hsame : packOfData (wlPackCopy 256 (fun _ => 0) (flipAll [152] fun _ => 0)) = packOfData fun _ => 0 := by decide
  refine ⟨flipAll [152] fun _ => 0, ?_, hbit, hsame, fun hc => hc.read (by decide) _ hsame⟩
  rw [wlPackBreak_eq]
  rfl

end LoraBridge
