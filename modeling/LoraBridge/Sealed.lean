import LoraBridge.Detection
import LoraBridge.Emulated

/-!
# Damage to sealed packets

What the loops hand to the radio is sealed, and so is what is in the air (`SealedAir`). So whether the damage of a
packet is found is decided by the draws of its `wl_pack_break` alone (`DrawsDetected`), and what `emulated_agreement`
asks of the damage holds of every run with such draws (`Ordered.undisrupted`).
-/

set_option autoImplicit false

namespace LoraBridge

open Transducer Polynomial Toggle

variable {cfg : WlConfig} {id src j : ConnId} {n n' : System} {g g' : WlEmulGlobal} {o : List WlEvent} {now : Timeval}
  {ds : List Draw} {t : WlTick} {a a' : Station LlcStateM} {b b' : Station LlcStateS}

/-! ## Draws -/

/-- What the draws make of a packet is no damage, or its polynomial is no multiple of the generator. -/
def DrawsDetected (cfg : WlConfig) (draws : List Draw) : Prop :=
  ∀ draws' fs, wlIsPacketLost cfg draws = some (false, draws') → wlPackBreakFlips cfg draws' = some fs →
    oddly (wireFlips fs) = ∅ ∨ ¬(X ^ 16 + X ^ 12 + X ^ 5 + 1 : (ZMod 2)[X]) ∣ damagePoly (oddly (wireFlips fs))

def SystemInput.draws : SystemInput → List (List Draw)
  | .tick _ t => [t.draws₀, t.draws₁]
  | _ => []

def SystemInput.Detected (cfg : WlConfig) (i : SystemInput) : Prop := ∀ draws ∈ i.draws, DrawsDetected cfg draws

/-- Draws of flips in the packet that the checksum finds. -/
theorem DrawsDetected.of_findable
    (h : ∀ draws' fs, wlIsPacketLost cfg ds = some (false, draws') → wlPackBreakFlips cfg draws' = some fs →
      fs = [] ∨ Findable fs ∧ ∀ draw ∈ wlPackBreakDraws cfg draws', draw.val < packBitEnd) : DrawsDetected cfg ds := by
  intro draws' fs hlost hfs
  rcases h draws' fs hlost hfs with rfl | ⟨hfind, hend⟩
  · exact Or.inl rfl
  · refine Or.inr ?_
    have hin : ∀ bit ∈ fs, bit.toNat < 152 := by
      intro bit hbit
      obtain ⟨draw, hdraw, rfl⟩ := wlPackBreakFlips_draws hfs bit hbit
      exact (randPackBit_lt_iff draw).mpr (hend draw hdraw)
    rcases wlPackBreakFlips_cases hfs with rfl | ⟨first, rest, rfl, hnew, -⟩
    · exact absurd rfl hfind.1
    · obtain ⟨hne, hS⟩ := hfind.damage hnew hin
      rw [← stkTest_damaged_iff (Vector.replicate 19 0), stkTest_rejects_damage _ _ hne hS]
      exact Bool.false_ne_true

theorem DrawsDetected.nil (cfg : WlConfig) : DrawsDetected cfg [] := by
  intro draws' fs hlost hfs
  unfold wlIsPacketLost at hlost
  split_ifs at hlost
  cases hlost
  unfold wlPackBreakFlips at hfs
  split_ifs at hfs
  cases hfs
  exact Or.inl rfl

/-- An emulator that damages nothing. -/
theorem DrawsDetected.of_intact (hcfg : cfg.errData = false) : DrawsDetected cfg ds := by
  rintro draws' fs - hfs
  simp only [wlPackBreakFlips, hcfg, Bool.false_eq_true, if_false, Option.some.injEq] at hfs
  exact Or.inl (by rw [← hfs]; rfl)

/-! ## Arrivals -/

theorem flipBits_empty (d : PackData) : flipBits d ∅ = d := by
  apply Vector.ext
  intro k hk
  apply BitVec.eq_of_getLsbD_eq
  intro r hr
  have hbit := getLsbD_flipBits d ∅ hk ⟨r, hr⟩
  rw [decide_eq_false (Finset.notMem_empty _), Bool.xor_false] at hbit
  exact hbit

/-- A sealed packet arrives as it was, or is found to be damaged. -/
theorem targ_detected (h : wlShadowWorkerTarg cfg now ds src src.other g = some (g', o))
    (hdraws : DrawsDetected cfg ds) (hsealed : ∀ d, g.outPacket src = some d → ∃ p, d = stkSetPackChecksumm p) :
    Detected g g' src.other := by
  intro d hd hnone
  have hfree := inPacket_none.mp hnone
  have hfull : (g'.dev src.other).inputBuff.isRecieved = true := by
    by_contra hempty
    rw [inPacket_none.mpr (Bool.eq_false_iff.mpr hempty)] at hd
    cases hd
  have hout : g.outPacket src = some (packOfData (g.dev src).outputBuff.sendData) := by
    cases hsend : (g.dev src).outputBuff.isSend with
    | true =>
      simp only [wlShadowWorkerTarg, hsend, if_true, Option.some.injEq, Prod.mk.injEq] at h
      rw [h.1, hfull] at hfree
      cases hfree
    | false => rw [WlEmulGlobal.outPacket, hsend, if_neg Bool.false_ne_true]
  obtain ⟨draws', data, ret, hlost, hbreak, hread⟩ := wlShadowWorkerTarg_delivers h hfree hfull
  rw [wlPackBreak_eq] at hbreak
  obtain ⟨fs, hfs, heq⟩ := Option.map_eq_some_iff.mp hbreak
  obtain ⟨rfl, -⟩ := Prod.mk.inj heq
  have hbits : ∀ bit ∈ fs, bit.toNat ≤ 152 := by
    rcases wlPackBreakFlips_cases hfs with rfl | ⟨-, -, -, -, hle⟩
    · simp
    · exact hle
  have hdata : d = flipBits (packOfData (g.dev src).outputBuff.sendData) (oddly (wireFlips fs)) := by
    rw [WlEmulGlobal.inPacket, if_pos hfull, hread, wlPackCopy_all, packOfData_flipAll _ hbits] at hd
    exact (Option.some.inj hd).symm
  obtain ⟨p, hp⟩ := hsealed _ hout
  rw [ConnId.other_other, hout]
  rcases hdraws draws' fs hlost hfs with hsame | hseen
  · exact Or.inl (by rw [hdata, hsame, flipBits_empty])
  · refine Or.inr ?_
    rw [hdata, hp, Bool.eq_false_iff, Ne, stkTest_damaged_iff]
    exact hseen

/-- What is in the air, or on its way there, is sealed. -/
def SealedAir (n : System) : Prop :=
  ∀ id d, (n.emul.pc id).outgoing = some d ∨ n.emul.devs.outPacket id = some d → ∃ p, d = stkSetPackChecksumm p

theorem worker_detected (h : wlShadowWorker cfg t g = some (g', o)) (hdraws : (SystemInput.tick id t).Detected cfg)
    (hsealed : ∀ id d, g.outPacket id = some d → ∃ p, d = stkSetPackChecksumm p) (j : ConnId) : Detected g g' j := by
  simp only [wlShadowWorker, Option.bind_eq_bind, Option.bind_eq_some_iff, Prod.exists, Option.pure_def,
    Option.some.injEq, Prod.mk.injEq] at h
  obtain ⟨g₀, o₀, h₀, g₁, o₁, h₁, rfl, -⟩ := h
  obtain ⟨-, -, hdev⟩ := chanelCheck_keeps g₁
  have harrive₀ : WlArrive cfg t.now₀ .id0 g g₀ o₀ := wlShadowWorkerTarg_arrive h₀
  have harrive₁ : WlArrive cfg t.now₁ .id1 g₀ g₁ o₁ := wlShadowWorkerTarg_arrive h₁
  have hout₁ : g₀.outPacket .id1 = g.outPacket .id1 := by
    rw [WlEmulGlobal.outPacket, WlEmulGlobal.outPacket, harrive₀.out_of_ne (by decide)]
  intro d hd hnone
  rw [WlEmulGlobal.inPacket, hdev] at hd
  cases j with
  | id0 =>
    have hin : g₀.inPacket .id0 = none := by
      rw [WlEmulGlobal.inPacket, harrive₀.inp_of_ne (by decide)]
      exact hnone
    have harrival : Detected g₀ g₁ .id0 := targ_detected h₁ (hdraws t.draws₁ (by simp [SystemInput.draws])) (by
      rw [hout₁]
      exact hsealed .id1)
    have hfound := harrival d hd hin
    rw [show ConnId.id0.other = ConnId.id1 from rfl, hout₁] at hfound
    exact hfound
  | id1 =>
    rw [harrive₁.inp_of_ne (j := .id1) (by decide)] at hd
    have harrival : Detected g g₀ .id1 :=
      targ_detected h₀ (hdraws t.draws₀ (by simp [SystemInput.draws])) (hsealed .id0)
    exact harrival d hd hnone

/-! ## The steps of the system -/

theorem Rel.sealed {σ : Type} {c : Lists} {l : Loop σ} {x : Station σ} (h : Rel c l x) {d : PackData}
    (hd : x.send = some d) : ∃ p, d = stkSetPackChecksumm p := by
  have hmem : d ∈ c.sendList.map l.tsm.sealed := by
    rw [h.send, hd]
    exact List.mem_singleton_self d
  obtain ⟨p, -, rfl⟩ := List.mem_map.mp hmem
  exact ⟨_, rfl⟩

theorem Called.sealed {timeout : BitVec 32} {i : Input} {tx : List PackData} (h : Called timeout id i tx n n')
    (hs : SealedAir n) (htx : ∀ d ∈ tx, ∃ p, d = stkSetPackChecksumm p) : SealedAir n' := by
  intro k d hd
  rw [h.devs] at hd
  by_cases hk : k = id
  · subst hk
    have hmove := h.move
    rcases hd with hd | hd
    · have hair := hs k d
      generalize n.emul.pc k = pc at hmove hair
      generalize n'.emul.pc k = pc' at hmove hd
      generalize n.ret k = ret at hmove
      generalize n'.ret k = ret' at hmove
      cases hmove with
      | pass => exact hair (Or.inl hd)
      | send =>
        cases hd
        exact htx d List.mem_cons_self
      | _ => cases hd
    · exact hs k d (Or.inr hd)
  · rw [(h.other k hk).1] at hd
    exact hs k d hd

/-- A side that goes on with what it had to send, the output buffers as they were. -/
theorem SealedAir.goto {pc : WlPc} (hs : SealedAir n) (hpc : pc.outgoing = (n.emul.pc id).outgoing ∨ pc.outgoing = none)
    (hout : ∀ k, g.outPacket k = n.emul.devs.outPacket k ∨ g.outPacket k = none ∨
      g.outPacket k = (n.emul.pc k).outgoing)
    (ret : ConnId → Option WlRet) : SealedAir { n with emul := n.emul.goto id g pc, ret := ret } := by
  intro k d hd
  rcases hd with hd | hd
  · by_cases hk : k = id
    · subst hk
      dsimp only at hd
      rw [goto_pc] at hd
      rcases hpc with hpc | hpc
      · exact hs k d (Or.inl (by rw [← hpc, hd]))
      · rw [hpc] at hd
        cases hd
    · dsimp only at hd
      rw [goto_pc_of_ne _ _ _ _ hk] at hd
      exact hs k d (Or.inl hd)
  · dsimp only at hd
    rw [goto_devs] at hd
    rcases hout k with hsame | hnone | hput
    · exact hs k d (Or.inr (by rw [← hsame, hd]))
    · rw [hnone] at hd
      cases hd
    · exact hs k d (Or.inl (by rw [← hput, hd]))

theorem WlMove.sealed {e' : Emul} (h : WlMove cfg n.emul (.tick id t) e' o) (hs : SealedAir n)
    (ret : ConnId → Option WlRet) : SealedAir { n with emul := e', ret := ret } := by
  cases h with
  | @work _ _ pc g o hpc hw =>
    refine hs.goto (Or.inl (WlPc.worked_packets hpc).1) (fun k => ?_) ret
    obtain ⟨-, hdone, hsame⟩ := wlShadowWorker_out hw k
    cases hsend : (n.emul.devs.dev k).outputBuff.isSend with
    | true => exact Or.inl (by rw [WlEmulGlobal.outPacket, WlEmulGlobal.outPacket, hsame (Or.inl hsend)])
    | false =>
      cases hair : wlAirDone (n.emul.devs.dev k).outputBuff.sendTime (t.now k) with
      | true => exact Or.inr (Or.inl (outPacket_none.mpr (hdone hsend hair).1))
      | false => exact Or.inl (by rw [WlEmulGlobal.outPacket, WlEmulGlobal.outPacket, hsame (Or.inr hair)])
  | @check _ _ pc r hpc =>
    refine hs.goto (Or.inl (WlPc.checked_packets hpc).1) (fun k => Or.inl ?_) ret
    rw [WlEmulGlobal.outPacket, WlEmulGlobal.outPacket, (chanelCheck_keeps n.emul.devs).2.2]
  | test hpc =>
    refine hs.goto (Or.inl ?_) (fun _ => Or.inl rfl) ret
    rw [hpc]
    split_ifs <;> rfl
  | busy hpc => exact hs.goto (Or.inl (by rw [hpc]; rfl)) (fun _ => Or.inl rfl) ret
  | @put _ _ payload timeout hpc =>
    refine hs.goto (Or.inr (by split_ifs <;> rfl)) (fun k => ?_) ret
    by_cases hk : k = id
    · subst hk
      refine Or.inr (Or.inr ?_)
      rw [hpc]
      simp [WlEmulGlobal.outPacket, WlEmulGlobal.put, packOfData_payload, WlPc.outgoing]
    · exact Or.inl (by simp [WlEmulGlobal.outPacket, WlEmulGlobal.put, setOut_out_of_ne _ _ _ hk])
  | read hpc => exact hs.goto (Or.inr rfl) (fun _ => Or.inl rfl) ret
  | empty hpc => exact hs.goto (Or.inr rfl) (fun _ => Or.inl rfl) ret
  | copy hpc =>
    refine hs.goto (Or.inr rfl) (fun k => Or.inl ?_) ret
    simp [WlEmulGlobal.outPacket, WlEmulGlobal.take]

theorem WlMove.detected {e' : Emul} (h : WlMove cfg n.emul (.tick id t) e' o) (hs : SealedAir n)
    (hdraws : (SystemInput.tick id t).Detected cfg) (j : ConnId) : Detected n.emul.devs e'.devs j := by
  have hkept : ∀ {g : WlEmulGlobal}, (g.dev j).inputBuff = (n.emul.devs.dev j).inputBuff →
      Detected n.emul.devs g j := by
    intro g hsame d hd hnone
    rw [WlEmulGlobal.inPacket, hsame] at hd
    rw [WlEmulGlobal.inPacket] at hnone
    rw [hnone] at hd
    cases hd
  cases h with
  | work hpc hw => exact worker_detected hw hdraws (fun k d hd => hs k d (Or.inr hd)) j
  | check hpc => exact hkept (by rw [goto_devs, (chanelCheck_keeps n.emul.devs).2.2])
  | put hpc => exact hkept (by simp [WlEmulGlobal.put])
  | copy hpc =>
    by_cases hj : j = id
    · subst hj
      intro d hd
      simp [WlEmulGlobal.inPacket, WlEmulGlobal.take] at hd
    · exact hkept (by simp [WlEmulGlobal.take, setIn_inp_of_ne _ _ _ hj])
  | _ => exact hkept rfl

/-- **One step** with draws that the checksum finds: what goes into the air is sealed, and damage is found. -/
theorem Advance.sealed {i : SystemInput} {os : List SystemEvent} (h : Advance cfg n n' a b i os a' b')
    (hord : Ordered n a b) (hs : SealedAir n)
    (hi : i.Detected cfg) : SealedAir n' ∧ ∀ j, Detected n.emul.devs n'.emul.devs j := by
  have hkept : n'.emul.devs = n.emul.devs → ∀ j, Detected n.emul.devs n'.emul.devs j := by
    intro hsame j d hd hnone
    rw [hsame, hnone] at hd
    cases hd
  cases h with
  | master hmove _ hcalled _ =>
    obtain ⟨c, hrel⟩ := hord.master.rel
    exact ⟨hcalled.sealed hs fun d hd => hrel.sealed (hmove.transmits hd).1, hkept hcalled.devs⟩
  | slave hmove hcalled _ =>
    obtain ⟨c, hrel⟩ := hord.slave.rel
    exact ⟨hcalled.sealed hs fun d hd => hrel.sealed (hmove.transmits hd), hkept hcalled.devs⟩
  | @tick id t o hmove hret hflight =>
    exact ⟨hmove.sealed hs n'.ret, hmove.detected hs hi⟩

/-- **Draws suffice.** In a run whose draws the checksum finds, the damage is found. -/
theorem Ordered.undisrupted {is : List SystemInput} {os : List SystemEvent} (h : Ordered n a b) (hs : SealedAir n)
    (hr : run (systemStep cfg) n is = some (n', os)) (halong : Along (systemStep cfg) (ExpiresWhen System.still) n is)
    (hdraws : ∀ i ∈ is, i.Detected cfg) : Along (systemStep cfg) (Undisrupted cfg) n is := by
  refine (run_along (I := fun n => (∃ a b, Ordered n a b) ∧ SealedAir n) ?_ ⟨⟨a, b, h⟩, hs⟩ hr
    (halong.and_mem hdraws)).1
  rintro n i n' o ⟨⟨a, b, h⟩, hs⟩ ⟨hi, hdet⟩ hstep
  obtain ⟨⟨a', b', hnext, hadvance⟩, -⟩ := h.advance hi hstep
  obtain ⟨hs', hfound⟩ := hadvance.sealed h hs hdet
  refine ⟨⟨hi, ?_⟩, ⟨a', b', hnext⟩, hs'⟩
  intro r hr x _
  cases (Option.mem_def.mp hr).symm.trans hstep
  exact hfound x

end LoraBridge
