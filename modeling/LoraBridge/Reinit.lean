import LoraBridge.Replay
import LoraBridge.Reproducible

/-!
# Re-initialisation

`wl_emul_env_init` writes neither the bytes nor the times of the buffers. Nothing reads them: all that a step reads of a
buffer is what is live in it, the packet of an output buffer in the air and of a full input buffer. Two states with the
same live packets, errors and seeds run alike (`seedRun_alike`).
-/

set_option autoImplicit false

namespace LoraBridge.Seeded

open Transducer

variable {env : WlEnv} {id : ConnId} {g g' : WlEmulGlobal} {s s' : SeedEmul} {os o : List SeedEvent}

/-! ## What is live -/

/-- The packet in the air: when it was sent, its number and its bytes. -/
def outLive (b : WlEmulBuffO) : Option (Timeval × Nat × PackData) :=
  if b.isSend then none else some (b.sendTime, b.num, packOfData b.sendData)

/-- The packet to be read. -/
def inpLive (b : WlEmulBuffI) : Option (Nat × PackData) :=
  if b.isRecieved then some (b.num, packOfData b.recvData) else none

/-- The same packets are live, and the same counted. -/
structure SameLive (g g' : WlEmulGlobal) : Prop where
  out : ∀ id, outLive (g.dev id).outputBuff = outLive (g'.dev id).outputBuff
  inp : ∀ id, inpLive (g.dev id).inputBuff = inpLive (g'.dev id).inputBuff
  err : g.err = g'.err
  puts : g.puts = g'.puts

theorem outLive_eq {a b : WlEmulBuffO} (h : outLive a = outLive b) : a.isSend = b.isSend ∧
    (a.isSend = false → a.sendTime = b.sendTime ∧ a.num = b.num ∧ packOfData a.sendData = packOfData b.sendData) := by
  unfold outLive at h
  cases ha : a.isSend <;> cases hb : b.isSend <;> simp_all

theorem inpLive_eq {a b : WlEmulBuffI} (h : inpLive a = inpLive b) : a.isRecieved = b.isRecieved ∧
    (a.isRecieved = true → a.num = b.num ∧ packOfData a.recvData = packOfData b.recvData) := by
  unfold inpLive at h
  cases ha : a.isRecieved <;> cases hb : b.isRecieved <;> simp_all

theorem SameLive.isSend (h : SameLive g g') (id : ConnId) :
    (g.dev id).outputBuff.isSend = (g'.dev id).outputBuff.isSend := (outLive_eq (h.out id)).1

theorem SameLive.isRecieved (h : SameLive g g') (id : ConnId) :
    (g.dev id).inputBuff.isRecieved = (g'.dev id).inputBuff.isRecieved := (inpLive_eq (h.inp id)).1

theorem SameLive.num (h : SameLive g g') (hsend : (g.dev id).outputBuff.isSend = false) :
    (g.dev id).outputBuff.num = (g'.dev id).outputBuff.num := ((outLive_eq (h.out id)).2 hsend).2.1

theorem SameLive.setIn (h : SameLive g g') {b b' : WlEmulBuffI} (hb : inpLive b = inpLive b') :
    SameLive (g.setIn id b) (g'.setIn id b') where
  out j := by rw [setIn_out, setIn_out, h.out j]
  inp j := by
    by_cases hj : j = id
    · subst hj
      rw [setIn_inp, setIn_inp, hb]
    · rw [setIn_inp_of_ne _ _ _ hj, setIn_inp_of_ne _ _ _ hj, h.inp j]
  err := h.err
  puts := h.puts

theorem SameLive.incErr (h : SameLive g g') : SameLive g.incErr g'.incErr where
  out := h.out
  inp := h.inp
  err := congrArg (· + 1) h.err
  puts := h.puts

theorem SameLive.put (h : SameLive g g') (payload : PackData) (now : Timeval) :
    SameLive (g.put id payload now) (g'.put id payload now) where
  out j := by
    by_cases hj : j = id
    · subst hj
      simp [WlEmulGlobal.put, outLive, packOfData_payload, h.puts]
    · simpa [WlEmulGlobal.put, setOut_out_of_ne _ _ _ hj] using h.out j
  inp j := by simpa [WlEmulGlobal.put] using h.inp j
  err := h.err
  puts := by simp [WlEmulGlobal.put, h.puts]

theorem SameLive.take (h : SameLive g g') : SameLive (g.take id) (g'.take id) :=
  h.setIn (by simp [inpLive])

theorem SameLive.check (h : SameLive g g') :
    SameLive (wlShadowWorkerChanelCheck g).1 (wlShadowWorkerChanelCheck g').1 ∧
      (wlShadowWorkerChanelCheck g).2 = (wlShadowWorkerChanelCheck g').2 := by
  rcases chanelCheck_cases g with ⟨h₀, h₁, hc⟩ | ⟨hsent, hc⟩
  · rcases chanelCheck_cases g' with ⟨-, -, hc'⟩ | ⟨hsent', hc'⟩
    · rw [hc, hc', h.num h₀, h.num h₁]
      exact ⟨h.incErr, rfl⟩
    · rw [← h.isSend, ← h.isSend, h₀, h₁] at hsent'
      rcases hsent' with hc | hc <;> cases hc
  · rcases chanelCheck_cases g' with ⟨h₀', h₁', hc'⟩ | ⟨-, hc'⟩
    · rw [h.isSend, h.isSend, h₀', h₁'] at hsent
      rcases hsent with hc | hc <;> cases hc
    · rw [hc, hc']
      exact ⟨h, rfl⟩

theorem SameLive.land (h : SameLive g g') {src : ConnId} (hsend : (g.dev src).outputBuff.isSend = false) (v : Verdict) :
    SameLive (land src v g) (land src v g') := by
  obtain ⟨-, hlive⟩ := outLive_eq (h.out src)
  obtain ⟨-, hnum, hdata⟩ := hlive hsend
  have hpack : packOfData (landData src v g) = packOfData (landData src v g') := by
    unfold landData
    split_ifs
    · exact hdata
    · exact packOfData_flipAll_congr hdata v.bits
  have hinp : inpLive (landInp src v g) = inpLive (landInp src v g') := by
    have hfree : landFree src v g = landFree src v g' := by rw [landFree, landFree, h.isRecieved]
    rw [landInp, landInp, hfree]
    split_ifs
    · simp [inpLive, hpack, hnum]
    · exact h.inp src.other
  refine ⟨fun j => ?_, fun j => ?_, ?_, ?_⟩
  · rcases src.eq_or_other j with rfl | rfl
    · simp [land_out, outLive]
    · rw [land_out_other, land_out_other, h.out]
  · rcases src.eq_or_other j with rfl | rfl
    · rw [land_inp, land_inp, h.inp]
    · rw [land_inp_other, land_inp_other, hinp]
  · rw [land_err, land_err, h.err, landFull, landFull, h.isRecieved]
  · rw [land_puts, land_puts, h.puts]

theorem SameLive.landEvents (h : SameLive g g') {src : ConnId} (hsend : (g.dev src).outputBuff.isSend = false)
    (v : Verdict) : landEvents src v g = landEvents src v g' := by
  rw [Seeded.landEvents, Seeded.landEvents, h.num hsend, h.isRecieved]

/-! ## Steps -/

/-- Alike states: the same places, seeds and live packets. -/
structure Alike (s t : SeedEmul) : Prop where
  pc : s.pc = t.pc
  seedp : s.devs.seedp = t.devs.seedp
  live : SameLive s.devs.toWlEmulGlobal t.devs.toWlEmulGlobal

/-- A receive that is about to copy a packet has one. -/
def Ready (e : Emul) : Prop := ∀ id, e.pc id = .recvCopy → (e.devs.dev id).inputBuff.isRecieved = true

/-- A step that calls no worker. -/
theorem wlStep_alike {cfg : WlConfig} {e e' : Emul} (hpc : e.pc = e'.pc) (hlive : SameLive e.devs e'.devs)
    (hready : Ready e) (hw : (e.pc id).worked = none) (t : WlTick) :
    Lockstep (fun e e' => e.pc = e'.pc ∧ SameLive e.devs e'.devs) (LoraBridge.wlStep cfg e id t)
      (LoraBridge.wlStep cfg e' id t) := by
  have hgoto : ∀ {g g'} (pc : WlPc), SameLive g g' →
      (e.goto id g pc).pc = (e'.goto id g' pc).pc ∧ SameLive (e.goto id g pc).devs (e'.goto id g' pc).devs := by
    intro g g' pc h
    exact ⟨by rw [Emul.goto, Emul.goto, hpc], h⟩
  have hcheck := hlive.check
  cases h : e.pc id with
  | out =>
    have h' := hpc ▸ h
    simp only [LoraBridge.wlStep, h, h']
    rfl
  | sendBegin payload timeout => rw [h] at hw; cases hw
  | sendFlush => rw [h] at hw; cases hw
  | recvBegin timeout => rw [h] at hw; cases hw
  | dataWorker w => rw [h] at hw; cases hw
  | sendTest payload timeout =>
    have h' := hpc ▸ h
    simp only [LoraBridge.wlStep, h, h', hlive.isSend]
    exact Lockstep.of_eq (hgoto _ hlive) rfl
  | sendBusy payload timeout =>
    have h' := hpc ▸ h
    simp only [LoraBridge.wlStep, h, h']
    exact Lockstep.of_eq (hgoto _ hlive.incErr) rfl
  | sendPut payload timeout =>
    have h' := hpc ▸ h
    simp only [LoraBridge.wlStep, h, h']
    refine Lockstep.of_eq (hgoto _ (hlive.put payload t.now₀)) ?_
    cases hsend : (e.devs.dev id).outputBuff.isSend with
    | true => simp [hlive.isSend id ▸ hsend, hlive.puts]
    | false => simp [hlive.isSend id ▸ hsend, hlive.num hsend, hlive.puts]
  | sendCheck =>
    have h' := hpc ▸ h
    simp only [LoraBridge.wlStep, h, h']
    exact Lockstep.of_eq (hgoto _ hcheck.1) (by rw [hcheck.2])
  | dataRead w =>
    have h' := hpc ▸ h
    simp only [LoraBridge.wlStep, h, h', hlive.isRecieved]
    exact Lockstep.of_eq (hgoto _ hlive) rfl
  | dataCheck w ret =>
    have h' := hpc ▸ h
    simp only [LoraBridge.wlStep, h, h']
    exact Lockstep.of_eq (hgoto _ hcheck.1) (by rw [hcheck.2])
  | recvEmpty =>
    have h' := hpc ▸ h
    simp only [LoraBridge.wlStep, h, h']
    exact Lockstep.of_eq (hgoto _ hlive.incErr) rfl
  | recvCopy =>
    have h' := hpc ▸ h
    obtain ⟨hnum, hdata⟩ := (inpLive_eq (hlive.inp id)).2 (hready id h)
    simp only [LoraBridge.wlStep, h, h', hdata]
    exact Lockstep.of_eq (hgoto _ hlive.take) (by rw [hnum])
  | recvCheck data =>
    have h' := hpc ▸ h
    simp only [LoraBridge.wlStep, h, h']
    exact Lockstep.of_eq (hgoto _ hcheck.1) (by rw [hcheck.2])

/-! ### The worker -/

variable {t : SeedTick} {a b : WlSeeded}

theorem drawFor_live {x y : WlEmulBuffO} (h : outLive x = outLive y) (now : Timeval) (fuel : Nat) (seed : Seed) :
    drawFor env now fuel x seed = drawFor env now fuel y seed := by
  obtain ⟨hsend, hlive⟩ := outLive_eq h
  cases hx : x.isSend with
  | true =>
    have hy := hsend ▸ hx
    simp [drawFor, hx, hy]
  | false =>
    have hy := hsend ▸ hx
    simp [drawFor, hx, hy, (hlive hx).1]

/-- There is a packet in the air when something is drawn for it. -/
theorem drawFor_sent {now : Timeval} {fuel : Nat} {out : WlEmulBuffO} {seed : Seed} {r : Verdict × Seed}
    (h : drawFor env now fuel out seed = some (some r)) : out.isSend = false := by
  unfold drawFor at h
  split_ifs at h with hdone
  · rw [Bool.and_eq_true, Bool.not_eq_true'] at hdone
    exact hdone.1
  · cases h

theorem SameLive.settle (h : SameLive a.toWlEmulGlobal b.toWlEmulGlobal) (hseedp : a.seedp = b.seedp) {src : ConnId}
    {r : Option (Verdict × Seed)} (hsent : ∀ q, r = some q → (a.dev src).outputBuff.isSend = false) :
    SameLive (settle src a r).toWlEmulGlobal (settle src b r).toWlEmulGlobal ∧
      (settle src a r).seedp = (settle src b r).seedp ∧ settleEvents src a r = settleEvents src b r := by
  cases r with
  | none => exact ⟨h, hseedp, rfl⟩
  | some q =>
    have hsend := hsent q rfl
    refine ⟨h.land hsend q.1, by rw [Seeded.settle, Seeded.settle, hseedp], ?_⟩
    rw [settleEvents, settleEvents, h.num hsend, h.landEvents hsend]

theorem wlShadowWorker_alike (h : SameLive a.toWlEmulGlobal b.toWlEmulGlobal) (hseedp : a.seedp = b.seedp) :
    Lockstep (fun a b => SameLive a.toWlEmulGlobal b.toWlEmulGlobal ∧ a.seedp = b.seedp) (wlShadowWorker env t a)
      (wlShadowWorker env t b) := by
  rw [wlShadowWorker_eq, wlShadowWorker_eq, ← drawFor_live (h.out .id0), ← drawFor_live (h.out .id1), ← hseedp]
  cases h₀ : drawFor env t.now₀ t.fuel₀ (a.dev .id0).outputBuff (a.seedp .id0) with
  | none => rfl
  | some r₀ =>
    cases h₁ : drawFor env t.now₁ t.fuel₁ (a.dev .id1).outputBuff (a.seedp .id1) with
    | none => rfl
    | some r₁ =>
      obtain ⟨hlive₀, hseedp₀, hevents₀⟩ := h.settle hseedp (r := r₀) (fun q hq => drawFor_sent (hq ▸ h₀))
      have hout : ((settle .id0 a r₀).dev .id1).outputBuff = (a.dev .id1).outputBuff := settle_out_other .id0 a r₀
      obtain ⟨hlive₁, hseedp₁, hevents₁⟩ := hlive₀.settle hseedp₀ (r := r₁)
        (fun q hq => hout ▸ drawFor_sent (hq ▸ h₁))
      obtain ⟨hcheck, hevents⟩ := hlive₁.check
      refine Lockstep.of_eq ⟨hcheck, hseedp₁⟩ ?_
      rw [hevents₀, hevents₁, hevents]

/-- **Alike states step alike.** -/
theorem seedStep_alike {s t : SeedEmul} (h : Alike s t) (hready : Ready s.plain) (i : SeedInput) :
    Lockstep Alike (seedStep env s i) (seedStep env t i) := by
  have hplain : ∀ {r q}, Lockstep (fun e e' : Emul => e.pc = e'.pc ∧ SameLive e.devs e'.devs) r q →
      Lockstep Alike (r.map s.withPlain) (q.map t.withPlain) :=
    fun hr => hr.map fun e e' o hR => ⟨⟨hR.1, h.seedp, hR.2⟩, rfl⟩
  cases i with
  | call id c =>
    refine hplain ?_
    have hpc : s.plain.pc = t.plain.pc := h.pc
    simp only [emulStep]
    by_cases hout : s.plain.pc id = .out
    · rw [if_pos hout, if_pos (hpc ▸ hout)]
      exact Lockstep.of_eq ⟨by rw [Emul.goto, Emul.goto, hpc], h.live⟩ rfl
    · rw [if_neg hout, if_neg (hpc ▸ hout)]
      rfl
  | tick id tick =>
    have hpc := congrFun h.pc id
    simp only [seedStep, wlStep, ← hpc]
    cases hw : (s.pc id).worked with
    | some pc =>
      exact (wlShadowWorker_alike h.live h.seedp).map fun a b o hR => ⟨⟨by rw [h.pc], hR.2, hR.1⟩, rfl⟩
    | none => exact hplain (wlStep_alike h.pc h.live hready hw _)
  | errCount => exact Lockstep.of_eq h (by rw [h.live.err])

/-! ## Runs -/

theorem seedRun_ready {g : WlSeeded} {is : List SeedInput} (hr : run (seedStep env) (seedStart g) is = some (s, os)) :
    Ready s.plain :=
  fun id hpc => (seedRun_accounts hr).ready id (Or.inl hpc)

theorem seedStart_alike (g g' : WlSeeded) : Alike (seedStart g) (seedStart g') where
  pc := rfl
  seedp := rfl
  live := ⟨fun _ => rfl, fun _ => rfl, rfl, rfl⟩

/-- After `wl_emul_env_init` two emulators run alike. -/
theorem seedRun_alike (env : WlEnv) (g g' : WlSeeded) (is : List SeedInput) :
    Lockstep Alike (run (seedStep env) (seedStart g) is) (run (seedStep env) (seedStart g') is) :=
  run_lockstep (C := fun s _ => Ready s.plain) (fun _ _ i h hready => seedStep_alike h hready i) (seedStart_alike g g')
    (fun _ _ _ _ _ _ hr => seedRun_ready hr)

/-- **Re-initialisation is complete.** Whatever `devs` was before `wl_emul_env_init`, the same calls at the same clock
readings make the same history: results, packets and error counts. Every packet returned is one sent since. -/
theorem reinit_complete (env : WlEnv) (g g' : WlSeeded) (is : List SeedInput) :
    (run (seedStep env) (seedStart g) is).map Prod.snd = (run (seedStep env) (seedStart g') is).map Prod.snd ∧
      ∀ (s : SeedEmul) (os : List SeedEvent), run (seedStep env) (seedStart g) is = some (s, os) →
        ∀ (id : ConnId) (n : Nat) (d' : PackData), .emul (.returned id n d') ∈ os →
          ∃ d, (passedSeeded id is)[n]? = some d ∧ Flown os id n d d' := by
  refine ⟨?_, fun s os hr id n d' => seedRun_returned hr⟩
  have h := seedRun_alike env g g' is
  cases hq : run (seedStep env) (seedStart g') is with
  | none =>
    rw [hq] at h
    have hr : run (seedStep env) (seedStart g) is = none := h
    rw [hr]
  | some q =>
    obtain ⟨t, o⟩ := q
    rw [hq] at h
    obtain ⟨s, hs, -⟩ := h
    rw [hs]
    rfl

/-- Two sends at once: one error, and a packet left in the air. -/
def leftInputs : List SeedInput :=
  let first : PackData := Vector.replicate 19 2
  [.call .id0 (.send first 0)] ++ seedTicks .id0 4 0 ++ [.call .id0 (.send first 0)] ++ seedTicks .id0 5 50

def receiveInputs : List SeedInput :=
  aloneInputs ++ [.call .id1 (.recv 0)] ++ seedTicks .id1 6 200 ++ [.errCount]

theorem reinit_complete_left : ∃ s os, run (seedStep .rough) (seedStart .zeroed) leftInputs = some (s, os) ∧
    (s.devs.dev .id0).outputBuff.isSend = false ∧ s.devs.err = 1 ∧
    (run (seedStep .rough) (seedStart s.devs) receiveInputs).map (fun r => results .id1 (plainEvents r.2)) =
      some [(Vector.replicate 19 1).set 2 0] := by
  have hleft : (run (seedStep .rough) (seedStart .zeroed) leftInputs).map
      (fun r => ((r.1.devs.dev .id0).outputBuff.isSend, r.1.devs.err)) = some (false, 1) := by decide +kernel
  have hfresh : ((run (seedStep .rough) (seedStart .zeroed) receiveInputs).map Prod.snd).map
      (fun os => results .id1 (plainEvents os)) = some [(Vector.replicate 19 1).set 2 0] := by decide +kernel
  obtain ⟨⟨s, os⟩, hr, hfacts⟩ := Option.map_eq_some_iff.mp hleft
  simp only [Prod.mk.injEq] at hfacts
  refine ⟨s, os, hr, hfacts.1, hfacts.2, ?_⟩
  rw [← (reinit_complete .rough s.devs .zeroed receiveInputs).1, Option.map_map] at hfresh
  exact hfresh

end LoraBridge.Seeded
