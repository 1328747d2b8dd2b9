import LoraBridge.Accounting
import LoraBridge.Landing

/-!
# Runs with seeds are runs of the emulator

What `rand_r` returns is one of the lists of values that a tick of `Emulator` may have, and an arrival at one time on
air is one at another time on air at another reading of the clock. So a run with seeds is a run of `Emulator` on the
same calls, with the same history and the same buffers (`seedRun_plain`). It has the same account of its packets, in
which each one lands with the flips of its own flight (`seedRun_accounts`).
-/

set_option autoImplicit false

namespace LoraBridge.Seeded

open Transducer

variable {env : WlEnv} {s s' : SeedEmul} {os o : List SeedEvent} {prev : BitVec 32} {fuel : Nat} {inner : Bool}
  {seed seed' : Seed} {fs : List (BitVec 32)} {v : Verdict}

/-! ## Draws and clock readings -/

theorem flipsFrom_draws (h : flipsFrom env prev fuel inner seed = some (fs, seed')) :
    ∃ draws, wlPackBreakLoopFlips env.cfg prev inner draws = some fs := by
  induction fuel generalizing inner seed fs with
  | zero => cases h
  | succ fuel ih =>
    cases inner with
    | true =>
      simp only [flipsFrom] at h
      split_ifs at h with hprev
      · obtain ⟨draws, hdraws⟩ := ih h
        exact ⟨(env.randR seed).1 :: draws, by simp [wlPackBreakLoopFlips, hprev, hdraws]⟩
      · obtain ⟨⟨fs', seed₁⟩, hrest, heq⟩ := Option.map_eq_some_iff.mp h
        cases heq
        obtain ⟨draws, hdraws⟩ := ih hrest
        exact ⟨(env.randR seed).1 :: draws, by simp [wlPackBreakLoopFlips, hprev, hdraws]⟩
    | false =>
      simp only [flipsFrom] at h
      split_ifs at h with hmore
      · obtain ⟨draws, hdraws⟩ := ih h
        exact ⟨(env.randR seed).1 :: draws, by simp [wlPackBreakLoopFlips, hmore, hdraws]⟩
      · cases h
        exact ⟨[(env.randR seed).1], by simp [wlPackBreakLoopFlips, hmore]⟩

theorem breakFrom_draws (h : breakFrom env fuel seed = some (fs, seed')) :
    ∃ draws, wlPackBreakFlips env.cfg draws = some fs := by
  simp only [breakFrom] at h
  split_ifs at h with herr hbroken
  · obtain ⟨⟨fs', seed₁⟩, hrest, heq⟩ := Option.map_eq_some_iff.mp h
    cases heq
    obtain ⟨draws, hdraws⟩ := flipsFrom_draws hrest
    exact ⟨(env.randR seed).1 :: (env.randR (env.randR seed).2).1 :: draws,
      by simp [wlPackBreakFlips, herr, hbroken, hdraws]⟩
  · cases h
    exact ⟨[(env.randR seed).1], by simp [wlPackBreakFlips, herr, hbroken]⟩
  · cases h
    exact ⟨[], by simp [wlPackBreakFlips, herr]⟩

/-- The values that lead to a verdict. -/
theorem verdictFrom_draws (h : verdictFrom env fuel seed = some (v, seed')) :
    ∃ draws rest, LoraBridge.wlIsPacketLost env.cfg draws = some (v.lost, rest) ∧
      (v.lost = false → wlPackBreakFlips env.cfg rest = some v.bits) := by
  simp only [verdictFrom] at h
  split_ifs at h with hlose hlost
  · cases h
    exact ⟨[(env.randR seed).1], [], by simp [LoraBridge.wlIsPacketLost, hlose, hlost], (by simp)⟩
  · obtain ⟨⟨fs, seed₁⟩, hrest, heq⟩ := Option.map_eq_some_iff.mp h
    cases heq
    obtain ⟨draws, hdraws⟩ := breakFrom_draws hrest
    exact ⟨(env.randR seed).1 :: draws, draws, by simp [LoraBridge.wlIsPacketLost, hlose, hlost], fun _ => hdraws⟩
  · obtain ⟨⟨fs, seed₁⟩, hrest, heq⟩ := Option.map_eq_some_iff.mp h
    cases heq
    obtain ⟨draws, hdraws⟩ := breakFrom_draws hrest
    exact ⟨draws, draws, by simp [LoraBridge.wlIsPacketLost, hlose], fun _ => hdraws⟩

/-- At some reading of the clock the packet has arrived, and at some it has not. -/
theorem wlAirDone_reading (sendTime : Timeval) (done : Bool) : ∃ now, wlAirDone sendTime now = done := by
  cases done with
  | true => exact ⟨timeradd sendTime wlTimeOnAir, by simp [wlAirDone, timercmpLe]⟩
  | false =>
    refine ⟨⟨(timeradd sendTime wlTimeOnAir).tvSec - 1, 0⟩, ?_⟩
    have hne : ¬ (timeradd sendTime wlTimeOnAir).tvSec = (timeradd sendTime wlTimeOnAir).tvSec - 1 := by omega
    simp only [wlAirDone, timercmpLe, if_neg hne, decide_eq_false_iff_not]
    omega

/-! ## Steps -/

theorem plainEvents_settle (src : ConnId) (g : WlSeeded) (r : Option (Verdict × Seed)) :
    plainEvents (settleEvents src g r) = r.elim [] fun r => landEvents src r.1 g.toWlEmulGlobal := by
  cases r with
  | none => rfl
  | some r => exact plainEvents_map _

theorem drawFor_plain {now : Timeval} {src : ConnId} {g : WlSeeded} {r : Option (Verdict × Seed)}
    (h : drawFor env now fuel (g.dev src).outputBuff (g.seedp src) = some r) :
    ∃ now' draws, LoraBridge.wlShadowWorkerTarg env.cfg now' draws src src.other g.toWlEmulGlobal =
      some ((settle src g r).toWlEmulGlobal, plainEvents (settleEvents src g r)) := by
  rw [plainEvents_settle]
  unfold drawFor at h
  split_ifs at h with hdone
  · obtain ⟨⟨v, seed⟩, hverdict, rfl⟩ := Option.map_eq_some_iff.mp h
    rw [Bool.and_eq_true, Bool.not_eq_true'] at hdone
    obtain ⟨draws, rest, hlost, hbits⟩ := verdictFrom_draws hverdict
    obtain ⟨now', hnow⟩ := wlAirDone_reading (g.dev src).outputBuff.sendTime true
    refine ⟨now', draws, ?_⟩
    cases hv : v.lost with
    | true => simp [LoraBridge.wlShadowWorkerTarg, hdone.1, hnow, hlost, hv, settle, land, landEvents]
    | false =>
      cases hfull : (g.dev src.other).inputBuff.isRecieved <;>
        simp [LoraBridge.wlShadowWorkerTarg, hdone.1, hnow, hlost, hv, hfull, LoraBridge.wlPackBreak_eq, hbits hv,
          settle, land, landEvents, wlPackCopy_all]
  · cases h
    obtain ⟨now', hnow⟩ := wlAirDone_reading (g.dev src).outputBuff.sendTime false
    refine ⟨now', [], ?_⟩
    cases hsend : (g.dev src).outputBuff.isSend <;>
      simp [LoraBridge.wlShadowWorkerTarg, hsend, hnow, settle]

theorem wlShadowWorker_plain {t : SeedTick} {g g' : WlSeeded} (h : wlShadowWorker env t g = some (g', o)) :
    ∃ t', LoraBridge.wlShadowWorker env.cfg t' g.toWlEmulGlobal = some (g'.toWlEmulGlobal, plainEvents o) := by
  obtain ⟨r₀, r₁, h₀, h₁, heq⟩ := wlShadowWorker_settle h
  cases heq
  have hout : ((settle .id0 g r₀).dev .id1).outputBuff = (g.dev .id1).outputBuff := settle_out_other .id0 g r₀
  have hseedp : (settle .id0 g r₀).seedp .id1 = g.seedp .id1 := settle_seedp_other .id0 g r₀
  rw [← hout, ← hseedp] at h₁
  obtain ⟨now₀, draws₀, htarg₀⟩ := drawFor_plain h₀
  obtain ⟨now₁, draws₁, htarg₁⟩ := drawFor_plain h₁
  refine ⟨⟨now₀, now₁, draws₀, draws₁⟩, ?_⟩
  simp only [ConnId.other] at htarg₀ htarg₁
  simp only [LoraBridge.wlShadowWorker, htarg₀, htarg₁, Option.bind_eq_bind, Option.bind_some, plainEvents_append,
    plainEvents_map, Option.pure_def]

/-- Where a worker is called, the step is the worker's. -/
theorem wlStep_worked {cfg : WlConfig} {e : Emul} {id : ConnId} {pc : WlPc} (h : (e.pc id).worked = some pc)
    (t : WlTick) : LoraBridge.wlStep cfg e id t =
      (LoraBridge.wlShadowWorker cfg t e.devs).bind fun r => some (e.goto id r.1 pc, r.2) := by
  unfold LoraBridge.wlStep
  cases hpc : e.pc id with
  | sendBegin payload timeout => rw [hpc] at h; cases h; rfl
  | sendFlush => rw [hpc] at h; cases h; rfl
  | recvBegin timeout => rw [hpc] at h; cases h; rfl
  | dataWorker w => rw [hpc] at h; cases h; rfl
  | _ => rw [hpc] at h; cases h

/-- The call that an input makes. -/
def SeedInput.asked : SeedInput → Option WlInput
  | .call id c => some (.call id c)
  | _ => none

def WlInput.asked : WlInput → Option WlInput
  | .call id c => some (.call id c)
  | _ => none

theorem seedStep_plain {i : SeedInput} (h : seedStep env s i = some (s', o)) :
    ∃ js, js.filterMap WlInput.asked = [i].filterMap SeedInput.asked ∧
      run (emulStep env.cfg) s.plain js = some (s'.plain, plainEvents o) := by
  cases seedStep_move h with
  | @call id c e oe hs =>
    rw [plainEvents_map]
    exact ⟨[.call id c], rfl, run_single.mpr hs⟩
  | @work id t pc g og hpc hw =>
    obtain ⟨t', ht'⟩ := wlShadowWorker_plain hw
    refine ⟨[.tick id t'], rfl, run_single.mpr ?_⟩
    have hplain : (s.plain.pc id).worked = some pc := hpc
    have hworker : LoraBridge.wlShadowWorker env.cfg t' s.plain.devs = _ := ht'
    rw [emulStep, wlStep_worked hplain, hworker]
    rfl
  | @plain id t e oe hpc hs =>
    rw [plainEvents_map]
    exact ⟨[.tick id ⟨t.now₀, t.now₁, [], []⟩], rfl, run_single.mpr hs⟩
  | errCount => exact ⟨[], rfl, rfl⟩

/-- **Runs with seeds are runs of the emulator**, on the same calls, with the same history. -/
theorem seedRun_plain {is : List SeedInput} (hr : run (seedStep env) s is = some (s', os)) :
    ∃ js, js.filterMap WlInput.asked = is.filterMap SeedInput.asked ∧
      run (emulStep env.cfg) s.plain js = some (s'.plain, plainEvents os) :=
  run_refine (fun _ _ _ _ => seedStep_plain) hr

/-! ## The account -/

/-- Packet `n` of `id`, sent as `d`, has come out of its flight as `d'`. -/
def Flown (os : List SeedEvent) (id : ConnId) (n : Nat) (d d' : PackData) : Prop :=
  ∃ v, (n, v) ∈ flightsOf id os ∧ v.lost = false ∧ packOfData (flipAll v.bits (payloadData d)) = d'

theorem packOfData_payloadData (d : PackData) : packOfData (payloadData d) = d := by
  ext i hi
  simp [packOfData, payloadData, List.getD_eq_getElem?_getD]

/-- A packet that passes in a call of the worker comes out of a flight. -/
theorem wlShadowWorker_flown {t : SeedTick} {g g' : WlSeeded} (h : wlShadowWorker env t g = some (g', o))
    (id : ConnId) :
    Delivers (Flown (os ++ o) id) id g.toWlEmulGlobal g'.toWlEmulGlobal := by
  intro n hfront hback hfront'
  obtain ⟨r, -, -, -, hevents, hinp⟩ := wlShadowWorker_side h id
  cases r with
  | none =>
    rw [WlEmulGlobal.front, hinp] at hfront'
    cases hfront.symm.trans hfront'
  | some r =>
    rw [show ((settle id g (some r)).dev id.other).inputBuff = landInp id r.1 g.toWlEmulGlobal from
      land_inp_other id r.1 g.toWlEmulGlobal] at hinp
    rw [WlEmulGlobal.front, hinp] at hfront'
    rw [hinp]
    cases hfree : landFree id r.1 g.toWlEmulGlobal with
    | false =>
      rw [landInp, hfree] at hfront'
      cases hfront.symm.trans hfront'
    | true =>
      rw [landInp, if_pos hfree] at hfront' ⊢
      simp only [if_true, Option.some.injEq] at hfront'
      simp only [landFree, Bool.and_eq_true, Bool.not_eq_true'] at hfree
      have hmem : .flight id n r.1 ∈ senderEvents id o := by
        rw [hevents, senderEvents_settle, hfront']
        exact List.mem_singleton_self _
      refine ⟨r.1, ?_, hfree.1, ?_⟩
      · rw [flightsOf_append]
        refine List.mem_append_right _ (List.mem_filterMap.mpr ⟨_, (List.mem_filter.mp hmem).1, ?_⟩)
        simp
      · rw [landData, if_neg (by simp [hfree.1])]
        exact packOfData_flipAll_congr (packOfData_payloadData _) r.1.bits

/-- A step that calls no worker lets no packet pass. -/
theorem emulStep_kept {cfg : WlConfig} {e e' : Emul} {i : WlInput} {oe : List WlEvent}
    (hs : emulStep cfg e i = some (e', oe)) (hwork : ∀ id t, i = .tick id t → (e.pc id).worked = none)
    {R : Nat → PackData → PackData → Prop} (id : ConnId) : Delivers R id e.devs e'.devs := by
  intro n hfront hback hfront'
  rcases (emulStep_move hs).fills hfront with hnone | ⟨j, t, rfl, hpc, -⟩
  · cases hnone.symm.trans hfront'
  · exact absurd (hwork j t rfl) hpc

theorem seedRun_accounts {g : WlSeeded} {is : List SeedInput}
    (hr : run (seedStep env) (seedStart g) is = some (s, os)) :
    Accounts (Flown os) s.plain (plainEvents os) := by
  refine run_induct (P := fun _ os s => Accounts (Flown os) s.plain (plainEvents os)) (Accounts.start _ _) ?_ hr
  rintro is os s i s' o h hs
  have hmono : Accounts (Flown (os ++ o)) s.plain (plainEvents os) := by
    refine h.mono fun id n d d' hflown => ?_
    obtain ⟨v, hv, hlost⟩ := hflown
    exact ⟨v, by rw [flightsOf_append]; exact List.mem_append_left _ hv, hlost⟩
  rw [plainEvents_append]
  cases seedStep_move hs with
  | @call id c e oe hplain =>
    rw [plainEvents_map]
    refine hmono.step (emulStep_move hplain) fun id => emulStep_kept hplain (fun j t' hi => ?_) id
    cases hi
  | work hpc hw =>
    obtain ⟨t', ht'⟩ := wlShadowWorker_plain hw
    exact hmono.step (.work hpc ht') (wlShadowWorker_flown hw)
  | @plain id t e oe hpc hplain =>
    rw [plainEvents_map]
    refine hmono.step (emulStep_move hplain) fun id => emulStep_kept hplain (fun j t' hi => ?_) id
    cases hi
    exact hpc
  | errCount =>
    rw [show plainEvents [SeedEvent.errCount s.devs.err] = [] from rfl, List.append_nil]
    exact hmono

/-- The packets that `id` has passed to `wl_sendPacketTimeout`. -/
def passedSeeded (id : ConnId) (is : List SeedInput) : List PackData := passed id (is.filterMap SeedInput.asked)

theorem passed_asked (id : ConnId) (js : List WlInput) : passed id (js.filterMap WlInput.asked) = passed id js := by
  rw [passed, passed, List.filterMap_filterMap]
  refine List.filterMap_congr fun j _ => ?_
  cases j <;> rfl

/-- A packet that a receive returns is one that this run has passed to a send, as its flight has left it. -/
theorem seedRun_returned {g : WlSeeded} {is : List SeedInput} (hr : run (seedStep env) (seedStart g) is = some (s, os))
    {id : ConnId} {n : Nat} {d' : PackData} (h : .emul (.returned id n d') ∈ os) :
    ∃ d, (passedSeeded id is)[n]? = some d ∧ Flown os id n d d' := by
  obtain ⟨js, hask, hplain⟩ := seedRun_plain hr
  have hmem : (n, d') ∈ returns id (plainEvents os) := by
    refine List.mem_filterMap.mpr ⟨.returned id n d', List.mem_filterMap.mpr ⟨_, h, rfl⟩, ?_⟩
    simp
  obtain ⟨d, hd, hflown⟩ := ((seedRun_accounts hr).lane id).returned n d' hmem
  refine ⟨d, ?_, hflown⟩
  rw [passedSeeded, ← hask, passed_asked, emulRun_passed hplain id]
  exact List.getElem?_append_left (List.getElem?_eq_some_iff.mp hd).1 ▸ hd

end LoraBridge.Seeded
