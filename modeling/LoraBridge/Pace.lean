import LoraBridge.Clocked
import LoraBridge.Collision
import LoraBridge.Discipline

/-!
# The stack against a clock

Who takes a step of the system, which clock readings it carries, and for how long the thread sleeps after it
(`systemTiming`): the time on air after a packet has been put, the granularity after an unsuccessful look for data. The
steps of the emulator in a run without errors are listed once more with what they do to the buffers (`CalmTick`), and
each is charged against the time that its call may still take (`CalmTick.sendRest`, `CalmTick.recvRest`).
-/

set_option autoImplicit false

namespace LoraBridge

open Transducer

instance : Fintype ConnId := ⟨{.id0, .id1}, fun id => by cases id <;> decide⟩

/-! ## Sleeping -/

/-- The time on air of a packet, in microseconds. -/
def airTime : Int := 100000

/-- The time between two looks for data. -/
def pollTime : Int := 10000

/-- `nanosleep` after the step of a call that begins here. -/
def WlPc.sleep : WlPc → Int
  | .sendPut _ timeout => if timeout ≠ 0 then airTime else 0
  | .dataCheck w false => if w.timeout ≠ 0 then pollTime else 0
  | _ => 0

def SystemInput.side : SystemInput → ConnId
  | .master _ => .id0
  | .slave _ => .id1
  | .tick id _ => id

/-- What the step reads off the clock. The slave never does outside its calls. -/
def SystemInput.readings : SystemInput → List Timeval
  | .master (.pass now) => [now]
  | .tick _ t => [t.now₀, t.now₁]
  | _ => []

def systemTiming : Timing System SystemInput ConnId where
  actor := SystemInput.side
  reads i lo hi := i.readings.all fun r => r.Normal ∧ lo ≤ r.micros ∧ r.micros ≤ hi
  sleep n i :=
    match i with
    | .tick id _ => (n.emul.pc id).sleep
    | _ => 0

/-- The two threads, started at `time`; the master sleeps before its loop, in `thread_fn_0` for a second. -/
def clockedStart (n : System) (time delay : Int) : Clocked System ConnId where
  state := n
  clock := time
  wake
    | .id0 => time + delay
    | .id1 => time

/-- These are the values of the source. -/
theorem airTime_eq : airTime = wlTimeOnAir.micros ∧ airTime = 1000 * configWlStdTimeOnAirMs.toNat ∧
    pollTime = 1000 * configWlSleepGranularity.toNat := by decide

theorem WlPc.sleep_nonneg (pc : WlPc) : 0 ≤ pc.sleep := by
  unfold WlPc.sleep airTime pollTime
  split
  · split_ifs <;> omega
  · split_ifs <;> omega
  · exact le_refl _

theorem WlPc.sleep_le (pc : WlPc) : pc.sleep ≤ pollTime ∨ ∃ payload timeout, pc = .sendPut payload timeout := by
  have hpoll : (0 : Int) ≤ pollTime := by decide
  cases pc with
  | sendPut payload timeout => exact Or.inr ⟨payload, timeout, rfl⟩
  | dataCheck w ret =>
    refine Or.inl ?_
    cases ret
    · unfold WlPc.sleep
      dsimp only
      split_ifs <;> omega
    · exact hpoll
  | _ => exact Or.inl hpoll

theorem systemTiming_sleep_nonneg (n : System) (i : SystemInput) : 0 ≤ systemTiming.sleep n i := by
  cases i with
  | tick id t => exact WlPc.sleep_nonneg _
  | _ => exact le_refl _

theorem reads_iff {i : SystemInput} {lo hi : Int} : systemTiming.reads i lo hi = true ↔
    ∀ r ∈ i.readings, r.Normal ∧ lo ≤ r.micros ∧ r.micros ≤ hi := by
  simp [systemTiming]

theorem airDone_micros {sendTime now : Timeval} (hsent : sendTime.Normal) (hnow : now.Normal) :
    wlAirDone sendTime now = true ↔ sendTime.micros + airTime ≤ now.micros :=
  timeradd_ofMillis_le 100 hsent hnow

/-! ## The buffers -/

variable {cfg : WlConfig} {id j src : ConnId} {g g' : WlEmulGlobal} {o : List WlEvent} {e e' : Emul} {t : WlTick}
  {now : Timeval}

/-- What `wl_shadow_worker` does: what is done leaves the air, and may arrive. -/
structure Worked (t : WlTick) (g g' : WlEmulGlobal) : Prop where
  done : ∀ j, (g.dev j).outputBuff.isSend = false → wlAirDone (g.dev j).outputBuff.sendTime (t.now j) = true →
    (g'.dev j).outputBuff.isSend = true
  same : ∀ j, (g.dev j).outputBuff.isSend = true ∨ wlAirDone (g.dev j).outputBuff.sendTime (t.now j) = false →
    (g'.dev j).outputBuff = (g.dev j).outputBuff
  filled : ∀ j, (g'.dev j).inputBuff.isRecieved = true → (g.dev j).inputBuff.isRecieved = true ∨
    (g.dev j.other).outputBuff.isSend = false ∧ wlAirDone (g.dev j.other).outputBuff.sendTime (t.now j.other) = true

theorem WlArrive.filled (h : WlArrive cfg now src g g' o) (hfull : (g'.dev j).inputBuff.isRecieved = true) :
    (g.dev j).inputBuff.isRecieved = true ∨ j = src.other ∧ (g.dev src).outputBuff.isSend = false ∧
      wlAirDone (g.dev src).outputBuff.sendTime now = true := by
  cases h with
  | none | flying => exact Or.inl hfull
  | lost => exact Or.inl (by simpa using hfull)
  | dropped => exact Or.inl (by simpa using hfull)
  | delivered hsend hair hbreak hempty =>
    by_cases hj : j = src.other
    · exact Or.inr ⟨hj, hsend, hair⟩
    · rw [setIn_inp_of_ne _ _ _ hj, setOut_inp] at hfull
      exact Or.inl hfull

theorem wlShadowWorker_worked (h : wlShadowWorker cfg t g = some (g', o)) : Worked t g g' := by
  refine ⟨fun j hsend hair => ((wlShadowWorker_out h j).2.1 hsend hair).1, fun j => (wlShadowWorker_out h j).2.2, ?_⟩
  obtain ⟨g₀, g₁, o₀, o₁, h₀, h₁, rfl, -⟩ := wlShadowWorker_arrive h
  intro j hfull
  rw [(chanelCheck_keeps g₁).2.2] at hfull
  rcases h₁.filled hfull with hfull | ⟨rfl, hsend, hair⟩
  · rcases h₀.filled hfull with hfull | ⟨rfl, hsend, hair⟩
    · exact Or.inl hfull
    · exact Or.inr ⟨hsend, hair⟩
  · rw [h₀.out_of_ne (j := .id1) (by decide)] at hsend hair
    exact Or.inr ⟨hsend, hair⟩

/-! ## The steps of a calm emulator -/

/-- A step of a side in a call of a loop, from place to place, and what the call returns. -/
inductive CalmTick (id : ConnId) (t : WlTick) (g : WlEmulGlobal) : WlEmulGlobal → WlPc → WlPc → Option WlRet → Prop
  | sendBegin {payload : PackData} {timeout : BitVec 32} {g' : WlEmulGlobal} : Worked t g g' →
      CalmTick id t g g' (.sendBegin payload timeout) (.sendTest payload timeout) none
  | sendTest {payload : PackData} {timeout : BitVec 32} :
      CalmTick id t g g (.sendTest payload timeout) (.sendPut payload timeout) none
  | sendPut {payload : PackData} {timeout : BitVec 32} :
      CalmTick id t g (g.put id payload t.now₀) (.sendPut payload timeout)
        (if timeout ≠ 0 then .sendFlush else .sendCheck) none
  | sendFlush {g' : WlEmulGlobal} : Worked t g g' → CalmTick id t g g' .sendFlush .sendCheck none
  | sendCheck : CalmTick id t g g .sendCheck .out (some .send)
  | recvBegin {timeout : BitVec 32} {g' : WlEmulGlobal} : Worked t g g' →
      CalmTick id t g g' (.recvBegin timeout) (.dataWorker ⟨true, timeout, 0⟩) none
  | dataWorker {w : WlWait} {g' : WlEmulGlobal} : Worked t g g' →
      CalmTick id t g g' (.dataWorker w) (.dataRead w) none
  | dataRead {w : WlWait} : CalmTick id t g g (.dataRead w) (.dataCheck w (g.dev id).inputBuff.isRecieved) none
  | ready {w : WlWait} : CalmTick id t g g (.dataCheck w true) .recvCopy none
  | again {w : WlWait} : w.timeout ≠ 0 → w.timeout > w.timeSleep + configWlSleepGranularity →
      CalmTick id t g g (.dataCheck w false)
        (.dataWorker { w with timeSleep := w.timeSleep + configWlSleepGranularity }) none
  | expired {w : WlWait} : w.timeout ≠ 0 → ¬w.timeout > w.timeSleep + configWlSleepGranularity →
      CalmTick id t g g (.dataCheck w false) .out (some (.recv none))
  | recvCopy : CalmTick id t g (g.take id) .recvCopy (.recvCheck (packOfData (g.dev id).inputBuff.recvData)) none
  | recvCheck {data : PackData} : CalmTick id t g g (.recvCheck data) .out (some (.recv (some data)))

theorem WlMove.calm_tick (h : WlMove cfg e (.tick id t) e' o) (hc : Calm e) (hone : e.flight ≤ 1)
    (hin : (e.pc id).sends = true ∨ (e.pc id).receives = true) {ret : ConnId → Option WlRet} (hnone : ret id = none) :
    CalmTick id t e.devs e'.devs (e.pc id) (e'.pc id) (setReturned ret o id) := by
  have hlanes : e.devs.lane .id0 + e.devs.lane .id1 ≤ 1 := by
    rw [Emul.flight] at hone
    omega
  have htimely := hc.timely id
  cases h with
  | @work _ _ pc g o hpc hw =>
    have hworked := wlShadowWorker_worked hw
    rw [setReturned_silent ret (returned_ofWorker (wlShadowWorker_ofWorker hw)), hnone, goto_pc]
    cases hfrom : e.pc id <;> rw [hfrom] at hpc <;> cases hpc
    · exact .sendBegin hworked
    · exact .sendFlush hworked
    · exact .recvBegin hworked
    · exact .dataWorker hworked
  | @check _ _ pc r hpc =>
    rw [chanelCheck_lane e.devs hlanes, List.nil_append, setReturned_checked ret id r hnone, Function.update_self,
      goto_pc]
    cases hfrom : e.pc id with
    | sendCheck =>
      rw [hfrom] at hpc
      cases hpc
      exact .sendCheck
    | recvCheck data =>
      rw [hfrom] at hpc
      cases hpc
      exact .recvCheck
    | dataCheck w got =>
      obtain ⟨recv, timeout, timeSleep⟩ := w
      rw [hfrom] at hpc hin htimely
      obtain rfl : recv = true := hin.resolve_left Bool.false_ne_true
      have hwait : timeout ≠ 0 := of_decide_eq_true htimely
      simp only [WlPc.checked, wlWaitNext, hwait, if_true, if_false, Option.some.injEq] at hpc
      split_ifs at hpc with hgot hmore <;> cases hpc
      · rw [hgot]
        exact .ready
      · rw [Bool.eq_false_iff.mpr hgot]
        exact .again hwait hmore
      · rw [Bool.eq_false_iff.mpr hgot]
        exact .expired hwait hmore
    | _ =>
      rw [hfrom] at hpc
      cases hpc
  | @test _ _ payload timeout hpc =>
    rw [if_pos (sent_of_carried hone (by rw [hpc]; rfl)), goto_pc, hpc, setReturned_silent ret rfl, hnone]
    exact .sendTest
  | @busy _ _ payload timeout hpc =>
    rw [hpc] at htimely
    cases htimely
  | @put _ _ payload timeout hpc =>
    rw [if_pos (sent_of_carried hone (by rw [hpc]; rfl)), goto_pc, hpc, setReturned_silent ret rfl, hnone]
    exact .sendPut
  | @read _ _ w hpc =>
    rw [goto_pc, hpc, setReturned_silent ret rfl, hnone]
    exact .dataRead
  | @empty _ _ hpc =>
    rw [hpc] at htimely
    cases htimely
  | @copy _ _ hpc =>
    rw [goto_pc, hpc, setReturned_silent ret rfl, hnone]
    exact .recvCopy

section Buffers

variable {pc pc' : WlPc} {ret : Option WlRet}

/-- What is in the air was there before, and is not done by the clock of a step that looks; or it has just been put. -/
theorem CalmTick.flying (h : CalmTick id t g g' pc pc' ret) (hair : (g'.dev j).outputBuff.isSend = false) :
    (g'.dev j).outputBuff = (g.dev j).outputBuff ∧
        (pc.worked.isSome = true → wlAirDone (g.dev j).outputBuff.sendTime (t.now j) = false) ∨
      j = id ∧ (∃ payload timeout, pc = .sendPut payload timeout) ∧ (g'.dev j).outputBuff.sendTime = t.now₀ := by
  have hlook : Worked t g g' → (g'.dev j).outputBuff = (g.dev j).outputBuff ∧
      (pc.worked.isSome = true → wlAirDone (g.dev j).outputBuff.sendTime (t.now j) = false) := by
    intro hw
    cases hsend : (g.dev j).outputBuff.isSend with
    | true =>
      rw [hw.same j (Or.inl hsend), hsend] at hair
      cases hair
    | false =>
      cases hdone : wlAirDone (g.dev j).outputBuff.sendTime (t.now j) with
      | true =>
        rw [hw.done j hsend hdone] at hair
        cases hair
      | false => exact ⟨hw.same j (Or.inr hdone), fun _ => rfl⟩
  cases h with
  | sendBegin hw | sendFlush hw | recvBegin hw | dataWorker hw => exact Or.inl (hlook hw)
  | @sendPut payload timeout =>
    by_cases hj : j = id
    · subst hj
      exact Or.inr ⟨rfl, ⟨payload, timeout, rfl⟩, by simp [WlEmulGlobal.put]⟩
    · refine Or.inl ⟨?_, fun hlooks => by cases hlooks⟩
      simp [WlEmulGlobal.put, setOut_out_of_ne _ _ _ hj]
  | recvCopy => exact Or.inl ⟨by simp [WlEmulGlobal.take], fun hlooks => by cases hlooks⟩
  | _ => exact Or.inl ⟨rfl, fun hlooks => by cases hlooks⟩

/-- What leaves the air is done. -/
theorem CalmTick.landed (h : CalmTick id t g g' pc pc' ret) (hair : (g.dev j).outputBuff.isSend = false)
    (hsent : (g'.dev j).outputBuff.isSend = true) : wlAirDone (g.dev j).outputBuff.sendTime (t.now j) = true := by
  have hlook : Worked t g g' → wlAirDone (g.dev j).outputBuff.sendTime (t.now j) = true := by
    intro hw
    by_contra hdone
    rw [hw.same j (Or.inr (Bool.eq_false_iff.mpr hdone)), hair] at hsent
    cases hsent
  cases h with
  | sendBegin hw | sendFlush hw | recvBegin hw | dataWorker hw => exact hlook hw
  | sendPut =>
    by_cases hj : j = id
    · subst hj
      simp [WlEmulGlobal.put] at hsent
    · simp [WlEmulGlobal.put, setOut_out_of_ne _ _ _ hj, hair] at hsent
  | recvCopy => simp [WlEmulGlobal.take, hair] at hsent
  | _ =>
    rw [hair] at hsent
    cases hsent

/-- An input buffer is filled from the air. -/
theorem CalmTick.filled (h : CalmTick id t g g' pc pc' ret) (hfull : (g'.dev j).inputBuff.isRecieved = true) :
    (g.dev j).inputBuff.isRecieved = true ∨ (g.dev j.other).outputBuff.isSend = false := by
  cases h with
  | sendBegin hw | sendFlush hw | recvBegin hw | dataWorker hw => exact (hw.filled j hfull).imp_right And.left
  | sendPut => exact Or.inl (by simpa [WlEmulGlobal.put] using hfull)
  | recvCopy =>
    refine Or.inl ?_
    by_cases hj : j = id
    · subst hj
      simp [WlEmulGlobal.take] at hfull
    · simpa [WlEmulGlobal.take, setIn_inp_of_ne _ _ _ hj] using hfull
  | _ => exact Or.inl hfull

/-- What a receive has copied, or returns, was in the input buffer, or had been copied before. -/
theorem CalmTick.here (h : CalmTick id t g g' pc pc' ret)
    (hready : pc = .recvCopy → (g.dev id).inputBuff.isRecieved = true)
    (hnew : (∃ d, pc' = .recvCheck d) ∨ ∃ d, ret = some (.recv (some d))) :
    (g.dev id).inputBuff.isRecieved = true ∨ ∃ d, pc = .recvCheck d := by
  cases h with
  | recvCopy => exact Or.inl (hready rfl)
  | @recvCheck d => exact Or.inr ⟨d, rfl⟩
  | sendPut => split_ifs at hnew <;> simp at hnew
  | _ => simp at hnew

end Buffers

/-! ## What a call may still take -/

/-- The time that a send may take from here until its loop has gone on, when every step comes within `slack`. -/
def WlPc.sendRest (slack : Int) (pc : WlPc) : Int :=
  match pc with
  | .sendBegin _ _ => airTime + 6 * slack
  | .sendTest _ _ => airTime + 5 * slack
  | .sendBusy _ _ => airTime + 4 * slack
  | .sendPut _ _ => airTime + 4 * slack
  | .sendFlush => 3 * slack
  | .sendCheck => 2 * slack
  | .out => slack
  | .recvBegin _ => slack
  | .dataWorker _ => slack
  | .dataRead _ => slack
  | .dataCheck _ _ => slack
  | .recvEmpty => slack
  | .recvCopy => slack
  | .recvCheck _ => slack

/-- The time until a receive has handed over the packet in its input buffer, a call that has run out included. -/
def WlPc.recvRest (slack : Int) (pc : WlPc) (ret : Option WlRet) : Int :=
  match pc with
  | .recvBegin _ => 7 * slack
  | .dataWorker _ => 6 * slack
  | .dataRead _ => 5 * slack
  | .dataCheck _ got => if got then 4 * slack else pollTime + 11 * slack
  | .recvEmpty => slack
  | .recvCopy => 3 * slack
  | .recvCheck _ => 2 * slack
  | .out => if ret = some (.recv none) then 10 * slack else slack
  | .sendBegin _ _ => slack
  | .sendTest _ _ => slack
  | .sendBusy _ _ => slack
  | .sendPut _ _ => slack
  | .sendFlush => slack
  | .sendCheck => slack

variable {pc pc' : WlPc} {ret : Option WlRet} {slack : Int}

theorem WlPc.sendRest_pos (pc : WlPc) (hslack : 0 ≤ slack) : slack ≤ pc.sendRest slack := by
  unfold WlPc.sendRest airTime
  split <;> omega

theorem WlPc.recvRest_pos (pc : WlPc) (ret : Option WlRet) (hslack : 0 ≤ slack) : slack ≤ pc.recvRest slack ret := by
  unfold WlPc.recvRest pollTime
  cases pc with
  | dataCheck w got =>
    dsimp only
    split_ifs <;> omega
  | out =>
    dsimp only
    split_ifs <;> omega
  | _ =>
    dsimp only
    omega

/-- With the packet put. -/
theorem WlPc.sendRest_le {pc : WlPc} (hslack : 0 ≤ slack) (hput : pc.carried = 0) : pc.sendRest slack ≤ 3 * slack := by
  unfold WlPc.sendRest
  split <;> first | omega | cases hput

theorem WlPc.recvRest_le (pc : WlPc) (ret : Option WlRet) (hslack : 0 ≤ slack) :
    pc.recvRest slack ret ≤ pollTime + 11 * slack := by
  unfold WlPc.recvRest pollTime
  cases pc with
  | dataCheck w got =>
    dsimp only
    split_ifs <;> omega
  | out =>
    dsimp only
    split_ifs <;> omega
  | _ =>
    dsimp only
    omega

theorem CalmTick.sendRest (h : CalmTick id t g g' pc pc' ret) (hs : pc.sends = true) (hslack : 0 ≤ slack) :
    pc'.sendRest slack + pc.sleep + slack ≤ pc.sendRest slack := by
  cases h with
  | sendPut =>
    simp only [WlPc.sleep]
    split_ifs
    · simp only [WlPc.sendRest]
      omega
    · simp only [WlPc.sendRest, airTime]
      omega
  | sendBegin | sendTest | sendFlush | sendCheck =>
    simp only [WlPc.sleep, WlPc.sendRest]
    omega
  | _ => cases hs

theorem CalmTick.recvRest (h : CalmTick id t g g' pc pc' ret) (hr : pc.receives = true) (hslack : 0 ≤ slack)
    (hfull : ∀ w, pc = .dataRead w → (g.dev id).inputBuff.isRecieved = true) :
    pc'.recvRest slack ret + pc.sleep + slack ≤ pc.recvRest slack none := by
  cases h with
  | @dataRead w =>
    rw [hfull w rfl]
    simp only [WlPc.sleep, WlPc.recvRest, if_true]
    omega
  | again hwait =>
    simp only [WlPc.sleep, WlPc.recvRest, ne_eq, hwait, not_false_iff, if_true, Bool.false_eq_true, if_false]
    omega
  | expired hwait =>
    simp only [WlPc.sleep, WlPc.recvRest, ne_eq, hwait, not_false_iff, if_true, Bool.false_eq_true, if_false]
    omega
  | recvCheck =>
    simp only [WlPc.sleep, WlPc.recvRest, Option.some.injEq, WlRet.recv.injEq, reduceCtorEq, if_false]
    omega
  | recvBegin | dataWorker | ready | recvCopy =>
    simp only [WlPc.sleep, WlPc.recvRest, if_true]
    omega
  | _ => cases hr

end LoraBridge
