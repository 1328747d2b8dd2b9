import LoraBridge.Queues

/-!
# Failed receives are invisible

A receive that fails rotates the receive pool and leaves foreign bytes in a free pack. A run into which loop iterations
with failed receives are put, at loop heads with both queues empty, is observed as before: the same packets, the same
changes of the LLC state, the same `trans_id`, `retries_num` and owned counters (`failed_receives_invisible`). The
stations behind the two loops are equal, up to the start of the master's timer.
-/

set_option autoImplicit false

namespace LoraBridge

open ListHead Transducer

variable {σ : Type}

/-- What an observer sees of a loop. -/
structure Seen (σ : Type) where
  llcState : σ
  transId : Byte
  retriesNum : Byte
  llcSendOwnedCounter : BitVec 8
  llcRecvOwnedCounter : BitVec 8
  deriving DecidableEq

def Loop.seen (l : Loop σ) : Seen σ :=
  ⟨l.llcState, l.tsm.transId, l.tsm.retriesNum, l.tsm.llcSendOwnedCounter, l.tsm.llcRecvOwnedCounter⟩

/-- Inputs that differ in the reading of the clock only. -/
def Input.Alike : Input → Input → Prop
  | .pass _, .pass _ => True
  | i, j => i = j

theorem Input.Alike.refl (i : Input) : i.Alike i := by
  cases i with
  | pass => trivial
  | _ => rfl

theorem Input.Alike.eq_or_pass {i j : Input} (h : i.Alike j) : i = j ∨ ∃ now now', i = .pass now ∧ j = .pass now' := by
  cases i with
  | pass now =>
    cases j with
    | pass now' => exact Or.inr ⟨now, now', rfl, rfl⟩
    | _ => exact Or.inl h
  | _ => exact Or.inl h

/-- The timer, where a pass of the master reads it, answers the same. -/
def SameAnswer (l : Loop LlcStateM) (i : Input) (l' : Loop LlcStateM) (j : Input) : Prop :=
  ∀ now now', i = .pass now → j = .pass now' → l.llcState = .sendAll → stkLlcHasReceivedPack l.tsm = false →
    ttTimerIsTimeouted l.tsm.llcTimer now = ttTimerIsTimeouted l'.tsm.llcTimer now'

/-- A loop iteration whose receive fails, from a loop head with both queues empty. -/
structure FailedReceive (st : σ) (l : Loop σ) (now : Timeval) (ks : List Input) : Prop where
  head : l.pc = .llc none
  state : l.llcState = st
  sendEmpty : stkMacHasPackToSend l.tsm = false
  recvEmpty : stkLlcHasReceivedPack l.tsm = false
  inputs : ∃ res, (Input.received res).packet = none ∧ ks = [.pass now, .call, .received res]

def SIdle (l : Loop LlcStateS) (ks : List Input) : Prop := ∃ now, FailedReceive .idle l now ks

def MIdle (l : Loop LlcStateM) (ks : List Input) : Prop :=
  ∃ now, FailedReceive .sendAll l now ks ∧ ttTimerIsTimeouted l.tsm.llcTimer now = false

/-! ## What is seen is the station's -/

theorem Rel.seen {c : Lists} {l : Loop σ} {a : Station σ} (h : Rel c l a) : l.seen =
    ⟨a.st, a.transId, a.retriesNum, BitVec.ofNat 8 a.resend.toList.length,
      BitVec.ofNat 8 (a.recv.toList.length + if a.place = .receiving then 1 else 0)⟩ := by
  have hresend := congrArg List.length h.resend
  have hrecv := congrArg List.length h.recv
  have hholder : l.pc.holder.length = if a.place = .receiving then 1 else 0 := by
    rw [← h.place]
    cases l.pc <;> rfl
  rw [List.length_map] at hresend hrecv
  rw [Loop.seen, h.st, h.transId, h.retriesNum, h.sendCounter, h.recvCounter, h.recvOwned, hresend, List.length_append,
    hrecv, hholder]

/-- A failed receive leaves a station whose queues are empty as it was, when its pass does nothing. -/
theorem station_failedReceive [DecidableEq σ] {pass : Station σ → Timeval → Option (Station σ)} {a : Station σ}
    {now : Timeval} {res : Option PackData} (hplace : a.place = .llc) (hlast : a.last = none) (hsend : a.send = none)
    (hrecv : a.recv = none) (hpass : pass a now = some a) (hres : (Input.received res).packet = none) :
    run (stationStep pass) a [.pass now, .call, .received res] = some (a, []) := by
  obtain ⟨id, macRecvTimeout, st, place, transId, testTransId, retriesNum, recv, last, resend, send, echo, llcTimer,
    stderr⟩ := a
  subst hplace hlast hsend hrecv
  simp [run, stationStep, hpass, stationPassDone, stationCall, stationReceived, hres]

theorem Rel.last_of_head {c : Lists} {l : Loop σ} {a : Station σ} (h : Rel c l a) (hpc : l.pc = .llc none) :
    a.place = .llc ∧ a.last = none := by
  refine ⟨by rw [← h.place, hpc]; rfl, ?_⟩
  cases hlast : a.last with
  | none => rfl
  | some d =>
    obtain ⟨p, hp, -⟩ := h.last d hlast
    rw [hpc] at hp
    cases hp

/-- The station at a loop head with both queues empty. -/
theorem FailedReceive.station {c : Lists} {l : Loop σ} {a : Station σ} {st : σ} {now : Timeval} {ks : List Input}
    (hf : FailedReceive st l now ks) (h : Rel c l a) :
    a.place = .llc ∧ a.last = none ∧ a.st = st ∧ a.send = none ∧ a.recv = none := by
  obtain ⟨hplace, hlast⟩ := h.last_of_head hf.head
  refine ⟨hplace, hlast, h.st.symm.trans hf.state, ?_, ?_⟩
  · simpa [h.hasPackToSend] using hf.sendEmpty
  · simpa [h.hasReceivedPack] using hf.recvEmpty

/-! ## The slave -/

/-- Two loops with one station. -/
def SPair (l l' : Loop LlcStateS) : Prop := ∃ a, SRel l a ∧ SRel l' a

theorem SPair.seen {l l' : Loop LlcStateS} (h : SPair l l') : l.seen = l'.seen := by
  obtain ⟨a, ⟨⟨c, hc⟩, -⟩, ⟨⟨c', hc'⟩, -⟩⟩ := h
  rw [hc.seen, hc'.seen]

/-- The slave reads no clock. -/
theorem sStation_alike {a : Station LlcStateS} {i j : Input} (h : i.Alike j) : sStation a i = sStation a j := by
  rcases h.eq_or_pass with rfl | ⟨now, now', rfl, rfl⟩ <;> rfl

theorem SPair.step {l l' l₁ l₁' : Loop LlcStateS} {i j : Input} {o o' : List (Event LlcStateS)} (h : SPair l l')
    (hij : i.Alike j) (hs : sStep l i = some (l₁, o)) (hs' : sStep l' j = some (l₁', o')) : o = o' ∧ SPair l₁ l₁' := by
  obtain ⟨a, hrel, hrel'⟩ := h
  obtain ⟨a₁, ha, hrel₁⟩ := (hrel.step i).of_some hs
  obtain ⟨a₁', ha', hrel₁'⟩ := (hrel'.step j).of_some hs'
  rw [← sStation_alike hij, ha] at ha'
  cases ha'
  exact ⟨rfl, a₁, hrel₁, hrel₁'⟩

theorem SPair.idle {l l' l₁' : Loop LlcStateS} {ks : List Input} {o : List (Event LlcStateS)} (h : SPair l l')
    (hi : SIdle l' ks) (hr : run sStep l' ks = some (l₁', o)) : o = [] ∧ SPair l l₁' := by
  obtain ⟨a, hrel, hrel'⟩ := h
  obtain ⟨now, hf⟩ := hi
  obtain ⟨c, hc⟩ := hrel'.rel
  obtain ⟨hplace, hlast, hst, hsend, hrecv⟩ := hf.station hc
  obtain ⟨res, hres, rfl⟩ := hf.inputs
  obtain ⟨a', ha', hrel₁⟩ := (hrel'.lockstep _).of_some hr
  have hpass : sStationPass a = some a := by simp only [sStationPass, hst, hrecv]
  have hsame : run sStation a [.pass now, .call, .received res] = some (a, []) :=
    station_failedReceive hplace hlast hsend hrecv hpass hres
  cases hsame.symm.trans ha'
  exact ⟨rfl, a, hrel, hrel₁⟩

/-! ## The master -/

/-- Two loops with one station, but for the start of the timer. -/
def MPair (l l' : Loop LlcStateM) : Prop := ∃ a timer, MRel l a ∧ MRel l' { a with llcTimer := timer }

theorem MPair.seen {l l' : Loop LlcStateM} (h : MPair l l') : l.seen = l'.seen := by
  obtain ⟨a, timer, ⟨⟨c, hc⟩, -⟩, ⟨⟨c', hc'⟩, -⟩⟩ := h
  rw [hc.seen, hc'.seen]

theorem stationPassDone_timer (a a' : Station LlcStateM) (timer timer' : TtTimer) :
    stationPassDone { a with llcTimer := timer } { a' with llcTimer := timer' } =
      ({ (stationPassDone a a').1 with llcTimer := timer' }, (stationPassDone a a').2) := by
  unfold stationPassDone
  by_cases h : a'.st ≠ a.st
  · rw [if_pos h, if_pos h]
  · rw [if_neg h, if_neg h]

theorem stationCall_timer (a : Station σ) (timer : TtTimer) : stationCall { a with llcTimer := timer } =
    ({ (stationCall a).1 with llcTimer := timer }, (stationCall a).2) := by
  unfold stationCall
  cases a.send <;> rfl

/-- A pass looks at the timer only where `SameAnswer` speaks of it. -/
theorem mStationPass_timer {a a' : Station LlcStateM} {timer : TtTimer} {now now' : Timeval}
    (hanswer : a.st = .sendAll → a.recv = none → ttTimerIsTimeouted a.llcTimer now = ttTimerIsTimeouted timer now')
    (hs : mStationPass a now = some a') :
    ∃ timer', mStationPass { a with llcTimer := timer } now' = some { a' with llcTimer := timer' } := by
  obtain ⟨id, macRecvTimeout, st, place, transId, testTransId, retriesNum, recv, last, resend, send, echo, llcTimer,
    stderr⟩ := a
  cases st with
  | idle =>
    cases hs
    exact ⟨ttTimerStart now' llcTimeoutMs, rfl⟩
  | sendAll =>
    cases recv with
    | some d =>
      cases hs
      exact ⟨timer, by simp [mStationPass, Station.check]; split <;> split <;> simp_all⟩
    | none =>
      have hsame : ttTimerIsTimeouted llcTimer now = ttTimerIsTimeouted timer now' := hanswer rfl rfl
      simp only [mStationPass, hsame] at hs ⊢
      split_ifs at hs ⊢ with hexp
      · cases hs
        exact ⟨timer, rfl⟩
      · cases hs
        exact ⟨timer, rfl⟩
  | receivedAll =>
    cases hs
    exact ⟨timer, by simp [mStationPass, Station.check]; split <;> simp_all⟩
  | resend =>
    cases resend with
    | none => cases hs
    | some d =>
      cases hs
      exact ⟨ttTimerStart now' llcTimeoutMs, rfl⟩

theorem mStation_alike {a a₁ : Station LlcStateM} {timer : TtTimer} {i j : Input} {o : List (Event LlcStateM)}
    (hij : i.Alike j) (hanswer : ∀ now now', i = .pass now → j = .pass now' → a.st = .sendAll → a.recv = none →
      ttTimerIsTimeouted a.llcTimer now = ttTimerIsTimeouted timer now')
    (hs : mStation a i = some (a₁, o)) :
    ∃ timer₁, mStation { a with llcTimer := timer } j = some ({ a₁ with llcTimer := timer₁ }, o) := by
  have hpass : ∀ now now', i = .pass now → j = .pass now' →
      ∃ timer₁, mStation { a with llcTimer := timer } j = some ({ a₁ with llcTimer := timer₁ }, o) := by
    rintro now now' rfl rfl
    simp only [mStation, stationStep] at hs ⊢
    split_ifs at hs ⊢ with hp
    obtain ⟨a', ha', hdone⟩ := Option.map_eq_some_iff.mp hs
    obtain ⟨timer', hpass⟩ := mStationPass_timer (hanswer now now' rfl rfl) ha'
    refine ⟨timer', ?_⟩
    rw [hpass, Option.map_some, stationPassDone_timer, hdone]
  rcases hij.eq_or_pass with rfl | ⟨now, now', hi, hj⟩
  · cases i with
    | pass now => exact hpass now now rfl rfl
    | call =>
      simp only [mStation, stationStep] at hs ⊢
      split_ifs at hs ⊢ with hp
      rw [Option.some.injEq] at hs
      exact ⟨timer, by rw [stationCall_timer, hs]⟩
    | sent =>
      simp only [mStation, stationStep, stationSent] at hs ⊢
      split_ifs at hs ⊢ with hp
      cases hs
      exact ⟨timer, rfl⟩
    | received res =>
      simp only [mStation, stationStep, stationReceived] at hs ⊢
      split_ifs at hs ⊢ with hp
      cases hs
      exact ⟨timer, rfl⟩
  · exact hpass now now' hi hj

theorem MPair.step {l l' l₁ l₁' : Loop LlcStateM} {i j : Input} {o o' : List (Event LlcStateM)} (h : MPair l l')
    (hpatient : TimerPatient l i) (hij : i.Alike j) (hanswer : SameAnswer l i l' j) (hs : mStep l i = some (l₁, o))
    (hs' : mStep l' j = some (l₁', o')) : o = o' ∧ MPair l₁ l₁' := by
  obtain ⟨a, timer, hrel, hrel'⟩ := h
  obtain ⟨c, hc⟩ := hrel.rel
  obtain ⟨c', hc'⟩ := hrel'.rel
  have hpatient' : TimerPatient l' j := by
    cases j with
    | pass now' =>
      rcases hij.eq_or_pass with rfl | ⟨now, -, rfl, -⟩
      all_goals
        intro hst hrecv hexp
        have hst₁ : l.llcState = .sendAll := hc.st.trans (hc'.st.symm.trans hst)
        have hrecv₁ : stkLlcHasReceivedPack l.tsm = false := by
          rw [hc.hasReceivedPack]
          rwa [hc'.hasReceivedPack] at hrecv
        have hexp₁ := (hanswer _ _ rfl rfl hst₁ hrecv₁).trans hexp
        have hsend := hpatient hst₁ hrecv₁ hexp₁
        rw [hc.hasPackToSend] at hsend
        rw [hc'.hasPackToSend]
        exact hsend
    | _ => trivial
  obtain ⟨a₁, ha, hrel₁⟩ := (hrel.step hpatient).of_some hs
  obtain ⟨a₁', ha', hrel₁'⟩ := (hrel'.step hpatient').of_some hs'
  have hstation : ∀ now now', i = .pass now → j = .pass now' → a.st = .sendAll → a.recv = none →
      ttTimerIsTimeouted a.llcTimer now = ttTimerIsTimeouted timer now' := by
    intro now now' hi hj hst hrecv
    have hsame := hanswer now now' hi hj (hc.st.trans hst) (by rw [hc.hasReceivedPack, hrecv]; rfl)
    rwa [hc.llcTimer, hc'.llcTimer] at hsame
  obtain ⟨timer₁, hmatch⟩ := mStation_alike hij hstation ha
  cases hmatch.symm.trans ha'
  exact ⟨rfl, a₁, timer₁, hrel₁, hrel₁'⟩

theorem MPair.idle {l l' l₁' : Loop LlcStateM} {ks : List Input} {o : List (Event LlcStateM)} (h : MPair l l')
    (hi : MIdle l' ks) (hr : run mStep l' ks = some (l₁', o)) : o = [] ∧ MPair l l₁' := by
  obtain ⟨a, timer, hrel, hrel'⟩ := h
  obtain ⟨now, hf, hexp⟩ := hi
  obtain ⟨c', hc'⟩ := hrel'.rel
  obtain ⟨hplace, hlast, hst, hsend, hrecv⟩ := hf.station hc'
  obtain ⟨res, hres, rfl⟩ := hf.inputs
  have hpatient : Along mStep TimerPatient l' [.pass now, .call, .received res] := by
    refine Along.cons (fun _ _ hexp' => ?_) fun l₂ o₂ _ => Along.cons trivial fun l₃ o₃ _ => Along.cons trivial
      fun l₄ o₄ _ => Along.nil
    rw [hexp] at hexp'
    cases hexp'
  obtain ⟨a', ha', hrel₁⟩ := (hrel'.lockstep hpatient).of_some hr
  have hpass : mStationPass { a with llcTimer := timer } now = some { a with llcTimer := timer } := by
    rw [hc'.llcTimer] at hexp
    have hst' : a.st = .sendAll := hst
    have hrecv' : a.recv = none := hrecv
    simp only [mStationPass, hst', hrecv', hexp, Bool.false_eq_true, if_false]
  have hsame : run mStation { a with llcTimer := timer } [.pass now, .call, .received res] =
      some ({ a with llcTimer := timer }, []) := station_failedReceive hplace hlast hsend hrecv hpass hres
  cases hsame.symm.trans ha'
  exact ⟨rfl, a, timer, hrel, hrel₁⟩

/-! ## Runs -/

/-- **Failed receives are invisible.** Two runs of the slave, or of the master while its timer is not read too early,
the second with failed receives put in: they emit the same packets and changes of the LLC state, each with the same
view of the loop after its step, and end with the same view. -/
theorem failed_receives_invisible (t : Tsm) :
    (∃ l₀, sStart t = some l₀ ∧ ∀ is js,
      Padded sStep (fun _ i _ j => i.Alike j) SIdle l₀ is l₀ js →
      ∃ l l' os, run (observed Loop.seen sStep) l₀ is = some (l, os) ∧
        run (observed Loop.seen sStep) l₀ js = some (l', os) ∧ l.seen = l'.seen) ∧
    (∃ l₀, mStart t = some l₀ ∧ ∀ is js, Along mStep TimerPatient l₀ is →
      Padded mStep (fun l i l' j => i.Alike j ∧ SameAnswer l i l' j) MIdle l₀ is l₀ js →
      ∃ l l' os, run (observed Loop.seen mStep) l₀ is = some (l, os) ∧
        run (observed Loop.seen mStep) l₀ js = some (l', os) ∧ l.seen = l'.seen) := by
  constructor
  · obtain ⟨l₀, h₀, hrel⟩ := sStart_rel t
    refine ⟨l₀, h₀, fun is js hpad => ?_⟩
    obtain ⟨l, l', os, hr, hr', hpair⟩ := hpad.observed Loop.seen (C := fun _ _ => True) (R := SPair)
      (fun s t i j s' t' o o' hR _ hij hs ht => hR.step hij hs ht) (fun s t ks t' o hR hi hr => hR.idle hi hr)
      (fun s t hR => hR.seen) ⟨_, hrel, hrel⟩ (fun _ _ _ _ _ _ _ => trivial)
    exact ⟨l, l', os, hr, hr', hpair.seen⟩
  · obtain ⟨l₀, h₀, hrel⟩ := mStart_rel t
    refine ⟨l₀, h₀, fun is js hpatient hpad => ?_⟩
    obtain ⟨l, l', os, hr, hr', hpair⟩ := hpad.observed Loop.seen (C := TimerPatient) (R := MPair)
      (fun s t i j s' t' o o' hR hi hij hs ht => hR.step hi hij.1 hij.2 hs ht)
      (fun s t ks t' o hR hi hr => hR.idle hi hr) (fun s t hR => hR.seen) ⟨_, _, hrel, hrel⟩ hpatient
    exact ⟨l, l', os, hr, hr', hpair.seen⟩

/-- A receive that fails, and one that brings a request. -/
def failedInputs : List Input := [.pass ⟨0, 0⟩, .call, .received none]

def requestInputs : List Input := [.pass ⟨0, 0⟩, .call, .received (some (singleFrame 1)), .pass ⟨0, 0⟩]

/-- The master's first transmission. -/
def sendInputs : List Input := [.pass ⟨0, 0⟩, .pass ⟨0, 0⟩, .call, .sent]

theorem failed_receives_invisible_once :
    (∃ l₀ l l' os, sStart Tsm.zeroed = some l₀ ∧ run (observed Loop.seen sStep) l₀ requestInputs = some (l, os) ∧
      run (observed Loop.seen sStep) l₀ (failedInputs ++ requestInputs) = some (l', os)) ∧
    (∃ l₀ l l' os, mStart Tsm.zeroed = some l₀ ∧ run (observed Loop.seen mStep) l₀ (sendInputs ++ []) = some (l, os) ∧
      run (observed Loop.seen mStep) l₀ (sendInputs ++ (failedInputs ++ [])) = some (l', os)) := by
  obtain ⟨⟨l₀, h₀, hs⟩, l₁, h₁, hm⟩ := failed_receives_invisible Tsm.zeroed
  constructor
  · have heval : (sStart Tsm.zeroed).bind (fun l₀ => (run sStep l₀ failedInputs).bind fun r =>
        (run sStep r.1 requestInputs).bind fun _ => (run sStep l₀ requestInputs).map fun _ =>
          (l₀.pc, l₀.llcState, stkMacHasPackToSend l₀.tsm, stkLlcHasReceivedPack l₀.tsm)) =
        some (.llc none, .idle, false, false) := by decide +kernel
    obtain ⟨l, hl, hrun⟩ := Option.bind_eq_some_iff.mp heval
    cases h₀.symm.trans hl
    obtain ⟨⟨l', o'⟩, hfail, hrun⟩ := Option.bind_eq_some_iff.mp hrun
    obtain ⟨⟨l₂, o₂⟩, hreq, hrun⟩ := Option.bind_eq_some_iff.mp hrun
    obtain ⟨⟨l₃, o₃⟩, hplain, hfacts⟩ := Option.map_eq_some_iff.mp hrun
    simp only [Prod.mk.injEq] at hfacts
    obtain ⟨hpc, hst, hsend, hrecv⟩ := hfacts
    have hidle : SIdle l₀ failedInputs := ⟨⟨0, 0⟩, hpc, hst, hsend, hrecv, none, rfl, rfl⟩
    obtain ⟨l, l', os, hr, hr', -⟩ :=
      hs _ _ (.idle hidle hfail (.same (fun _ _ i => Input.Alike.refl i) hplain hreq))
    exact ⟨l₀, l, l', os, h₀, hr, hr'⟩
  · have heval : (mStart Tsm.zeroed).bind (fun l₀ => (run mStep l₀ sendInputs).bind fun r =>
        (run mStep r.1 failedInputs).map fun _ =>
          (checkAlong mStep (fun l i => decide (TimerPatient l i)) l₀ (sendInputs ++ []),
            r.1.pc, r.1.llcState, stkMacHasPackToSend r.1.tsm, stkLlcHasReceivedPack r.1.tsm,
            ttTimerIsTimeouted r.1.tsm.llcTimer ⟨0, 0⟩)) =
        some (true, .llc none, .sendAll, false, false, false) := by decide +kernel
    obtain ⟨l, hl, hrun⟩ := Option.bind_eq_some_iff.mp heval
    cases h₁.symm.trans hl
    obtain ⟨⟨l', o'⟩, hsent, hrun⟩ := Option.bind_eq_some_iff.mp hrun
    obtain ⟨⟨l₂, o₂⟩, hfail, hfacts⟩ := Option.map_eq_some_iff.mp hrun
    simp only [Prod.mk.injEq] at hfacts
    obtain ⟨hpatient, hpc, hst, hsend, hrecv, hexp⟩ := hfacts
    have hidle : MIdle l' failedInputs := ⟨⟨0, 0⟩, ⟨hpc, hst, hsend, hrecv, none, rfl, rfl⟩, hexp⟩
    have hrefl : ∀ (s : Loop LlcStateM) (i : Input), i.Alike i ∧ SameAnswer s i s i := by
      refine fun s i => ⟨Input.Alike.refl i, fun now now' hi hi' _ _ => ?_⟩
      cases hi.symm.trans hi'
      rfl
    obtain ⟨l, l', os, hr, hr', -⟩ := hm _ _ (along_of_check hpatient)
      (.prepend hrefl hsent (.idle hidle hfail .nil))
    exact ⟨l₁, l, l', os, h₁, hr, hr'⟩

end LoraBridge
