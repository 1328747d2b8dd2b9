import LoraBridge.Simulation

/-!
# Runs of the loops and of the stations

The start and every step are in lockstep, so every run of the slave's loop is a run of its station, and one of the
master's as long as its timer is not read as expired while a pack is in the send queue (`sRun_station`,
`mRun_station`).
-/

set_option autoImplicit false

namespace LoraBridge

open ListHead Transducer

variable {σ : Type} {c : Lists} {l : Loop σ} {a : Station σ}

/-! ## The start -/

/-- The slave's station before its first pass; what the memory held before is `t`. -/
def sStationStart (t : Tsm) : Station LlcStateS :=
  { id := 1, macRecvTimeout := configWlStdTimeOnAirMs * 1000, st := .idle, place := .llc, transId := transIdNone
    testTransId := t.testTransId, retriesNum := 0, recv := none, last := none, resend := none, send := none
    echo := false, llcTimer := t.llcTimer, stderr := [] }

def mStationStart (t : Tsm) : Station LlcStateM :=
  { id := 0, macRecvTimeout := configWlStdTimeOnAirMs * 3, st := .idle, place := .llc, transId := transIdStart
    testTransId := t.testTransId, retriesNum := 0, recv := none, last := none, resend := none, send := none
    echo := false, llcTimer := t.llcTimer, stderr := [] }

/-- Pools that are full and lists that are empty make a station that holds no packet. -/
theorem Rel.start (l : Loop σ) (hpc : l.pc = .llc none) (hlinked : Linked l.tsm Lists.start)
    (hsend : l.tsm.llcSendOwnedCounter = 0) (hrecv : l.tsm.llcRecvOwnedCounter = 0) (hcalls : l.tsm.queueCalls = []) :
    Rel Lists.start l
      { id := l.tsm.id, macRecvTimeout := l.tsm.macRecvTimeout, st := l.llcState, place := .llc
        transId := l.tsm.transId, testTransId := l.tsm.testTransId, retriesNum := l.tsm.retriesNum, recv := none
        last := none, resend := none, send := none, echo := false, llcTimer := l.tsm.llcTimer,
        stderr := l.tsm.stderr } where
  linked := hlinked
  sendPerm := by simp [Lists.start]
  recvPerm := by simp [Lists.start]
  sendOwned := rfl
  recvOwned := by rw [hpc]; rfl
  sendCounter := hsend
  recvCounter := hrecv
  sendFrom := fun _ hp => by cases hp
  id := rfl
  macRecvTimeout := rfl
  place := by rw [hpc]; rfl
  st := rfl
  transId := rfl
  testTransId := rfl
  retriesNum := rfl
  llcTimer := rfl
  stderr := rfl
  calls := fun _ hx => by rw [hcalls] at hx; cases hx
  recv := rfl
  resend := rfl
  send := rfl
  last := fun _ hd => by cases hd

/-! ## Runs -/

/-- What holds of the slave's loop and its station after every step. -/
structure SRel (l : Loop LlcStateS) (a : Station LlcStateS) : Prop where
  rel : ∃ c, Rel c l a
  inv : SInv a
  supplied : a.Supplied

/-- What holds of the master's loop and its station, as long as the timer is not read too early. -/
structure MRel (l : Loop LlcStateM) (a : Station LlcStateM) : Prop where
  rel : ∃ c, Rel c l a
  inv : MInv a
  /-- the master only sends packets of its own -/
  own : a.echo = false
  supplied : a.Supplied

/-- The timer of the loop is not read as expired while a pack is in the send queue. -/
def TimerPatient (l : Loop LlcStateM) : Input → Prop
  | .pass now => l.llcState = .sendAll → stkLlcHasReceivedPack l.tsm = false →
      ttTimerIsTimeouted l.tsm.llcTimer now = true → stkMacHasPackToSend l.tsm = false
  | _ => True

instance (l : Loop LlcStateM) : ∀ i, Decidable (TimerPatient l i)
  | .pass now => inferInstanceAs (Decidable (l.llcState = .sendAll → stkLlcHasReceivedPack l.tsm = false →
      ttTimerIsTimeouted l.tsm.llcTimer now = true → stkMacHasPackToSend l.tsm = false))
  | .call => isTrue trivial
  | .sent => isTrue trivial
  | .received _ => isTrue trivial

theorem Rel.hasPackToSend (h : Rel c l a) : stkMacHasPackToSend l.tsm = a.send.isSome := by
  rw [stkMacHasPackToSend_eq h.linked]
  cases hsend : a.send with
  | none => rw [map_toList_none h.send hsend]; rfl
  | some d =>
    obtain ⟨p, hp, -⟩ := map_toList_some h.send hsend
    rw [hp]
    rfl

theorem Rel.hasReceivedPack (h : Rel c l a) : stkLlcHasReceivedPack l.tsm = a.recv.isSome := by
  rw [stkLlcHasReceivedPack_eq h.linked]
  cases hrecv : a.recv with
  | none => rw [map_toList_none h.recv hrecv]; rfl
  | some d =>
    obtain ⟨p, hp, -⟩ := map_toList_some h.recv hrecv
    rw [hp]
    rfl

theorem TimerPatient.station {a : Station LlcStateM} {l : Loop LlcStateM} (h : Rel c l a) {i : Input}
    (hi : TimerPatient l i) : Patient a i := by
  cases i with
  | pass now =>
    intro hst hrecv hexp
    have hsend := hi (by rw [h.st, hst]) (by rw [h.hasReceivedPack, hrecv]; rfl) (by rw [h.llcTimer, hexp])
    rw [h.hasPackToSend] at hsend
    simpa using hsend
  | _ => trivial

theorem SRel.step {a : Station LlcStateS} {l : Loop LlcStateS} (h : SRel l a) (i : Input) :
    Lockstep SRel (sStep l i) (sStation a i) := by
  obtain ⟨c, hrel⟩ := h.rel
  exact (sLockstep hrel h.inv i).imp fun l' a' o _ ha hr =>
    ⟨hr, sStation_inv h.inv ha, (sStation_move h.inv ha).supplied h.supplied⟩

theorem MRel.step {a : Station LlcStateM} {l : Loop LlcStateM} (h : MRel l a) {i : Input} (hi : TimerPatient l i) :
    Lockstep MRel (mStep l i) (mStation a i) := by
  obtain ⟨c, hrel⟩ := h.rel
  have hpatient := hi.station hrel
  exact (mLockstep hrel h.inv hpatient).imp fun l' a' o _ ha hr =>
    have hmove := mStation_move h.inv hpatient ha
    ⟨hr, mStation_inv h.inv hpatient ha, hmove.own h.own, hmove.supplied h.supplied⟩

/-- The slave's loop starts, whatever the memory held, as its station does. -/
theorem sStart_rel (t : Tsm) : ∃ l, sStart t = some l ∧ SRel l (sStationStart t) := by
  obtain ⟨mac, owner, hinit, hmac, howner⟩ := stkCTsmInit_spec t
  refine ⟨_, by simp only [sStart, stkSTsmInit, hinit]; rfl, ⟨Lists.start, ?_⟩, Or.inl rfl, nofun,
    nofun⟩
  exact Rel.start _ rfl ⟨hmac, howner⟩ rfl rfl rfl

theorem mStart_rel (t : Tsm) : ∃ l, mStart t = some l ∧ MRel l (mStationStart t) := by
  obtain ⟨mac, owner, hinit, hmac, howner⟩ := stkCTsmInit_spec t
  refine ⟨_, by simp only [mStart, stkMTsmInit, hinit]; rfl, ⟨Lists.start, ?_⟩, ⟨rfl, rfl⟩, rfl,
    nofun, nofun⟩
  exact Rel.start _ rfl ⟨hmac, howner⟩ rfl rfl rfl

theorem SRel.lockstep {a : Station LlcStateS} {l : Loop LlcStateS} (h : SRel l a) (is : List Input) :
    Lockstep SRel (run sStep l is) (run sStation a is) :=
  run_lockstep (C := fun _ _ => True) (fun _ _ i h _ => h.step i) h (fun _ _ _ _ _ _ _ => trivial)

theorem MRel.lockstep {a : Station LlcStateM} {l : Loop LlcStateM} (h : MRel l a) {is : List Input}
    (hpatient : Along mStep TimerPatient l is) : Lockstep MRel (run mStep l is) (run mStation a is) :=
  run_lockstep (fun _ _ _ h hi => h.step hi) h hpatient

variable {t : Tsm} {is : List Input}

/-- **The slave's loop refines its station.** -/
theorem sRun_station {l₀ l : Loop LlcStateS} {os : List (Event LlcStateS)} (h₀ : sStart t = some l₀)
    (hr : run sStep l₀ is = some (l, os)) :
    ∃ a, run sStation (sStationStart t) is = some (a, os) ∧ SRel l a := by
  obtain ⟨l', hl', hrel⟩ := sStart_rel t
  cases h₀.symm.trans hl'
  exact (hrel.lockstep is).of_some hr

/-- What the station can do from its start, the slave's loop does. -/
theorem sRun_of_station {a : Station LlcStateS} {os : List (Event LlcStateS)}
    (hr : run sStation (sStationStart t) is = some (a, os)) :
    ∃ l₀ l, sStart t = some l₀ ∧ run sStep l₀ is = some (l, os) ∧ SRel l a := by
  obtain ⟨l₀, h₀, hrel⟩ := sStart_rel t
  have hlock := hrel.lockstep is
  rw [hr] at hlock
  obtain ⟨l, hl, hrel'⟩ := hlock
  exact ⟨l₀, l, h₀, hl, hrel'⟩

/-- **The master's loop refines its station**, while its timer is not read too early. -/
theorem mRun_station {l₀ l : Loop LlcStateM} {os : List (Event LlcStateM)} (h₀ : mStart t = some l₀)
    (hr : run mStep l₀ is = some (l, os)) (hpatient : Along mStep TimerPatient l₀ is) :
    ∃ a, run mStation (mStationStart t) is = some (a, os) ∧ MRel l a := by
  obtain ⟨l', hl', hrel⟩ := mStart_rel t
  cases h₀.symm.trans hl'
  exact (hrel.lockstep hpatient).of_some hr

end LoraBridge
