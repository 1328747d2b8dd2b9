import LoraBridge.Checksum
import LoraBridge.Worker

/-!
# A station without buffers

What the two loops are for, with packets as values: a station keeps the packet it received and has not consumed, the
packet it would send again, and the packet that waits for the radio. There are no pools, no links and no buffer
contents; packets it sends are held sealed. `sStation` and `mStation` take the inputs of the loops and emit their
events.
-/

set_option autoImplicit false

namespace LoraBridge

/-- Where a station stands in its loop. -/
inductive Place
  | llc
  | mac
  | sending
  | receiving
  deriving DecidableEq, Repr

structure Station (σ : Type) where
  id : Byte
  macRecvTimeout : BitVec 32
  st : σ
  place : Place
  transId : Byte
  testTransId : Byte
  retriesNum : Byte
  /-- received, not yet consumed -/
  recv : Option PackData
  /-- the packet consumed last in this call of the LLC worker -/
  last : Option PackData
  /-- the packet to send again -/
  resend : Option PackData
  /-- waits for the radio, or is being sent -/
  send : Option PackData
  /-- the packet in `send` is the one received, not a response of its own -/
  echo : Bool
  llcTimer : TtTimer
  stderr : List Assert

/-- The full-length single packet of a transaction, as it goes on the air. -/
def singleFrame (transId : Byte) : PackData :=
  stkSetPackChecksumm (singlePrepareData transId (Vector.replicate 19 0) payload 16)

def nextTransId (transId : Byte) : Byte := if transId + 1 > transIdMax then transIdStart else transId + 1

section Steps

variable {σ : Type}

/-- The assertion `x` fails unless `cond`. -/
def Station.check (a : Station σ) (cond : Bool) (x : Assert) : Station σ :=
  if cond then a else { a with stderr := a.stderr ++ [x] }

section Check

variable (a : Station σ) (b : Bool) (x : Assert)

@[simp] theorem Station.check_true : a.check true x = a := rfl
@[simp] theorem Station.check_id : (a.check b x).id = a.id := by cases b <;> rfl
@[simp] theorem Station.check_macRecvTimeout : (a.check b x).macRecvTimeout = a.macRecvTimeout := by cases b <;> rfl
@[simp] theorem Station.check_st : (a.check b x).st = a.st := by cases b <;> rfl
@[simp] theorem Station.check_place : (a.check b x).place = a.place := by cases b <;> rfl
@[simp] theorem Station.check_transId : (a.check b x).transId = a.transId := by cases b <;> rfl
@[simp] theorem Station.check_recv : (a.check b x).recv = a.recv := by cases b <;> rfl
@[simp] theorem Station.check_last : (a.check b x).last = a.last := by cases b <;> rfl
@[simp] theorem Station.check_resend : (a.check b x).resend = a.resend := by cases b <;> rfl
@[simp] theorem Station.check_echo : (a.check b x).echo = a.echo := by cases b <;> rfl
@[simp] theorem Station.check_send : (a.check b x).send = a.send := by cases b <;> rfl

end Check

/-- A pass of the slave. -/
def sStationPass (a : Station LlcStateS) : Option (Station LlcStateS) :=
  match a.st with
  | .idle =>
    match a.recv with
    | none => some a
    | some d =>
      let a := { a with recv := none, last := some d }
      if stkIsResetPack d then some (a.check false .sReset)
      else if stkGetTransId d = a.transId then
        if stkGetPackType d = .typeSingle then some { a with st := .resend } else some (a.check false .sRepeatType)
      else
        let a := { a with resend := none, retriesNum := 0 }
        if stkGetPackType d = .typeSingle then some { a with transId := stkGetTransId d, st := .receivedAll }
        else some (a.check false .sNewType)
  | .receivedAll =>
    some { a with resend := some (singleFrame a.transId), send := some (singleFrame a.transId), last := none
                  echo := false, st := .sendAll }
  | .sendAll => some { a with st := .idle }
  | .resend =>
    let b := a.check a.resend.isSome .sResendEmpty
    (a.resend.or (a.last.map stkSetPackChecksumm)).map fun d =>
      { b with send := some d, last := none, echo := a.resend.isNone, retriesNum := b.retriesNum + 1, st := .idle }

/-- A pass of the master, when the clock reads `now`. -/
def mStationPass (a : Station LlcStateM) (now : Timeval) : Option (Station LlcStateM) :=
  match a.st with
  | .idle =>
    let d := singleFrame (nextTransId a.transId)
    some { a with resend := some d, send := some d, transId := nextTransId a.transId, retriesNum := 0
                  llcTimer := ttTimerStart now llcTimeoutMs, last := none, echo := false, st := .sendAll }
  | .sendAll =>
    match a.recv with
    | some d =>
      let a := (a.check (stkGetPackType d = .typeSingle) .mType).check (stkGetTransId d = a.transId) .mTransId
      some { a with testTransId := stkGetTransId d, recv := none, last := some d, st := .receivedAll }
    | none => if ttTimerIsTimeouted a.llcTimer now then some { a with st := .resend } else some a
  | .receivedAll =>
    let a := a.check (a.transId = a.testTransId) .mTestTransId
    some { a with st := .idle }
  | .resend => a.resend.map fun d =>
      { a with send := some d, llcTimer := ttTimerStart now llcTimeoutMs, retriesNum := a.retriesNum + 1
               last := none, echo := false, st := .sendAll }

/-- The end of a pass, as `passDone`. -/
def stationPassDone [DecidableEq σ] (a a' : Station σ) : Station σ × List (Event σ) :=
  if a'.st ≠ a.st then (a', [.enter a'.st a'.transId]) else ({ a' with place := .mac, last := none }, [])

/-- The MAC worker up to its radio call. -/
def stationCall (a : Station σ) : Station σ × List (Event σ) :=
  match a.send with
  | some d => ({ a with place := .sending }, [.tx d])
  | none => ({ a with place := .receiving }, [])

/-- The MAC worker from the return of a send. -/
def stationSent (a : Station σ) : Option (Station σ × List (Event σ)) :=
  if a.place = .sending then some ({ a with send := none, place := .llc }, []) else none

/-- The MAC worker from the return of a receive. -/
def stationReceived (a : Station σ) (res : Option PackData) : Option (Station σ × List (Event σ)) :=
  if a.place = .receiving then
    some ({ a with recv := (Input.received res).packet.or a.recv, place := .llc }, [])
  else none

/-- The loop around a pass. -/
def stationStep [DecidableEq σ] (pass : Station σ → Timeval → Option (Station σ)) (a : Station σ) :
    Input → Option (Station σ × List (Event σ))
  | .pass now => if a.place = .llc then (pass a now).map (stationPassDone a) else none
  | .call => if a.place = .mac then some (stationCall a) else none
  | .sent => stationSent a
  | .received res => stationReceived a res

end Steps

def sStation : Station LlcStateS → Input → Option (Station LlcStateS × List (Event LlcStateS)) :=
  stationStep fun a _ => sStationPass a

def mStation : Station LlcStateM → Input → Option (Station LlcStateM × List (Event LlcStateM)) :=
  stationStep mStationPass

/-! ## Queues -/

/-- What a slave's queues hold, by place and state: a packet to send and a received one never at once, nothing queued
when a response is about to be. -/
def SInv (a : Station LlcStateS) : Prop :=
  match a.place, a.st with
  | .llc, .idle => a.send = none ∨ a.recv = none
  | .llc, .receivedAll => a.send = none ∧ a.recv = none ∧ a.resend = none ∧ a.transId ≤ transIdMax
  | .llc, .sendAll => a.recv = none
  | .llc, .resend => a.send = none ∧ a.recv = none ∧ (a.resend.isSome ∨ a.last.isSome)
  | .mac, .idle => a.recv = none
  | .sending, .idle => a.send.isSome ∧ a.recv = none
  | .receiving, .idle => a.send = none ∧ a.recv = none
  | _, _ => False

/-- What a master's queues hold. -/
def MInv (a : Station LlcStateM) : Prop :=
  match a.place, a.st with
  | .llc, .idle => a.send = none ∧ a.recv = none
  | .llc, .receivedAll => a.send = none ∧ a.recv = none
  | .llc, .sendAll => a.resend.isSome ∧ (a.send = none ∨ a.recv = none)
  | .llc, .resend => a.send = none ∧ a.recv = none ∧ a.resend.isSome
  | .mac, .sendAll => a.recv = none ∧ a.resend.isSome
  | .sending, .sendAll => a.send.isSome ∧ a.recv = none ∧ a.resend.isSome
  | .receiving, .sendAll => a.send = none ∧ a.recv = none ∧ a.resend.isSome
  | _, _ => False

/-- The timer is not read as expired while a packet waits for the radio. -/
def Patient (a : Station LlcStateM) : Input → Prop
  | .pass now => a.st = .sendAll → a.recv = none → ttTimerIsTimeouted a.llcTimer now = true → a.send = none
  | _ => True

/-! ## Frames -/

theorem stkTest_singleFrame (transId : Byte) : stkTestPackChecksumm (singleFrame transId) = true := stkTest_set _

@[simp] theorem stkGetPackType_singleFrame (transId : Byte) : stkGetPackType (singleFrame transId) = .typeSingle := by
  rw [singleFrame, stkGetPackType_set, stkGetPackType_prepare]

/-- The id field of a frame is its transaction id when that fits two bits. -/
theorem stkGetTransId_singleFrame {transId : Byte} (h : transId ≤ transIdMax) :
    stkGetTransId (singleFrame transId) = transId := by
  rw [singleFrame, stkGetTransId_set, stkGetTransId_prepare]
  revert transId
  decide +kernel

theorem stkIsResetPack_single {d : PackData} (h : stkGetPackType d = .typeSingle) : stkIsResetPack d = false := by
  simp [stkIsResetPack, h]

/-- The id field of any packet has two bits. -/
theorem stkGetTransId_le (d : PackData) : stkGetTransId d ≤ transIdMax := by
  have h : ∀ b : BitVec 2, (b.setWidth 8 : Byte) ≤ transIdMax := by decide +kernel
  exact h _

/-! ## The invariants are kept -/

/-- A pass of the slave. The state it leaves `respin` with is idle again. -/
theorem sStationPass_inv {a : Station LlcStateS} (h : SInv a) (hp : a.place = .llc) :
    ∃ a', sStationPass a = some a' ∧ SInv (stationPassDone a a').1 := by
  obtain ⟨id, macRecvTimeout, st, place, transId, testTransId, retriesNum, recv, last, resend, send, echo, llcTimer,
    stderr⟩ := a
  subst hp
  cases st with
  | idle =>
    cases recv with
    | none => exact ⟨_, rfl, rfl⟩
    | some d =>
      have hsend : send = none := by simpa [SInv] using h
      simp only [sStationPass]
      split_ifs with hreset hid htype htype
      · exact ⟨_, rfl, rfl⟩
      · exact ⟨_, rfl, hsend, rfl, Or.inr rfl⟩
      · exact ⟨_, rfl, rfl⟩
      · exact ⟨_, rfl, hsend, rfl, rfl, stkGetTransId_le d⟩
      · exact ⟨_, rfl, rfl⟩
  | receivedAll => exact ⟨_, rfl, h.2.1⟩
  | sendAll => exact ⟨_, rfl, Or.inr h⟩
  | resend =>
    obtain ⟨-, hrecv, hsome⟩ := h
    cases resend with
    | some d => exact ⟨_, rfl, Or.inr hrecv⟩
    | none =>
      cases last with
      | some d => exact ⟨_, rfl, Or.inr hrecv⟩
      | none => simp at hsome

/-- A pass of the master. -/
theorem mStationPass_inv {a : Station LlcStateM} {now : Timeval} (h : MInv a) (hp : a.place = .llc)
    (hpatient : Patient a (.pass now)) :
    ∃ a', mStationPass a now = some a' ∧ MInv (stationPassDone a a').1 := by
  obtain ⟨id, macRecvTimeout, st, place, transId, testTransId, retriesNum, recv, last, resend, send, echo, llcTimer,
    stderr⟩ := a
  subst hp
  cases st with
  | idle => exact ⟨_, rfl, rfl, Or.inr h.2⟩
  | receivedAll =>
    exact ⟨_, rfl, by simpa [stationPassDone, MInv] using h⟩
  | sendAll =>
    obtain ⟨hresend, hqueue⟩ := h
    cases recv with
    | some d =>
      have hsend : send = none := by simpa using hqueue
      exact ⟨_, rfl, by simp [stationPassDone, MInv, hsend]⟩
    | none =>
      cases hexp : ttTimerIsTimeouted llcTimer now with
      | true => exact ⟨_, if_pos hexp, hpatient rfl rfl hexp, rfl, hresend⟩
      | false => exact ⟨_, if_neg (by simp [hexp]), rfl, hresend⟩
  | resend =>
    obtain ⟨-, hrecv, hresend⟩ := h
    cases resend with
    | none => cases hresend
    | some d => exact ⟨_, rfl, rfl, Or.inr hrecv⟩

theorem sStation_inv {a a' : Station LlcStateS} {i : Input} {o : List (Event LlcStateS)} (h : SInv a)
    (hs : sStation a i = some (a', o)) : SInv a' := by
  cases i with
  | pass now =>
    simp only [sStation, stationStep] at hs
    split_ifs at hs with hp
    obtain ⟨b, hb, hinv⟩ := sStationPass_inv h hp
    rw [hb, Option.map_some, Option.some.injEq] at hs
    rw [hs] at hinv
    exact hinv
  | call =>
    simp only [sStation, stationStep] at hs
    split_ifs at hs with hp
    cases hst : a.st <;> simp only [SInv, hp, hst] at h
    cases hsend : a.send <;> simp only [stationCall, hsend, Option.some.injEq, Prod.mk.injEq] at hs
    · rw [← hs.1]
      simp only [SInv, hst]
      exact ⟨trivial, h⟩
    · rw [← hs.1]
      simp only [SInv, hst]
      exact ⟨rfl, h⟩
  | sent =>
    simp only [sStation, stationStep, stationSent] at hs
    split_ifs at hs with hp
    cases hst : a.st <;> simp only [SInv, hp, hst] at h
    cases hs
    simp only [SInv, hst]
    exact Or.inl trivial
  | received res =>
    simp only [sStation, stationStep, stationReceived] at hs
    split_ifs at hs with hp
    cases hst : a.st <;> simp only [SInv, hp, hst] at h
    cases hs
    simp only [SInv, hst]
    exact Or.inl h.1

theorem mStation_inv {a a' : Station LlcStateM} {i : Input} {o : List (Event LlcStateM)} (h : MInv a)
    (hi : Patient a i) (hs : mStation a i = some (a', o)) : MInv a' := by
  cases i with
  | pass now =>
    simp only [mStation, stationStep] at hs
    split_ifs at hs with hp
    obtain ⟨b, hb, hinv⟩ := mStationPass_inv h hp hi
    rw [hb, Option.map_some, Option.some.injEq] at hs
    rw [hs] at hinv
    exact hinv
  | call =>
    simp only [mStation, stationStep] at hs
    split_ifs at hs with hp
    cases hst : a.st <;> simp only [MInv, hp, hst] at h
    cases hsend : a.send <;> simp only [stationCall, hsend, Option.some.injEq, Prod.mk.injEq] at hs
    · rw [← hs.1]
      simp only [MInv, hst]
      exact ⟨trivial, h⟩
    · rw [← hs.1]
      simp only [MInv, hst]
      exact ⟨rfl, h⟩
  | sent =>
    simp only [mStation, stationStep, stationSent] at hs
    split_ifs at hs with hp
    cases hst : a.st <;> simp only [MInv, hp, hst] at h
    cases hs
    simp only [MInv, hst]
    exact ⟨h.2.2, Or.inl trivial⟩
  | received res =>
    simp only [mStation, stationStep, stationReceived] at hs
    split_ifs at hs with hp
    cases hst : a.st <;> simp only [MInv, hp, hst] at h
    cases hs
    simp only [MInv, hst]
    exact ⟨h.2.2, Or.inl h.1⟩

end LoraBridge
