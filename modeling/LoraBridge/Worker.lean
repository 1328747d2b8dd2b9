import LoraBridge.Transducer
import LoraBridge.Transmitter

/-!
# The workers and the two loops

`stk_s_llc_worker_v3` and `stk_m_llc_worker_v3` are one `switch` inside a `goto respin`: a call is a sequence of passes
that ends with the first pass that leaves the state as it was. A loop alternates such calls with `stk_mac_worker`, which
makes one call of the radio. `sStep` and `mStep` cut the two endless loops at those places: an input is a pass, the
entry of `stk_mac_worker` up to its radio call, or the return of that call; an event is a change of the LLC state or a
packet handed to `wl_sendPacketTimeout`. `received`, `transmitted` and `entered` read a run's inputs and events.
-/

set_option autoImplicit false

namespace LoraBridge

open ListHead

def payload : Nat → Byte := fun i => sendData.getD i 0

/-! ## The slave's LLC worker -/

/-- One pass of the slave from `respin`: the new state and the local variable `pack`, which survives the respin. -/
def stkSLlcPass (tsm : Tsm) (llcStateS : LlcStateS) (pack : Option Pack) :
    Option (Tsm × LlcStateS × Option Pack) :=
  match llcStateS with
  | .idle =>
    if stkLlcHasReceivedPack tsm then do
      let (tsm, pack) ← stkLlcGetFirstReceived tsm
      let d := tsm.data pack
      let (tsm, st) ←
        if stkIsResetPack d then
          some (prAssert tsm false .sReset, LlcStateS.idle)
        else if stkGetTransId d = tsm.transId then
          if stkGetPackType d = .typeSingle then some (tsm, .resend)
          else some (prAssert tsm false .sRepeatType, .idle)
        else do
          -- the resend list goes before the type is looked at
          let tsm ← stkLlcResendClearAll tsm
          let tsm := { tsm with retriesNum := 0 }
          if stkGetPackType d = .typeSingle then some ({ tsm with transId := stkGetTransId d }, .receivedAll)
          else some (prAssert tsm false .sNewType, .idle)
      let tsm ← stkLlcMarkAsReceived tsm
      return (tsm, st, some pack)
    else
      return (tsm, .idle, pack)
  | .receivedAll => do
    let (tsm, pack) ← stkGetSendPackholder tsm
    let tsm := stkLlcSinglePrepare tsm pack payload 16
    let tsm ← stkLlcPackCommit tsm pack
    let tsm ← stkLlcResendAdd tsm pack
    return (tsm, .sendAll, some pack)
  | .sendAll => return (tsm, .idle, pack)
  | .resend => do
    let got := stkLlcResendGet tsm
    let tsm := prAssert tsm got.isSome .sResendEmpty
    -- with an empty list `pack` keeps what an earlier pass left in it
    let pack := got.or pack
    let tsm ← stkLlcPackCommit tsm (← pack)
    return ({ tsm with retriesNum := tsm.retriesNum + 1 }, .idle, pack)

/-! ## The master's LLC worker -/

def stkMHasPackToSend : Bool := true

/-- `CONFIG_WL_STD_TIME_ON_AIR_MS * 3`. -/
def llcTimeoutMs : BitVec 32 := configWlStdTimeOnAirMs * 3

/-- One pass of the master; a pass reads the clock at most once, as `now`. -/
def stkMLlcPass (tsm : Tsm) (llcStateM : LlcStateM) (pack : Option Pack) (now : Timeval) :
    Option (Tsm × LlcStateM × Option Pack) :=
  match llcStateM with
  | .idle =>
    if stkMHasPackToSend then do
      let tsm ← stkLlcResendClearAll tsm
      let tsm := stkMPrepTransId { tsm with retriesNum := 0 }
      let (tsm, pack) ← stkGetSendPackholder tsm
      let tsm := stkLlcSinglePrepare tsm pack payload 16
      let tsm ← stkLlcPackCommit tsm pack
      let tsm ← stkLlcResendAdd tsm pack
      return ({ tsm with llcTimer := ttTimerStart now llcTimeoutMs }, .sendAll, some pack)
    else
      return (tsm, .idle, pack)
  | .sendAll =>
    if stkLlcHasReceivedPack tsm then do
      let (tsm, pack) ← stkLlcGetFirstReceived tsm
      let d := tsm.data pack
      let tsm := prAssert tsm (stkGetPackType d = .typeSingle) .mType
      let tsm := prAssert tsm (stkGetTransId d = tsm.transId) .mTransId
      let tsm ← stkLlcMarkAsReceived { tsm with testTransId := stkGetTransId d }
      return (tsm, .receivedAll, some pack)
    else if ttTimerIsTimeouted tsm.llcTimer now then
      return (tsm, .resend, pack)
    else
      return (tsm, .sendAll, pack)
  | .receivedAll => return (prAssert tsm (tsm.transId = tsm.testTransId) .mTestTransId, .idle, pack)
  | .resend => do
    let got := stkLlcResendGet tsm
    let tsm := prAssert tsm got.isSome .mResendEmpty
    let pack := got.or pack
    let tsm ← stkLlcPackCommit tsm (← pack)
    return ({ tsm with llcTimer := ttTimerStart now llcTimeoutMs, retriesNum := tsm.retriesNum + 1 }, .sendAll, pack)

/-! ## The MAC worker -/

/-- `stk_mac_do_send` up to its call of `wl_sendPacketTimeout`, with the bytes it hands over. -/
def stkMacDoSendCall (tsm : Tsm) : Option (Tsm × PackData) := do
  let tsm := prAssert tsm (stkMacHasPackToSend tsm) .macDoSend
  let (tsm, first) ← stkMacGetFirstToSend tsm
  let tsm := tsm.setData first (stkSetPackChecksumm (tsm.data first))
  return (tsm, tsm.data first)

/-- The rest of `stk_mac_do_receive`, when `wl_receivePacketTimeout` has failed (`none`) or written `pack->data`. -/
def stkMacDoReceiveRet (tsm : Tsm) (pack : Pack) : Option PackData → Option Tsm
  | none => stkPutRecvPackholder tsm pack
  | some d =>
    let tsm := tsm.setData pack d
    if !stkTestPackChecksumm (tsm.data pack) then stkPutRecvPackholder tsm pack else stkMacPackCommit tsm pack

/-! ## The loops -/

/-- Where a loop stands. -/
inductive Pc
  /-- at `respin`, with the local variable `pack` of the worker -/
  | llc (pack : Option Pack)
  /-- before the call of `stk_mac_worker` -/
  | mac
  /-- in `wl_sendPacketTimeout` -/
  | sending
  /-- in `wl_receivePacketTimeout`, with the local variable `pack` of `stk_mac_do_receive` -/
  | receiving (pack : Pack)
  deriving DecidableEq, Repr

/-- A loop: the transmitter, the local copies of the two states, and the place. -/
structure Loop (σ : Type) where
  tsm : Tsm
  macState : MacState
  llcState : σ
  pc : Pc

inductive Input
  /-- one pass of the LLC worker; the clock reads `now` if the pass reads it -/
  | pass (now : Timeval)
  /-- `stk_mac_worker` up to the radio call -/
  | call
  /-- `wl_sendPacketTimeout` returns -/
  | sent
  /-- `wl_receivePacketTimeout` returns: zero, with the packet it wrote, or nonzero -/
  | received (res : Option PackData)
  deriving DecidableEq

inductive Event (σ : Type)
  /-- the LLC state became `st`; `trans_id` at that time -/
  | enter (st : σ) (transId : Byte)
  /-- `wl_sendPacketTimeout` was called with these bytes -/
  | tx (d : PackData)
  deriving DecidableEq

section Mac

variable {σ : Type}

/-- `stk_mac_worker` up to the radio call. -/
def macCall (l : Loop σ) : Option (Loop σ × List (Event σ)) :=
  if stkMacHasPackToSend l.tsm then do
    let (tsm, d) ← stkMacDoSendCall l.tsm
    return ({ l with tsm := tsm, macState := .macSending, pc := .sending }, [.tx d])
  else do
    let (tsm, pack) ← stkGetRecvPackholder l.tsm
    return ({ l with tsm := tsm, macState := .macReceivingCont, pc := .receiving pack }, [])

/-- The end of `stk_mac_worker` and of the round: the states go back into the transmitter. -/
def macDone (l : Loop σ) (tsm : Tsm) : Loop σ :=
  let macState := if !stkMacHasPackToSend tsm then .macReceivingCont else l.macState
  { l with tsm := { tsm with macState := macState }, macState := macState, pc := .llc none }

/-- `stk_mac_worker` from the return of `wl_sendPacketTimeout`. -/
def macSent (l : Loop σ) : Option (Loop σ × List (Event σ)) :=
  match l.pc with
  | .sending => (stkMacMarkAsSend l.tsm).map fun tsm => (macDone l tsm, [])
  | _ => none

/-- `stk_mac_worker` from the return of `wl_receivePacketTimeout`. -/
def macReceived (l : Loop σ) (res : Option PackData) : Option (Loop σ × List (Event σ)) :=
  match l.pc with
  | .receiving pack => (stkMacDoReceiveRet l.tsm pack res).map fun tsm => (macDone l tsm, [])
  | _ => none

/-- The end of a pass: respin when the state has changed, else the worker returns and its state is stored. -/
def passDone [DecidableEq σ] (l : Loop σ) (store : Tsm → σ → Tsm) : Tsm × σ × Option Pack → Loop σ × List (Event σ)
  | (tsm, st, pack) =>
    if st ≠ l.llcState then ({ l with tsm := tsm, llcState := st, pc := .llc pack }, [.enter st tsm.transId])
    else ({ l with tsm := store tsm st, pc := .mac }, [])

end Mac

/-- `stk_s_comm_loop`. -/
def sStep (l : Loop LlcStateS) : Input → Option (Loop LlcStateS × List (Event LlcStateS))
  | .pass _ =>
    match l.pc with
    | .llc pack => (stkSLlcPass l.tsm l.llcState pack).map (passDone l fun tsm st => { tsm with llcStateS := st })
    | _ => none
  | .call => if l.pc = .mac then macCall l else none
  | .sent => macSent l
  | .received res => macReceived l res

/-- `stk_m_comm_loop`. -/
def mStep (l : Loop LlcStateM) : Input → Option (Loop LlcStateM × List (Event LlcStateM))
  | .pass now =>
    match l.pc with
    | .llc pack => (stkMLlcPass l.tsm l.llcState pack now).map (passDone l fun tsm st => { tsm with llcStateM := st })
    | _ => none
  | .call => if l.pc = .mac then macCall l else none
  | .sent => macSent l
  | .received res => macReceived l res

/-- The slave's loop at its first pass; `tsm` is the memory the caller passes, uninitialised. -/
def sStart (tsm : Tsm) : Option (Loop LlcStateS) :=
  (stkSTsmInit tsm).map fun tsm => ⟨tsm, tsm.macState, tsm.llcStateS, .llc none⟩

/-- The master's loop at its first pass. -/
def mStart (tsm : Tsm) : Option (Loop LlcStateM) :=
  (stkMTsmInit tsm).map fun tsm => ⟨tsm, tsm.macState, tsm.llcStateM, .llc none⟩

/-- A transmitter in zeroed memory. -/
def Tsm.zeroed : Tsm :=
  { id := 0, macState := .macIdle, llcStateS := .idle, llcStateM := .idle, testTransId := 0, retriesNum := 0
    macRecvTimeout := 0, mac := ⟨fun _ => .poison1, fun _ => .poison1⟩, owner := ⟨fun _ => .poison1, fun _ => .poison1⟩
    data := fun _ => Vector.replicate 19 0, llcSendOwnedCounter := 0, llcRecvOwnedCounter := 0
    llcTimer := ⟨⟨0, 0⟩, 0⟩, transId := 0, stderr := [], queueCalls := [] }

/-! ## Reading a run -/

/-- The packet an input delivers with a right checksum. -/
def Input.packet : Input → Option PackData
  | .received (some d) => if stkTestPackChecksumm d then some d else none
  | _ => none

/-- The packets received with a right checksum. -/
def received (is : List Input) : List PackData := is.filterMap Input.packet

def Event.packet {σ : Type} : Event σ → Option PackData
  | .tx d => some d
  | .enter _ _ => none

/-- The packets handed to the radio. -/
def transmitted {σ : Type} (os : List (Event σ)) : List PackData := os.filterMap Event.packet

/-- The transaction ids with which the state `st` was entered. -/
def entered {σ : Type} [DecidableEq σ] (st : σ) (os : List (Event σ)) : List Byte :=
  os.filterMap fun
    | .enter st' transId => if st' = st then some transId else none
    | .tx _ => none

section Reading

variable {σ : Type} (is js : List Input) (os ps : List (Event σ)) (st : σ)

@[simp] theorem received_append : received (is ++ js) = received is ++ received js := List.filterMap_append
@[simp] theorem transmitted_append : transmitted (os ++ ps) = transmitted os ++ transmitted ps := List.filterMap_append
@[simp] theorem entered_append [DecidableEq σ] : entered st (os ++ ps) = entered st os ++ entered st ps :=
  List.filterMap_append

@[simp] theorem received_nil : received [] = [] := rfl
@[simp] theorem transmitted_nil : transmitted ([] : List (Event σ)) = [] := rfl
@[simp] theorem transmitted_tx (d : PackData) : transmitted [(.tx d : Event σ)] = [d] := rfl
@[simp] theorem transmitted_enter (transId : Byte) : transmitted [.enter st transId] = [] := rfl
@[simp] theorem entered_nil [DecidableEq σ] : entered st [] = [] := rfl
@[simp] theorem entered_tx [DecidableEq σ] (d : PackData) : entered st [.tx d] = [] := rfl

theorem received_singleton (i : Input) : received [i] = i.packet.toList := by
  cases h : i.packet <;> simp [received, h]

theorem entered_enter [DecidableEq σ] (st' : σ) (transId : Byte) :
    entered st [.enter st' transId] = if st' = st then [transId] else [] := by
  by_cases h : st' = st <;> simp [entered, h]

end Reading

end LoraBridge
