import LoraBridge.ListHead
import LoraBridge.Packet
import LoraBridge.Timer

/-!
# The transmitter: pools, queues and the resend list

`struct stl_transmiter` and the functions of `stack-comm.c` that move packs between its lists. A pack is a member of
one of the two pool arrays; it has two list nodes, `mac_node` for the send and receive queues and `owner_node` for the
pools, the owned lists and the resend list. The two kinds of nodes never meet, so each has its own memory of links.

A function that follows a poisoned pointer, or takes the head of an empty list for a pack, has no result (`none`).
`pr_assert` only prints: a failed one is added to `stderr` and the function goes on.
-/

set_option autoImplicit false

namespace LoraBridge

open ListHead

/-- `&send_list_pool_buff[i]` and `&recv_list_pool_buff[i]`. -/
inductive Pack
  | sendBuff (i : Fin 10)
  | recvBuff (i : Fin 10)
  deriving DecidableEq, Repr

def stkPacketPoolSize : Nat := 10

inductive MacHead
  | sendList
  | recvList
  deriving DecidableEq, Repr

inductive OwnerHead
  | sendListPool
  | recvListPool
  | llcSendOwned
  | llcRecvOwned
  | llcResendList
  deriving DecidableEq, Repr

abbrev MacLinks := Links (Node MacHead Pack)
abbrev OwnerLinks := Links (Node OwnerHead Pack)

inductive MacState
  | macIdle
  | macSending
  | macReceivingCont
  deriving DecidableEq, Repr

inductive LlcStateS
  | idle
  | receivedAll
  | sendAll
  | resend
  deriving DecidableEq, Repr

inductive LlcStateM
  | idle
  | receivedAll
  | sendAll
  | resend
  deriving DecidableEq, Repr

def transIdStart : Byte := 0
def transIdMax : Byte := 3
def transIdNone : Byte := 4

/-- The assertions of `stack-comm.c`, by the place they stand at. -/
inductive Assert
  | singleTooBig | singleTooSmall
  | macGetFirstToSend | macMarkAsSend | llcPackCommit | macPackCommit | llcGetFirstReceived | llcMarkAsReceived
  | macDoSend | recvListPoolEmpty | sendListPoolEmpty
  /-- The slave: a reset packet; a packet of the current, or of a new transaction that is not single; no response. -/
  | sReset | sRepeatType | sNewType | sResendEmpty
  /-- The master: type and id of a response; the id on completion; no packet to resend. -/
  | mType | mTransId | mTestTransId | mResendEmpty
  deriving DecidableEq, Repr

/-- The calls that write a queue: `list_add_tail` in a commit, `list_del` in a mark. -/
inductive QueueCall
  | commit (list : MacHead) (pack : Pack)
  | del (pack : Pack)
  deriving DecidableEq, Repr

/-- `struct stl_transmiter`, with two records of the past that no code reads. -/
structure Tsm where
  id : Byte
  macState : MacState
  llcStateS : LlcStateS
  llcStateM : LlcStateM
  testTransId : Byte
  retriesNum : Byte
  macRecvTimeout : BitVec 32
  /-- The heads `send_list` and `recv_list`, and the `mac_node` of every pack. -/
  mac : MacLinks
  /-- The other list heads, and the `owner_node` of every pack. -/
  owner : OwnerLinks
  data : Pack → PackData
  llcSendOwnedCounter : BitVec 8
  llcRecvOwnedCounter : BitVec 8
  llcTimer : TtTimer
  transId : Byte
  /-- The assertions that have failed so far. -/
  stderr : List Assert
  /-- The calls that have written a queue, each with the links it found. -/
  queueCalls : List (QueueCall × MacLinks)

def prAssert (tsm : Tsm) (cond : Bool) (a : Assert) : Tsm :=
  if cond then tsm else { tsm with stderr := tsm.stderr ++ [a] }

def Tsm.logCall (tsm : Tsm) (call : QueueCall) : Tsm := { tsm with queueCalls := tsm.queueCalls ++ [(call, tsm.mac)] }

def Tsm.setData (tsm : Tsm) (pack : Pack) (d : PackData) : Tsm :=
  { tsm with data := Function.update tsm.data pack d }

/-- `container_of` a node that is the node of a pack. -/
def packOf {H : Type} : Ptr (Node H Pack) → Option Pack
  | .node (.item p) => some p
  | _ => none

/-! ## Preparing a packet -/

def stkLlcSinglePrepare (tsm : Tsm) (pack : Pack) (payload : Nat → Byte) (len : BitVec 16) : Tsm :=
  let tsm := prAssert tsm (len.toNat ≤ configStkPayloadLen) .singleTooBig
  let tsm := prAssert tsm (len ≠ 0#16) .singleTooSmall
  tsm.setData pack (singlePrepareData tsm.transId (tsm.data pack) payload len)

/-! ## The send queue -/

def stkMacHasPackToSend (tsm : Tsm) : Bool := !listEmpty tsm.mac (.head .sendList)

def stkMacGetFirstToSend (tsm : Tsm) : Option (Tsm × Pack) := do
  let tsm := prAssert tsm (stkMacHasPackToSend tsm) .macGetFirstToSend
  let first ← packOf (listFirstEntry tsm.mac (.head .sendList))
  return (tsm, first)

def stkMacMarkAsSend (tsm : Tsm) : Option Tsm := do
  let tsm := prAssert tsm (stkMacHasPackToSend tsm) .macMarkAsSend
  let (tsm, first) ← stkMacGetFirstToSend tsm
  let tsm := tsm.logCall (.del first)
  let mac ← listDel tsm.mac (.item first)
  return { tsm with mac := mac }

def stkLlcPackCommit (tsm : Tsm) (pack : Pack) : Option Tsm := do
  let tsm := prAssert tsm (!stkMacHasPackToSend tsm) .llcPackCommit
  let tsm := tsm.logCall (.commit .sendList pack)
  let mac ← listAddTail tsm.mac (.item pack) (.head .sendList)
  return { tsm with mac := mac }

/-! ## The receive queue -/

def stkLlcHasReceivedPack (tsm : Tsm) : Bool := !listEmpty tsm.mac (.head .recvList)

def stkMacPackCommit (tsm : Tsm) (pack : Pack) : Option Tsm := do
  let tsm := prAssert tsm (!stkLlcHasReceivedPack tsm) .macPackCommit
  let tsm := tsm.logCall (.commit .recvList pack)
  let mac ← listAddTail tsm.mac (.item pack) (.head .recvList)
  return { tsm with mac := mac }

def stkLlcGetFirstReceived (tsm : Tsm) : Option (Tsm × Pack) := do
  let tsm := prAssert tsm (stkLlcHasReceivedPack tsm) .llcGetFirstReceived
  let first ← packOf (listFirstEntry tsm.mac (.head .recvList))
  return (tsm, first)

def stkPutRecvPackholder (tsm : Tsm) (pack : Pack) : Option Tsm := do
  let owner ← listMoveTail tsm.owner (.item pack) (.head .recvListPool)
  return { tsm with owner := owner, llcRecvOwnedCounter := tsm.llcRecvOwnedCounter - 1 }

def stkLlcMarkAsReceived (tsm : Tsm) : Option Tsm := do
  let tsm := prAssert tsm (stkLlcHasReceivedPack tsm) .llcMarkAsReceived
  let (tsm, first) ← stkLlcGetFirstReceived tsm
  let tsm := tsm.logCall (.del first)
  let mac ← listDel tsm.mac (.item first)
  stkPutRecvPackholder { tsm with mac := mac } first

/-! ## Taking packs from the pools -/

def stkGetRecvPackholder (tsm : Tsm) : Option (Tsm × Pack) := do
  let tsm := prAssert tsm (!listEmpty tsm.owner (.head .recvListPool)) .recvListPoolEmpty
  let pack ← packOf (listFirstEntry tsm.owner (.head .recvListPool))
  let owner ← listMoveTail tsm.owner (.item pack) (.head .llcRecvOwned)
  return ({ tsm with owner := owner, llcRecvOwnedCounter := tsm.llcRecvOwnedCounter + 1 }, pack)

def stkGetSendPackholder (tsm : Tsm) : Option (Tsm × Pack) := do
  let tsm := prAssert tsm (!listEmpty tsm.owner (.head .sendListPool)) .sendListPoolEmpty
  let pack ← packOf (listFirstEntry tsm.owner (.head .sendListPool))
  let owner ← listMoveTail tsm.owner (.item pack) (.head .llcSendOwned)
  return ({ tsm with owner := owner, llcSendOwnedCounter := tsm.llcSendOwnedCounter + 1 }, pack)

/-! ## The resend list -/

/-- The body of the loop in `stk_llc_resend_clear_all`. -/
def resendClearBody (tsm : Tsm) (child : Node OwnerHead Pack) : Option Tsm := do
  let owner ← listMoveTail tsm.owner child (.head .sendListPool)
  return { tsm with owner := owner, llcSendOwnedCounter := tsm.llcSendOwnedCounter - 1 }

/-- The walk visits at most all packs and the head. -/
def stkLlcResendClearAll (tsm : Tsm) : Option Tsm := do
  let child := listFirstEntry tsm.owner (.head .llcResendList)
  let next := tsm.owner.next (← child.deref)
  let tsm ← listForEachSafe Tsm.owner resendClearBody (.head .llcResendList) (2 * stkPacketPoolSize + 1) child next tsm
  return { tsm with owner := initListHead tsm.owner (.head .llcResendList) }

def stkLlcResendAdd (tsm : Tsm) (pack : Pack) : Option Tsm := do
  let owner ← listMoveTail tsm.owner (.item pack) (.head .llcResendList)
  return { tsm with owner := owner }

/-- The pack it stores through its argument, when it returns `true`. -/
def stkLlcResendGet (tsm : Tsm) : Option Pack :=
  if listEmpty tsm.owner (.head .llcResendList) then none
  else packOf (listFirstEntry tsm.owner (.head .llcResendList))

/-! ## Initialisation -/

/-- `for (int i = 0; i < STK_PACKET_POOL_SIZE; i++) list_add_tail(&buff[i].owner_node, &pool);` -/
def addPool (owner : OwnerLinks) (buff : Fin 10 → Pack) (pool : OwnerHead) : Option OwnerLinks :=
  (List.finRange stkPacketPoolSize).foldlM (fun owner i => listAddTail owner (.item (buff i)) (.head pool)) owner

def stkCInitPools (tsm : Tsm) : Option Tsm := do
  let owner := initListHead (initListHead tsm.owner (.head .sendListPool)) (.head .recvListPool)
  let owner ← addPool owner .sendBuff .sendListPool
  let owner ← addPool owner .recvBuff .recvListPool
  return { tsm with owner := owner, llcSendOwnedCounter := 0, llcRecvOwnedCounter := 0 }

def stkCTsmInit (tsm : Tsm) : Option Tsm := do
  let mac := initListHead (initListHead tsm.mac (.head .sendList)) (.head .recvList)
  let owner := initListHead (initListHead (initListHead tsm.owner (.head .llcResendList)) (.head .llcSendOwned))
    (.head .llcRecvOwned)
  let tsm ← stkCInitPools { tsm with mac := mac, owner := owner }
  -- the two records start here
  return { tsm with retriesNum := 0, stderr := [], queueCalls := [] }

def stkSTsmInit (tsm : Tsm) : Option Tsm := do
  let tsm ← stkCTsmInit tsm
  return { tsm with
    id := 1, macState := .macReceivingCont, llcStateS := .idle, transId := transIdNone,
    macRecvTimeout := configWlStdTimeOnAirMs * 1000 }

def stkMTsmInit (tsm : Tsm) : Option Tsm := do
  let tsm ← stkCTsmInit tsm
  return { tsm with
    id := 0, macState := .macIdle, llcStateM := .idle, transId := transIdStart,
    macRecvTimeout := configWlStdTimeOnAirMs * 3 }

def stkMPrepTransId (tsm : Tsm) : Tsm :=
  let transId := tsm.transId + 1
  { tsm with transId := if transId > transIdMax then transIdStart else transId }

end LoraBridge
