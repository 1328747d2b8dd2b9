import LoraBridge.Channel
import LoraBridge.Flight

/-!
# The stack over the emulator

The two loops and the emulator of `env-core.c` as one program. A loop that comes to its radio call enters that call for
its side, and goes on when the call has returned; in between the emulator steps for the side. All these steps come in
any order.
-/

set_option autoImplicit false

namespace LoraBridge

/-- `STK_SEND_TIMEOUT` -/
def stkSendTimeout : BitVec 32 := configWlStdTimeOnAirMs * 2

/-- The index into `devs.dev`. -/
def connId (id : Byte) : Option ConnId :=
  if id = 0 then some .id0 else if id = 1 then some .id1 else none

structure System where
  m : Loop LlcStateM
  s : Loop LlcStateS
  emul : Emul
  /-- what the call of the side has returned, until its loop goes on -/
  ret : ConnId → Option WlRet

inductive SystemInput
  | master (i : Input)
  | slave (i : Input)
  /-- the next step of the side in its radio call -/
  | tick (id : ConnId) (t : WlTick)
  deriving DecidableEq

inductive SystemEvent
  | master (e : Event LlcStateM)
  | slave (e : Event LlcStateS)
  | emul (e : WlEvent)

section Radio

variable {σ : Type}

/-- The radio call that the loop has come to. -/
def radioCall (l : Loop σ) (o : List (Event σ)) : Option WlCall :=
  match l.pc with
  | .sending => (transmitted o).head?.map fun d => .send d stkSendTimeout
  | .receiving _ => some (.recv l.tsm.macRecvTimeout)
  | _ => none

/-- What the loop sees of a return. -/
def WlRet.input : WlRet → Option Input
  | .send => some .sent
  | .avail _ => none
  | .recv res => some (.received res)

/-- The emulator's part in a step of a loop: `l` and `o` are the loop after it, and its events. -/
def System.radio (cfg : WlConfig) (n : System) (l : Loop σ) (o : List (Event σ)) (i : Input) : Option System := do
  let id ← connId l.tsm.id
  match i with
  | .pass _ => return n
  | .call => do
    let c ← radioCall l o
    let (e, _) ← emulStep cfg n.emul (.call id c)
    return { n with emul := e }
  | _ => if (n.ret id).bind WlRet.input = some i then return { n with ret := Function.update n.ret id none } else none

/-- The returns after the events of a step. -/
def setReturned (ret : ConnId → Option WlRet) (o : List WlEvent) : ConnId → Option WlRet :=
  (returned o).foldl (fun ret r => Function.update ret r.1 (some r.2)) ret

end Radio

def systemStep (cfg : WlConfig) (n : System) : SystemInput → Option (System × List SystemEvent)
  | .master i => do
    let (m, o) ← mStep n.m i
    let n ← n.radio cfg m o i
    return ({ n with m := m }, o.map .master)
  | .slave i => do
    let (s, o) ← sStep n.s i
    let n ← n.radio cfg s o i
    return ({ n with s := s }, o.map .slave)
  | .tick id t => do
    let (e, o) ← emulStep cfg n.emul (.tick id t)
    return ({ n with emul := e, ret := setReturned n.ret o }, o.map .emul)

/-- Both loops at their first pass, the emulator after `wl_emul_env_init`. -/
def systemStart (tm ts : Tsm) (g : WlEmulGlobal) : Option System := do
  let m ← mStart tm
  let s ← sStart ts
  return ⟨m, s, emulStart g, fun _ => none⟩

/-! ## The timer -/

/-- No packet is in a send queue, an output buffer, an input buffer or a receive queue, and the slave is idle. -/
def System.quiet (n : System) : Bool :=
  !stkMacHasPackToSend n.m.tsm && !stkLlcHasReceivedPack n.m.tsm && !stkMacHasPackToSend n.s.tsm &&
    !stkLlcHasReceivedPack n.s.tsm && n.s.llcState = .idle &&
    [ConnId.id0, .id1].all fun id =>
      (n.emul.devs.dev id).outputBuff.isSend && !(n.emul.devs.dev id).inputBuff.isRecieved

/-- The slave's receive has copied a packet that is not in the receive queue yet. -/
def System.copied (n : System) : Bool :=
  (match n.emul.pc .id1 with
    | .recvCheck _ => true
    | _ => false) ||
  (match n.ret .id1 with
    | some (.recv (some _)) => true
    | _ => false)

/-- No packet is anywhere. -/
def System.still (n : System) : Bool := n.quiet && !n.copied

/-- The master's timer is read as expired only in states in which `Q` holds. -/
def ExpiresWhen (Q : System → Bool) (n : System) : SystemInput → Prop
  | .master (.pass now) => n.m.llcState = .sendAll → stkLlcHasReceivedPack n.m.tsm = false →
      ttTimerIsTimeouted n.m.tsm.llcTimer now = true → Q n = true
  | _ => True

instance (Q : System → Bool) (n : System) : ∀ i, Decidable (ExpiresWhen Q n i)
  | .master (.pass now) => inferInstanceAs (Decidable (n.m.llcState = .sendAll →
      stkLlcHasReceivedPack n.m.tsm = false → ttTimerIsTimeouted n.m.tsm.llcTimer now = true → Q n = true))
  | .master .call => isTrue trivial
  | .master .sent => isTrue trivial
  | .master (.received _) => isTrue trivial
  | .slave _ => isTrue trivial
  | .tick _ _ => isTrue trivial

/-! ## Packets -/

def retPackets (ret : Option WlRet) : Nat := (ret.map WlRet.packets).getD 0

/-- The packets that the emulator has, or has returned to a loop that has not gone on yet. -/
def System.flight (n : System) : Nat := n.emul.flight + (retPackets (n.ret .id0) + retPackets (n.ret .id1))

/-- The packets in the queues of a loop, which are the lists `c`. The one that is being sent is in flight. -/
def Loop.queued {σ : Type} (l : Loop σ) (c : Lists) : Nat :=
  (if l.pc = .sending then 0 else c.sendList.length) + c.recvList.length

/-- All packets, when the queues are the lists `cm` and `cs`. -/
def System.packets (n : System) (cm cs : Lists) : Nat := n.m.queued cm + n.s.queued cs + n.flight

end LoraBridge
