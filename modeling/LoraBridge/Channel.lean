import LoraBridge.Master
import LoraBridge.Turns

/-!
# The two loops over a channel

`netStep` composes the loops of the master and of the slave with a channel: for each direction a packet in the air and
one in the receiver's input buffer. The steps of the loops and of the channel come in any order. The channel may lose a
packet, or damage it so that the checksum fails.
-/

set_option autoImplicit false

namespace LoraBridge

open Transducer

inductive Side
  | master
  | slave
  deriving DecidableEq

def Side.other : Side → Side
  | .master => .slave
  | .slave => .master

structure Net where
  m : Loop LlcStateM
  s : Loop LlcStateS
  /-- sent by the side, on its way -/
  air : Side → Option PackData
  /-- in the input buffer of the side -/
  inbuf : Side → Option PackData

inductive NetInput
  | master (i : Input)
  | slave (i : Input)
  /-- the packet that the side has sent gets lost -/
  | lose (x : Side)
  /-- it becomes `d` -/
  | spoil (x : Side) (d : PackData)
  /-- it arrives -/
  | deliver (x : Side)
  deriving DecidableEq

inductive NetEvent
  | master (e : Event LlcStateM)
  | slave (e : Event LlcStateS)

/-- The input buffer after an input of its side: a successful receive takes the packet that is there. -/
def takes (inbuf : Option PackData) : Input → Option (Option PackData)
  | .received (some d) => if inbuf = some d then some none else none
  | _ => some inbuf

/-- The air after events of the side: a packet handed to the radio is on its way. -/
def puts {σ : Type} (air : Option PackData) (os : List (Event σ)) : Option PackData := (transmitted os).head?.or air

def netStep (n : Net) : NetInput → Option (Net × List NetEvent)
  | .master i => do
    let inbuf ← takes (n.inbuf .master) i
    let (m, o) ← mStep n.m i
    return ({ n with
      m := m, air := Function.update n.air .master (puts (n.air .master) o)
      inbuf := Function.update n.inbuf .master inbuf }, o.map .master)
  | .slave i => do
    let inbuf ← takes (n.inbuf .slave) i
    let (s, o) ← sStep n.s i
    return ({ n with
      s := s, air := Function.update n.air .slave (puts (n.air .slave) o)
      inbuf := Function.update n.inbuf .slave inbuf }, o.map .slave)
  | .lose x => if (n.air x).isSome then some ({ n with air := Function.update n.air x none }, []) else none
  | .spoil x d =>
    if (n.air x).isSome && !stkTestPackChecksumm d then
      some ({ n with air := Function.update n.air x (some d) }, [])
    else none
  | .deliver x =>
    -- a packet that finds the buffer full is dropped
    if (n.air x).isSome then
      some ({ n with
        air := Function.update n.air x none
        inbuf := Function.update n.inbuf x.other ((n.inbuf x.other).or (n.air x)) }, [])
    else none

def netStart (tm ts : Tsm) : Option Net := do
  let m ← mStart tm
  let s ← sStart ts
  return ⟨m, s, fun _ => none, fun _ => none⟩

/-- No packet is queued, in the air, in an input buffer or being processed. -/
def Net.quiet (n : Net) : Bool :=
  !stkMacHasPackToSend n.m.tsm && !stkLlcHasReceivedPack n.m.tsm && !stkMacHasPackToSend n.s.tsm &&
    !stkLlcHasReceivedPack n.s.tsm && n.s.llcState = .idle &&
    [Side.master, .slave].all fun x => (n.air x).isNone && (n.inbuf x).isNone

/-- The master's timer is read as expired only when all is quiet. -/
def QuietTimeout (n : Net) : NetInput → Prop
  | .master (.pass now) => n.m.llcState = .sendAll → stkLlcHasReceivedPack n.m.tsm = false →
      ttTimerIsTimeouted n.m.tsm.llcTimer now = true → n.quiet = true
  | _ => True

instance (n : Net) : ∀ i, Decidable (QuietTimeout n i)
  | .master (.pass now) => inferInstanceAs (Decidable (n.m.llcState = .sendAll →
      stkLlcHasReceivedPack n.m.tsm = false → ttTimerIsTimeouted n.m.tsm.llcTimer now = true → n.quiet = true))
  | .master .call => isTrue trivial
  | .master .sent => isTrue trivial
  | .master (.received _) => isTrue trivial
  | .slave _ => isTrue trivial
  | .lose _ => isTrue trivial
  | .spoil _ _ => isTrue trivial
  | .deliver _ => isTrue trivial

def masterEvents (os : List NetEvent) : List (Event LlcStateM) :=
  os.filterMap fun | .master e => some e | .slave _ => none

def slaveEvents (os : List NetEvent) : List (Event LlcStateS) :=
  os.filterMap fun | .slave e => some e | .master _ => none

/-- The ids of the first `n` transactions. -/
def transactions (n : Nat) : List Byte := (List.range n).map fun k => transIdOf (k + 1)

section Reading

variable (os ps : List NetEvent) (o : List (Event LlcStateM)) (o' : List (Event LlcStateS))

@[simp] theorem masterEvents_append : masterEvents (os ++ ps) = masterEvents os ++ masterEvents ps :=
  List.filterMap_append
@[simp] theorem slaveEvents_append : slaveEvents (os ++ ps) = slaveEvents os ++ slaveEvents ps :=
  List.filterMap_append
@[simp] theorem masterEvents_map : masterEvents (o.map .master) = o := by
  simp [masterEvents, List.filterMap_map]
@[simp] theorem slaveEvents_map : slaveEvents (o'.map .slave) = o' := by
  simp [slaveEvents, List.filterMap_map]
@[simp] theorem slaveEvents_master : slaveEvents (o.map .master) = [] := by
  simp [slaveEvents, List.filterMap_map]
@[simp] theorem masterEvents_slave : masterEvents (o'.map .slave) = [] := by
  simp [masterEvents, List.filterMap_map]

end Reading

theorem transactions_succ (n : Nat) : transactions (n + 1) = transactions n ++ [transIdOf (n + 1)] := by
  simp [transactions, List.range_succ]

/-! ## Transaction ids -/

theorem transIdOf_le (n : Nat) : transIdOf n ≤ transIdMax := by
  have h : ∀ k < 4, BitVec.ofNat 8 k ≤ transIdMax := by decide
  exact h _ (Nat.mod_lt _ (by decide))

theorem transIdOf_ne_none (n : Nat) : transIdOf n ≠ transIdNone := by
  have h : ∀ k < 4, BitVec.ofNat 8 k ≠ transIdNone := by decide
  exact h _ (Nat.mod_lt _ (by decide))

/-- Neighbours differ, also across a wrap. -/
theorem transIdOf_succ_ne (n : Nat) : transIdOf (n + 1) ≠ transIdOf n := by
  have h : ∀ k < 4, BitVec.ofNat 8 ((k + 1) % 4) ≠ BitVec.ofNat 8 k := by decide
  rw [transIdOf, transIdOf, ← Nat.mod_add_mod]
  exact h _ (Nat.mod_lt _ (by decide))

/-- The packet of transaction `n`, in both directions. -/
def frame (n : Nat) : PackData := singleFrame (transIdOf n)

@[simp] theorem stkGetPackType_frame (n : Nat) : stkGetPackType (frame n) = .typeSingle := stkGetPackType_singleFrame _

@[simp] theorem stkGetTransId_frame (n : Nat) : stkGetTransId (frame n) = transIdOf n :=
  stkGetTransId_singleFrame (transIdOf_le n)

end LoraBridge
