import LoraBridge.Packet
import LoraBridge.Timer
import LoraBridge.Transducer
import Mathlib.Logic.Function.Basic

/-!
# The channel emulator

`env-core.c`: two sides that share `devs`, each running one library call at a time. A call is cut at its lock-protected
sections, and at the one read of `is_send` outside the lock; `emulStep` lets either side take its next such step. A tick
brings what the step reads from outside: the clock, and the values that `rand_r` returns. A step that needs more random
values than the tick has does not exist, so a `wl_pack_break` that never ends is no step either.

The buffers carry the number of the packet they hold among those their sender has put there; nothing is computed from
it.
-/

set_option autoImplicit false

namespace LoraBridge

def configWlPackConstLen : Nat := 19

/-- The sleep between two looks at the input buffer, in milliseconds. -/
def configWlSleepGranularity : BitVec 32 := 10

/-- `enum conn_id` -/
inductive ConnId
  | id0
  | id1
  deriving DecidableEq, Repr

def ConnId.other : ConnId → ConnId
  | .id0 => .id1
  | .id1 => .id0

/-- `uint8_t [MAX_WL_DATA_LEN]` -/
abbrev WlData := Fin 256 → Byte

structure WlEmulBuffI where
  recvData : WlData
  isRecieved : Bool
  num : Nat

structure WlEmulBuffO where
  sendTime : Timeval
  sendData : WlData
  isSend : Bool
  num : Nat

structure WlEmulSideClient where
  inputBuff : WlEmulBuffI
  outputBuff : WlEmulBuffO

structure WlEmulGlobal where
  dev : ConnId → WlEmulSideClient
  err : BitVec 32
  /-- how many packets the side has put into its output buffer -/
  puts : ConnId → Nat

/-- The build options of the emulator. -/
structure WlConfig where
  losePackets : Bool
  losePacketsScore : Int
  errData : Bool
  errDataFirstScore : Int
  errDataMultipScore : Int

/-- What a call returns. -/
inductive WlRet
  | send
  | avail (ret : Bool)
  /-- zero with the packet, or -1 -/
  | recv (res : Option PackData)
  deriving DecidableEq

/-- The history: `busy`, `empty`, `dropped` and `simultaneous` count an error. -/
inductive WlEvent
  /-- the side has put its packet `num` into its output buffer -/
  | put (id : ConnId) (num : Nat) (data : PackData)
  /-- and so has overwritten its packet `num` -/
  | overwritten (id : ConnId) (num : Nat)
  /-- `wl_is_packet_lost` has discarded packet `num` of the side -/
  | lost (id : ConnId) (num : Nat)
  /-- packet `num` of the side found the input buffer full -/
  | dropped (id : ConnId) (num : Nat)
  /-- a receive of the other side has copied packet `num` of the side, and will return it -/
  | returned (id : ConnId) (num : Nat) (data : PackData)
  /-- packets `num₀` and `num₁` are in the air together -/
  | simultaneous (num₀ num₁ : Nat)
  /-- the side sends while its previous packet is not sent -/
  | busy (id : ConnId)
  /-- the side reads, and nothing has been received -/
  | empty (id : ConnId)
  | ret (id : ConnId) (r : WlRet)
  deriving DecidableEq

/-! ## Buffers and bytes -/

def WlEmulGlobal.setIn (g : WlEmulGlobal) (id : ConnId) (b : WlEmulBuffI) : WlEmulGlobal :=
  { g with dev := Function.update g.dev id { g.dev id with inputBuff := b } }

def WlEmulGlobal.setOut (g : WlEmulGlobal) (id : ConnId) (b : WlEmulBuffO) : WlEmulGlobal :=
  { g with dev := Function.update g.dev id { g.dev id with outputBuff := b } }

/-- `devs.err++` -/
def WlEmulGlobal.incErr (g : WlEmulGlobal) : WlEmulGlobal := { g with err := g.err + 1 }

def wlEmulEnvInit (g : WlEmulGlobal) : WlEmulGlobal where
  dev id :=
    { inputBuff := { (g.dev id).inputBuff with isRecieved := false }
      outputBuff := { (g.dev id).outputBuff with isSend := true } }
  err := 0
  puts _ := 0

/-- `wl_pack_copy`: the first `len` bytes of `dst` become those of `src`. -/
def wlPackCopy (len : Nat) (dst src : WlData) : WlData := fun i => if i.val < len then src i else dst i

/-- The caller's packet as the source of a copy; only its 19 bytes are read. -/
def payloadData (d : PackData) : WlData := fun i => d.toList.getD i.val 0

/-- The caller's packet as the target of a copy of 19 bytes. -/
def packOfData (data : WlData) : PackData := Vector.ofFn fun i => data (i.castLE (by decide))

/-! ## Random draws -/

/-- `RAND_MAX` -/
def randMax : Nat := 2147483647

/-- A value of `rand_r`. -/
abbrev Draw := Fin (randMax + 1)

instance (priority := high) : NeZero (randMax + 1) := ⟨Nat.succ_ne_zero randMax⟩

def randPackBit (draw : Draw) : BitVec 32 := BitVec.ofNat 32 (draw.val / (randMax / (configWlPackConstLen * 8)))

def bRand (draw : Draw) (trueScore : Int) : Bool := ((draw.val / (randMax / 100) : Nat) : Int) < trueScore

/-- `wl_is_packet_lost`, with the draws it leaves. -/
def wlIsPacketLost (cfg : WlConfig) (draws : List Draw) : Option (Bool × List Draw) :=
  if cfg.losePackets then
    match draws with
    | [] => none
    | draw :: draws => some (bRand draw cfg.losePacketsScore, draws)
  else some (false, draws)

def wlPackBitFlip (bit : BitVec 32) (pack : WlData) : WlData :=
  let byteN : Byte := (bit / 8#32).setWidth 8
  let bitN : Byte := (bit % 8#32).setWidth 8
  Function.update pack byteN.toFin (pack byteN.toFin ^^^ (1#8 <<< bitN.toNat))

/-- The loops of `wl_pack_break`: at the condition of the outer one, or (`inner`) in the `do … while` that looks for
another bit than the first. -/
def wlPackBreakLoop (cfg : WlConfig) (bitToBreakPrev : BitVec 32) (inner : Bool) :
    List Draw → WlData → BitVec 32 → Option (WlData × BitVec 32)
  | [], _, _ => none
  | draw :: draws, pack, ret =>
    if inner then
      if randPackBit draw = bitToBreakPrev then wlPackBreakLoop cfg bitToBreakPrev true draws pack ret
      else wlPackBreakLoop cfg bitToBreakPrev false draws (wlPackBitFlip (randPackBit draw) pack) (ret + 1)
    else if bRand draw cfg.errDataMultipScore then wlPackBreakLoop cfg bitToBreakPrev true draws pack ret
    else some (pack, ret)

/-- `wl_pack_break`, with the number of flips it returns. -/
def wlPackBreak (cfg : WlConfig) (draws : List Draw) (pack : WlData) : Option (WlData × BitVec 32) :=
  if cfg.errData then
    match draws with
    | [] => none
    | first :: draws =>
      if bRand first cfg.errDataFirstScore then
        match draws with
        | [] => none
        | draw :: draws =>
          let bitToBreakPrev := randPackBit draw
          wlPackBreakLoop cfg bitToBreakPrev false draws (wlPackBitFlip bitToBreakPrev pack) 1
      else some (pack, 0)
  else some (pack, 0)

/-! ## The shadow worker -/

/-- The time on air of a packet. -/
def wlTimeOnAir : Timeval :=
  ⟨(configWlStdTimeOnAirMs / 1000#32).toNat, (configWlStdTimeOnAirMs % 1000#32).toNat * 1000⟩

/-- The packet sent at `sendTime` has arrived when the clock reads `now`. -/
def wlAirDone (sendTime now : Timeval) : Bool := timercmpLe (timeradd sendTime wlTimeOnAir) now

def wlShadowWorkerTarg (cfg : WlConfig) (now : Timeval) (draws : List Draw) (src dst : ConnId) (g : WlEmulGlobal) :
    Option (WlEmulGlobal × List WlEvent) :=
  let out := (g.dev src).outputBuff
  if out.isSend then some (g, [])
  else if wlAirDone out.sendTime now then do
    let (lost, draws) ← wlIsPacketLost cfg draws
    if lost then return (g.setOut src { out with isSend := true }, [.lost src out.num])
    else
      let (data, _) ← wlPackBreak cfg draws out.sendData
      let g := g.setOut src { out with sendData := data, isSend := true }
      let inp := (g.dev dst).inputBuff
      if inp.isRecieved then return (g.incErr, [.dropped src out.num])
      else
        return (g.setIn dst { recvData := wlPackCopy 256 inp.recvData data, isRecieved := true, num := out.num }, [])
  else some (g, [])

/-- `wl_shadow_worker_chanel_check`, which is all that `wl_shadow_checker` does. -/
def wlShadowWorkerChanelCheck (g : WlEmulGlobal) : WlEmulGlobal × List WlEvent :=
  let out₀ := (g.dev .id0).outputBuff
  let out₁ := (g.dev .id1).outputBuff
  if !out₀.isSend && !out₁.isSend then (g.incErr, [.simultaneous out₀.num out₁.num]) else (g, [])

/-- What a step reads from outside: clock readings, and values of `rand_r` for each side's seed. -/
structure WlTick where
  now₀ : Timeval
  now₁ : Timeval
  draws₀ : List Draw
  draws₁ : List Draw
  deriving DecidableEq

def wlShadowWorker (cfg : WlConfig) (t : WlTick) (g : WlEmulGlobal) : Option (WlEmulGlobal × List WlEvent) := do
  let (g, o₀) ← wlShadowWorkerTarg cfg t.now₀ t.draws₀ .id0 .id1 g
  let (g, o₁) ← wlShadowWorkerTarg cfg t.now₁ t.draws₁ .id1 .id0 g
  let (g, o₂) := wlShadowWorkerChanelCheck g
  return (g, o₀ ++ o₁ ++ o₂)

/-! ## The library calls -/

/-- The arguments and the local variables of `wl_availableData`; `recv` when `wl_receivePacketTimeout` has called it. -/
structure WlWait where
  recv : Bool
  timeout : BitVec 32
  timeSleep : BitVec 32
  deriving DecidableEq

/-- Where a side stands. -/
inductive WlPc
  /-- in no call -/
  | out
  /-- `wl_sendPacketTimeout`, before its first `wl_shadow_worker` -/
  | sendBegin (payload : PackData) (timeout : BitVec 32)
  /-- before it reads `is_send` -/
  | sendTest (payload : PackData) (timeout : BitVec 32)
  /-- before it counts the error -/
  | sendBusy (payload : PackData) (timeout : BitVec 32)
  /-- before it writes the output buffer -/
  | sendPut (payload : PackData) (timeout : BitVec 32)
  /-- asleep, then before the second `wl_shadow_worker` -/
  | sendFlush
  /-- before `wl_shadow_checker` -/
  | sendCheck
  /-- `wl_receivePacketTimeout`, before its `wl_shadow_worker` -/
  | recvBegin (timeout : BitVec 32)
  /-- `wl_is_data`, before its `wl_shadow_worker` -/
  | dataWorker (w : WlWait)
  /-- before it reads `is_recieved` -/
  | dataRead (w : WlWait)
  /-- before `wl_shadow_checker` -/
  | dataCheck (w : WlWait) (ret : Bool)
  /-- `wl_receivePacketTimeout`, before it counts the error -/
  | recvEmpty
  /-- before it copies the packet -/
  | recvCopy
  /-- before `wl_shadow_checker` -/
  | recvCheck (data : PackData)
  deriving DecidableEq

inductive WlCall
  | send (payload : PackData) (timeout : BitVec 32)
  | avail (timeout : BitVec 32)
  | recv (timeout : BitVec 32)
  deriving DecidableEq

def WlCall.enter : WlCall → WlPc
  | .send payload timeout => .sendBegin payload timeout
  | .avail timeout => .dataWorker ⟨false, timeout, 0⟩
  | .recv timeout => .recvBegin timeout

structure Emul where
  devs : WlEmulGlobal
  pc : ConnId → WlPc

inductive WlInput
  | call (id : ConnId) (c : WlCall)
  | tick (id : ConnId) (t : WlTick)
  deriving DecidableEq

/-- The side goes on at `pc`. -/
def Emul.goto (e : Emul) (id : ConnId) (devs : WlEmulGlobal) (pc : WlPc) : Emul :=
  { devs := devs, pc := Function.update e.pc id pc }

/-- Where `wl_availableData` goes after `wl_is_data` has returned `ret`; a result leaves the call. -/
def wlWaitNext (w : WlWait) (ret : Bool) : WlPc × Option WlRet :=
  if ret then if w.recv then (.recvCopy, none) else (.out, some (.avail true))
  else if w.timeout = 0 then if w.recv then (.recvEmpty, none) else (.out, some (.avail false))
  else
    let timeSleep := w.timeSleep + configWlSleepGranularity
    if w.timeout > timeSleep then (.dataWorker { w with timeSleep := timeSleep }, none)
    else if w.recv then (.out, some (.recv none)) else (.out, some (.avail false))

/-- The next step of a side. -/
def wlStep (cfg : WlConfig) (e : Emul) (id : ConnId) (t : WlTick) : Option (Emul × List WlEvent) :=
  let g := e.devs
  let out := (g.dev id).outputBuff
  let inp := (g.dev id).inputBuff
  match e.pc id with
  | .out => none
  | .sendBegin payload timeout => do
    let (g, o) ← wlShadowWorker cfg t g
    return (e.goto id g (.sendTest payload timeout), o)
  | .sendTest payload timeout =>
    return (e.goto id g (if out.isSend then .sendPut payload timeout else .sendBusy payload timeout), [])
  | .sendBusy payload timeout => return (e.goto id g.incErr (.sendPut payload timeout), [.busy id])
  | .sendPut payload timeout => do
    let num := g.puts id
    let data := wlPackCopy configWlPackConstLen out.sendData (payloadData payload)
    let g := g.setOut id { sendTime := t.now₀, sendData := data, isSend := false, num := num }
    let g := { g with puts := Function.update g.puts id (num + 1) }
    let o := if out.isSend then [] else [WlEvent.overwritten id out.num]
    return (e.goto id g (if timeout ≠ 0 then .sendFlush else .sendCheck), o ++ [.put id num payload])
  | .sendFlush => do
    let (g, o) ← wlShadowWorker cfg t g
    return (e.goto id g .sendCheck, o)
  | .sendCheck => do
    let (g, o) := wlShadowWorkerChanelCheck g
    return (e.goto id g .out, o ++ [.ret id .send])
  | .recvBegin timeout => do
    let (g, o) ← wlShadowWorker cfg t g
    return (e.goto id g (.dataWorker ⟨true, timeout, 0⟩), o)
  | .dataWorker w => do
    let (g, o) ← wlShadowWorker cfg t g
    return (e.goto id g (.dataRead w), o)
  | .dataRead w => return (e.goto id g (.dataCheck w inp.isRecieved), [])
  | .dataCheck w ret => do
    let (g, o) := wlShadowWorkerChanelCheck g
    let (pc, r) := wlWaitNext w ret
    return (e.goto id g pc, o ++ (r.map (WlEvent.ret id)).toList)
  | .recvEmpty => return (e.goto id g.incErr .out, [.empty id, .ret id (.recv none)])
  | .recvCopy => do
    let data := packOfData inp.recvData
    let g := g.setIn id { inp with isRecieved := false }
    return (e.goto id g (.recvCheck data), [.returned id.other inp.num data])
  | .recvCheck data => do
    let (g, o) := wlShadowWorkerChanelCheck g
    return (e.goto id g .out, o ++ [.ret id (.recv (some data))])

/-- The emulator with its two sides. -/
def emulStep (cfg : WlConfig) (e : Emul) : WlInput → Option (Emul × List WlEvent)
  | .call id c => if e.pc id = .out then some (e.goto id e.devs c.enter, []) else none
  | .tick id t => wlStep cfg e id t

/-- `static struct wl_emul_global devs = {}` -/
def WlEmulGlobal.zeroed : WlEmulGlobal where
  dev _ :=
    { inputBuff := { recvData := fun _ => 0, isRecieved := false, num := 0 }
      outputBuff := { sendTime := ⟨0, 0⟩, sendData := fun _ => 0, isSend := false, num := 0 } }
  err := 0
  puts _ := 0

/-- The emulator after `wl_emul_env_init`, whatever `devs` was. -/
def emulStart (g : WlEmulGlobal) : Emul := ⟨wlEmulEnvInit g, fun _ => .out⟩

end LoraBridge
