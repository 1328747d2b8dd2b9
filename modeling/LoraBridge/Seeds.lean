import LoraBridge.Effects

/-!
# The emulator with its seeds

`env-core.c` with what `Emulator` takes from outside: `devs.seedp`, and `rand_r` as a function from a seed to a value
and the next seed. The time on air is any number of milliseconds. Only `wl_shadow_worker` is changed by this, the other
steps are those of `Emulator`; `wl_get_err_count` is a step of its own.

The loops of `wl_pack_break` may go on for ever, so they get fuel, and a step that runs out of it does not exist. A
`flight` is the record of a packet whose time on air is over: what `wl_shadow_worker_targ` has decided.
-/

set_option autoImplicit false

namespace LoraBridge.Seeded

abbrev Seed := BitVec 32

/-- `devs.seedp` -/
abbrev Seeds := ConnId → Seed

/-- The build options, and `rand_r`. -/
structure WlEnv where
  cfg : WlConfig
  /-- `CONFIG_WL_STD_TIME_ON_AIR_MS` -/
  timeOnAirMs : Nat
  randR : Seed → Draw × Seed

namespace WlEnv

def timeOnAirNs (env : WlEnv) : Nat := env.timeOnAirMs % 1000 * 1000000
def timeOnAirUs (env : WlEnv) : Nat := env.timeOnAirMs % 1000 * 1000
def timeOnAirS (env : WlEnv) : Nat := env.timeOnAirMs / 1000

/-- The packet sent at `sendTime` has arrived when the clock reads `now`. -/
def airDone (env : WlEnv) (sendTime now : Timeval) : Bool :=
  timercmpLe (timeradd sendTime ⟨env.timeOnAirS, env.timeOnAirUs⟩) now

end WlEnv

structure WlSeeded extends WlEmulGlobal where
  seedp : Seeds

def wlEmulEnvInit (g : WlSeeded) : WlSeeded where
  toWlEmulGlobal := LoraBridge.wlEmulEnvInit g.toWlEmulGlobal
  seedp
    | .id0 => 0
    | .id1 => 1

/-- What is decided about a packet: whether it is lost, and which bits are flipped. -/
structure Verdict where
  lost : Bool
  bits : List (BitVec 32)
  deriving DecidableEq

inductive SeedEvent
  | emul (e : WlEvent)
  /-- packet `num` of the side has left the air -/
  | flight (id : ConnId) (num : Nat) (v : Verdict)
  /-- what `wl_get_err_count` returns -/
  | errCount (ret : BitVec 32)
  deriving DecidableEq

/-! ## Random draws -/

section Draws

variable (env : WlEnv) (idSrc : ConnId)

def wlRandPackBit (seedp : Seeds) : BitVec 32 × Seeds :=
  let (draw, seed) := env.randR (seedp idSrc)
  (randPackBit draw, Function.update seedp idSrc seed)

def wlBRand (trueScore : Int) (seedp : Seeds) : Bool × Seeds :=
  let (draw, seed) := env.randR (seedp idSrc)
  (bRand draw trueScore, Function.update seedp idSrc seed)

def wlIsPacketLost (seedp : Seeds) : Bool × Seeds :=
  if env.cfg.losePackets then wlBRand env idSrc env.cfg.losePacketsScore seedp else (false, seedp)

/-- The loops of `wl_pack_break`: at the condition of the outer one, or (`inner`) in the `do … while`. `bits` are those
flipped so far. -/
def wlPackBreakLoop (bitToBreakPrev : BitVec 32) :
    Nat → Bool → Seeds → WlData → BitVec 32 → List (BitVec 32) →
      Option (WlData × BitVec 32 × List (BitVec 32) × Seeds)
  | 0, _, _, _, _, _ => none
  | fuel + 1, true, seedp, pack, ret, bits =>
    let (bitToBreak, seedp) := wlRandPackBit env idSrc seedp
    if bitToBreak = bitToBreakPrev then wlPackBreakLoop bitToBreakPrev fuel true seedp pack ret bits
    else
      wlPackBreakLoop bitToBreakPrev fuel false seedp (wlPackBitFlip bitToBreak pack) (ret + 1) (bits ++ [bitToBreak])
  | fuel + 1, false, seedp, pack, ret, bits =>
    let (more, seedp) := wlBRand env idSrc env.cfg.errDataMultipScore seedp
    if more then wlPackBreakLoop bitToBreakPrev fuel true seedp pack ret bits else some (pack, ret, bits, seedp)

/-- `wl_pack_break`, with the packet it leaves, the number it returns and the bits it has flipped. -/
def wlPackBreak (fuel : Nat) (seedp : Seeds) (pack : WlData) :
    Option (WlData × BitVec 32 × List (BitVec 32) × Seeds) :=
  if env.cfg.errData then
    let (broken, seedp) := wlBRand env idSrc env.cfg.errDataFirstScore seedp
    if broken then
      let (bitToBreakPrev, seedp) := wlRandPackBit env idSrc seedp
      wlPackBreakLoop env idSrc bitToBreakPrev fuel false seedp (wlPackBitFlip bitToBreakPrev pack) 1 [bitToBreakPrev]
    else some (pack, 0, [], seedp)
  else some (pack, 0, [], seedp)

end Draws

/-! ## The shadow worker -/

def wlShadowWorkerTarg (env : WlEnv) (now : Timeval) (fuel : Nat) (idSrc idDst : ConnId) (g : WlSeeded) :
    Option (WlSeeded × List SeedEvent) :=
  let out := (g.dev idSrc).outputBuff
  if out.isSend then some (g, [])
  else if env.airDone out.sendTime now then
    let (lost, seedp) := wlIsPacketLost env idSrc g.seedp
    if lost then
      some (⟨g.setOut idSrc { out with isSend := true }, seedp⟩,
        [.flight idSrc out.num ⟨true, []⟩, .emul (.lost idSrc out.num)])
    else do
      let (data, _, bits, seedp) ← wlPackBreak env idSrc fuel seedp out.sendData
      let devs := g.setOut idSrc { out with sendData := data, isSend := true }
      let inp := (devs.dev idDst).inputBuff
      if inp.isRecieved then
        return (⟨devs.incErr, seedp⟩, [.flight idSrc out.num ⟨false, bits⟩, .emul (.dropped idSrc out.num)])
      else
        let inp := { recvData := wlPackCopy 256 inp.recvData data, isRecieved := true, num := out.num }
        return (⟨devs.setIn idDst inp, seedp⟩, [.flight idSrc out.num ⟨false, bits⟩])
  else some (g, [])

/-- What a step reads from outside: clock readings, and fuel for each side's `wl_pack_break`. -/
structure SeedTick where
  now₀ : Timeval
  now₁ : Timeval
  fuel₀ : Nat
  fuel₁ : Nat
  deriving DecidableEq

def wlShadowWorker (env : WlEnv) (t : SeedTick) (g : WlSeeded) : Option (WlSeeded × List SeedEvent) := do
  let (g, o₀) ← wlShadowWorkerTarg env t.now₀ t.fuel₀ .id0 .id1 g
  let (g, o₁) ← wlShadowWorkerTarg env t.now₁ t.fuel₁ .id1 .id0 g
  let (devs, o₂) := wlShadowWorkerChanelCheck g.toWlEmulGlobal
  return (⟨devs, g.seedp⟩, o₀ ++ o₁ ++ o₂.map .emul)

/-! ## The emulator -/

structure SeedEmul where
  devs : WlSeeded
  pc : ConnId → WlPc

inductive SeedInput
  | call (id : ConnId) (c : WlCall)
  | tick (id : ConnId) (t : SeedTick)
  | errCount
  deriving DecidableEq

/-- The emulator without its seeds. -/
def SeedEmul.plain (s : SeedEmul) : Emul := ⟨s.devs.toWlEmulGlobal, s.pc⟩

/-- A step that leaves the seeds alone. -/
def SeedEmul.withPlain (s : SeedEmul) (r : Emul × List WlEvent) : SeedEmul × List SeedEvent :=
  (⟨⟨r.1.devs, s.devs.seedp⟩, r.1.pc⟩, r.2.map .emul)

/-- The next step of a side: the worker with the seeds where a worker is called, else the step of `Emulator`. -/
def wlStep (env : WlEnv) (s : SeedEmul) (id : ConnId) (t : SeedTick) : Option (SeedEmul × List SeedEvent) :=
  match (s.pc id).worked with
  | some pc => (wlShadowWorker env t s.devs).map fun r => (⟨r.1, Function.update s.pc id pc⟩, r.2)
  | none => (LoraBridge.wlStep env.cfg s.plain id ⟨t.now₀, t.now₁, [], []⟩).map s.withPlain

def seedStep (env : WlEnv) (s : SeedEmul) : SeedInput → Option (SeedEmul × List SeedEvent)
  | .call id c => (emulStep env.cfg s.plain (.call id c)).map s.withPlain
  | .tick id t => wlStep env s id t
  | .errCount => some (s, [.errCount s.devs.err])

/-- The emulator after `wl_emul_env_init`, whatever `devs` was. -/
def seedStart (g : WlSeeded) : SeedEmul := ⟨wlEmulEnvInit g, fun _ => .out⟩

/-! ## Reading a run -/

def SeedEvent.plain : SeedEvent → Option WlEvent
  | .emul e => some e
  | _ => none

/-- The history without flights and error counts. -/
def plainEvents (os : List SeedEvent) : List WlEvent := os.filterMap SeedEvent.plain

/-- The flights of a side. -/
def flightsOf (id : ConnId) (os : List SeedEvent) : List (Nat × Verdict) :=
  os.filterMap fun
    | .flight i num v => if i = id then some (num, v) else none
    | _ => none

def SeedEvent.ofSender (id : ConnId) : SeedEvent → Bool
  | .flight i _ _ => i = id
  | .emul (.put i _ _) => i = id
  | .emul (.overwritten i _) => i = id
  | .emul (.busy i) => i = id
  | _ => false

/-- What has been put, overwritten, counted as busy, or decided about a packet of the side. -/
def senderEvents (id : ConnId) (os : List SeedEvent) : List SeedEvent := os.filter (SeedEvent.ofSender id)

@[simp] theorem senderEvents_append (id : ConnId) (os o : List SeedEvent) :
    senderEvents id (os ++ o) = senderEvents id os ++ senderEvents id o := List.filter_append ..

@[simp] theorem plainEvents_append (os o : List SeedEvent) : plainEvents (os ++ o) = plainEvents os ++ plainEvents o :=
  List.filterMap_append

@[simp] theorem flightsOf_append (id : ConnId) (os o : List SeedEvent) :
    flightsOf id (os ++ o) = flightsOf id os ++ flightsOf id o := List.filterMap_append

@[simp] theorem plainEvents_map (o : List WlEvent) : plainEvents (o.map .emul) = o := by
  induction o with
  | nil => rfl
  | cons x o ih => simpa [plainEvents, SeedEvent.plain] using ih

@[simp] theorem flightsOf_map (id : ConnId) (o : List WlEvent) : flightsOf id (o.map .emul) = [] := by
  induction o with
  | nil => rfl
  | cons x o ih => simp [flightsOf]

end LoraBridge.Seeded
