import LoraBridge.Corruption
import LoraBridge.Seeds

/-!
# What a worker decides and does

What is decided about a packet that leaves the air is a function of the seed of its side (`verdictFrom`), and so is the
seed that is left. `wl_shadow_worker_targ` draws a verdict when the time on air is over and then lets the packet land
(`wlShadowWorkerTarg_settle`); `wl_shadow_worker` does so for both directions, each drawing from what it had before
(`wlShadowWorker_eq`). `SeedMove` lists the steps of the emulator with its seeds.
-/

set_option autoImplicit false

namespace LoraBridge.Seeded

/-- A packet has arrived when its time on air has passed since `send_time`. -/
theorem airDone_iff {env : WlEnv} {sendTime now : Timeval} (hsent : sendTime.Normal) (hnow : now.Normal) :
    env.airDone sendTime now = true ↔ sendTime.micros + 1000 * env.timeOnAirMs ≤ now.micros := by
  rw [← timeradd_ofMillis_le env.timeOnAirMs hsent hnow]
  simp only [WlEnv.airDone, WlEnv.timeOnAirS, WlEnv.timeOnAirUs, Timeval.ofMillis]
  norm_cast

/-! ## Flights -/

/-- The bits that the loops of `wl_pack_break` flip, and the seed they leave. -/
def flipsFrom (env : WlEnv) (bitToBreakPrev : BitVec 32) : Nat → Bool → Seed → Option (List (BitVec 32) × Seed)
  | 0, _, _ => none
  | fuel + 1, true, seed =>
    let next := env.randR seed
    if randPackBit next.1 = bitToBreakPrev then flipsFrom env bitToBreakPrev fuel true next.2
    else (flipsFrom env bitToBreakPrev fuel false next.2).map fun r => (randPackBit next.1 :: r.1, r.2)
  | fuel + 1, false, seed =>
    let next := env.randR seed
    if bRand next.1 env.cfg.errDataMultipScore then flipsFrom env bitToBreakPrev fuel true next.2
    else some ([], next.2)

/-- The bits that `wl_pack_break` flips, and the seed it leaves. -/
def breakFrom (env : WlEnv) (fuel : Nat) (seed : Seed) : Option (List (BitVec 32) × Seed) :=
  if env.cfg.errData then
    let first := env.randR seed
    if bRand first.1 env.cfg.errDataFirstScore then
      let next := env.randR first.2
      (flipsFrom env (randPackBit next.1) fuel false next.2).map fun r => (randPackBit next.1 :: r.1, r.2)
    else some ([], first.2)
  else some ([], seed)

/-- What is decided about a packet, from the seed of its side alone, and the seed that is left. -/
def verdictFrom (env : WlEnv) (fuel : Nat) (seed : Seed) : Option (Verdict × Seed) :=
  if env.cfg.losePackets then
    let first := env.randR seed
    if bRand first.1 env.cfg.losePacketsScore then some (⟨true, []⟩, first.2)
    else (breakFrom env fuel first.2).map fun r => (⟨false, r.1⟩, r.2)
  else (breakFrom env fuel seed).map fun r => (⟨false, r.1⟩, r.2)

/-- The packet of `src` leaves the air. -/
def land (src : ConnId) (v : Verdict) (g : WlEmulGlobal) : WlEmulGlobal :=
  let out := (g.dev src).outputBuff
  if v.lost then g.setOut src { out with isSend := true }
  else
    let data := flipAll v.bits out.sendData
    let devs := g.setOut src { out with sendData := data, isSend := true }
    if (g.dev src.other).inputBuff.isRecieved then devs.incErr
    else devs.setIn src.other { recvData := data, isRecieved := true, num := out.num }

def landEvents (src : ConnId) (v : Verdict) (g : WlEmulGlobal) : List WlEvent :=
  let num := (g.dev src).outputBuff.num
  if v.lost then [.lost src num] else if (g.dev src.other).inputBuff.isRecieved then [.dropped src num] else []

section Flights

variable {env : WlEnv} {idSrc : ConnId} {prev : BitVec 32} {fuel : Nat} {inner : Bool} {seed seed' : Seed}
  {fs : List (BitVec 32)} {v : Verdict}

theorem wlPackBreakLoop_eq (seedp : Seeds) (pack : WlData) (ret : BitVec 32) (bits : List (BitVec 32)) :
    wlPackBreakLoop env idSrc prev fuel inner seedp pack ret bits =
      (flipsFrom env prev fuel inner (seedp idSrc)).map fun r =>
        (flipAll r.1 pack, ret + BitVec.ofNat 32 r.1.length, bits ++ r.1, Function.update seedp idSrc r.2) := by
  induction fuel generalizing inner seedp pack ret bits with
  | zero => rfl
  | succ fuel ih =>
    cases hdraw : env.randR (seedp idSrc) with
    | mk draw seed =>
      cases inner with
      | true =>
        simp only [wlPackBreakLoop, flipsFrom, wlRandPackBit, hdraw]
        split_ifs with hprev
        · rw [ih, Function.update_self]
          simp only [Function.update_idem]
        · rw [ih, Function.update_self, Option.map_map]
          refine congrArg (Option.map · _) (funext fun r => ?_)
          simp only [Function.comp, Function.update_idem, List.length_cons, ofNat_succ r.1.length, BitVec.add_assoc,
            List.append_assoc, List.singleton_append]
          rfl
      | false =>
        simp only [wlPackBreakLoop, flipsFrom, wlBRand, hdraw]
        split_ifs with hmore
        · rw [ih, Function.update_self]
          simp only [Function.update_idem]
        · simp [flipAll]

theorem wlPackBreak_eq (seedp : Seeds) (pack : WlData) : wlPackBreak env idSrc fuel seedp pack =
    (breakFrom env fuel (seedp idSrc)).map fun r =>
      (flipAll r.1 pack, BitVec.ofNat 32 r.1.length, r.1, Function.update seedp idSrc r.2) := by
  cases hfirst : env.randR (seedp idSrc) with
  | mk first seed₁ =>
    cases hdraw : env.randR seed₁ with
    | mk draw seed₂ =>
      simp only [wlPackBreak, breakFrom, wlBRand, wlRandPackBit, hfirst, Function.update_self, hdraw]
      split_ifs with herr hbroken
      · rw [wlPackBreakLoop_eq, Function.update_self, Option.map_map]
        refine congrArg (Option.map · _) (funext fun r => ?_)
        simp only [Function.comp, Function.update_idem, List.length_cons, ofNat_succ r.1.length, List.singleton_append]
        rfl
      · rfl
      · simp [flipAll]

/-- What `wl_shadow_worker_targ` does with a packet that is not lost. -/
theorem wlPackBreak_land (src : ConnId) (g : WlEmulGlobal) (seedp : Seeds) :
    ((wlPackBreak env src fuel seedp (g.dev src).outputBuff.sendData).bind fun r =>
      let out := (g.dev src).outputBuff
      let devs := g.setOut src { out with sendData := r.1, isSend := true }
      let inp := (devs.dev src.other).inputBuff
      if inp.isRecieved then
        some ((⟨devs.incErr, r.2.2.2⟩ : WlSeeded),
          [SeedEvent.flight src out.num ⟨false, r.2.2.1⟩, .emul (.dropped src out.num)])
      else
        let inp := { recvData := wlPackCopy 256 inp.recvData r.1, isRecieved := true, num := out.num }
        some (⟨devs.setIn src.other inp, r.2.2.2⟩, [.flight src out.num ⟨false, r.2.2.1⟩])) =
      (breakFrom env fuel (seedp src)).map fun r =>
        (⟨land src ⟨false, r.1⟩ g, Function.update seedp src r.2⟩,
          .flight src (g.dev src).outputBuff.num ⟨false, r.1⟩ :: (landEvents src ⟨false, r.1⟩ g).map .emul) := by
  rw [wlPackBreak_eq]
  cases breakFrom env fuel (seedp src) with
  | none => rfl
  | some r =>
    simp only [Option.map_some, Option.bind_some, setOut_inp, wlPackCopy_all, land, landEvents, Bool.false_eq_true,
      if_false]
    split_ifs <;> rfl

/-- **`wl_shadow_worker_targ` in terms of flights.** It draws from the seed of its own side, and nothing else decides
what it draws. -/
theorem wlShadowWorkerTarg_eq (now : Timeval) (src : ConnId) (g : WlSeeded) :
    wlShadowWorkerTarg env now fuel src src.other g =
      if (g.dev src).outputBuff.isSend then some (g, [])
      else if env.airDone (g.dev src).outputBuff.sendTime now then
        (verdictFrom env fuel (g.seedp src)).map fun r =>
          (⟨land src r.1 g.toWlEmulGlobal, Function.update g.seedp src r.2⟩,
            .flight src (g.dev src).outputBuff.num r.1 :: (landEvents src r.1 g.toWlEmulGlobal).map .emul)
      else some (g, []) := by
  unfold wlShadowWorkerTarg
  refine if_congr Iff.rfl rfl (if_congr Iff.rfl ?_ rfl)
  cases hdraw : env.randR (g.seedp src) with
  | mk draw seed₁ =>
    simp only [wlIsPacketLost, wlBRand, verdictFrom, hdraw]
    by_cases hlose : env.cfg.losePackets = true
    · rw [if_pos hlose, if_pos hlose]
      by_cases hlost : bRand draw env.cfg.losePacketsScore = true
      · simp only [hlost, if_true]
        rfl
      · simp only [hlost, Bool.false_eq_true, if_false]
        refine (wlPackBreak_land src g.toWlEmulGlobal _).trans ?_
        rw [Function.update_self, Option.map_map]
        simp only [Function.update_idem]
        rfl
    · rw [if_neg hlose, if_neg hlose, Option.map_map]
      exact wlPackBreak_land src g.toWlEmulGlobal g.seedp

/-! ### The verdict is a function of the seed -/

theorem flipsFrom_more (h : flipsFrom env prev fuel inner seed = some (fs, seed')) (more : Nat) :
    flipsFrom env prev (fuel + more) inner seed = some (fs, seed') := by
  induction fuel generalizing inner seed fs with
  | zero => cases h
  | succ fuel ih =>
    rw [Nat.succ_add]
    cases inner with
    | true =>
      simp only [flipsFrom] at h ⊢
      split_ifs at h ⊢ with hprev
      · exact ih h
      · obtain ⟨⟨fs', seed₁⟩, hrest, heq⟩ := Option.map_eq_some_iff.mp h
        cases heq
        rw [ih hrest]
        rfl
    | false =>
      simp only [flipsFrom] at h ⊢
      split_ifs at h ⊢ with hmore
      · exact ih h
      · exact h

theorem breakFrom_more (h : breakFrom env fuel seed = some (fs, seed')) (more : Nat) :
    breakFrom env (fuel + more) seed = some (fs, seed') := by
  simp only [breakFrom] at h ⊢
  split_ifs at h ⊢ with herr hbroken
  · obtain ⟨⟨fs', seed₁⟩, hrest, heq⟩ := Option.map_eq_some_iff.mp h
    rw [flipsFrom_more hrest]
    exact congrArg some heq
  · exact h
  · exact h

theorem verdictFrom_more (h : verdictFrom env fuel seed = some (v, seed')) (more : Nat) :
    verdictFrom env (fuel + more) seed = some (v, seed') := by
  have hbreak : ∀ {seed₁}, (breakFrom env fuel seed₁).map (fun r => ((⟨false, r.1⟩ : Verdict), r.2)) = some (v, seed') →
      (breakFrom env (fuel + more) seed₁).map (fun r => ((⟨false, r.1⟩ : Verdict), r.2)) = some (v, seed') := by
    intro seed₁ hmap
    obtain ⟨⟨fs, seed₂⟩, hrest, heq⟩ := Option.map_eq_some_iff.mp hmap
    rw [breakFrom_more hrest]
    exact congrArg some heq
  simp only [verdictFrom] at h ⊢
  split_ifs at h ⊢ with hlose hlost
  · exact h
  · exact hbreak h
  · exact hbreak h

/-- The fuel does not decide anything. -/
theorem verdictFrom_agree {fuel₁ fuel₂ : Nat} {v₁ v₂ : Verdict} {seed₁ seed₂ : Seed}
    (h₁ : verdictFrom env fuel₁ seed = some (v₁, seed₁)) (h₂ : verdictFrom env fuel₂ seed = some (v₂, seed₂)) :
    v₁ = v₂ ∧ seed₁ = seed₂ := by
  have hmore₁ := verdictFrom_more h₁ fuel₂
  have hmore₂ := verdictFrom_more h₂ fuel₁
  rw [Nat.add_comm, hmore₁] at hmore₂
  exact Prod.mk.inj (Option.some.inj hmore₂)

end Flights

/-! ### Landing -/

section Land

variable (src : ConnId) (v : Verdict) (g : WlEmulGlobal)

/-- The bytes of the packet when it has left the air. -/
def landData : WlData :=
  if v.lost then (g.dev src).outputBuff.sendData else flipAll v.bits (g.dev src).outputBuff.sendData

/-- The packet finds the input buffer full. -/
def landFull : Bool := !v.lost && (g.dev src.other).inputBuff.isRecieved

/-- The packet gets into the input buffer. -/
def landFree : Bool := !v.lost && !(g.dev src.other).inputBuff.isRecieved

theorem land_out : ((land src v g).dev src).outputBuff =
    { (g.dev src).outputBuff with sendData := landData src v g, isSend := true } := by
  simp only [land, landData]
  split_ifs <;> simp

theorem land_out_other : ((land src v g).dev src.other).outputBuff = (g.dev src.other).outputBuff := by
  have hne := setOut_out_of_ne g src (j := src.other)
  simp only [land]
  split_ifs <;> simp [hne]

theorem land_inp : ((land src v g).dev src).inputBuff = (g.dev src).inputBuff := by
  have hne := fun b => setIn_inp_of_ne (g.setOut src b) src.other (j := src)
  simp only [land]
  split_ifs <;> simp [hne]

/-- The input buffer that the packet gets to, afterwards. -/
def landInp : WlEmulBuffI :=
  if landFree src v g then
    { recvData := landData src v g, isRecieved := true, num := (g.dev src).outputBuff.num }
  else (g.dev src.other).inputBuff

theorem land_inp_other : ((land src v g).dev src.other).inputBuff = landInp src v g := by
  cases hlost : v.lost <;> cases hfull : (g.dev src.other).inputBuff.isRecieved <;>
    simp [land, landInp, landFree, landData, hlost, hfull]

theorem land_err : (land src v g).err = g.err + if landFull src v g then 1 else 0 := by
  cases hlost : v.lost <;> cases hfull : (g.dev src.other).inputBuff.isRecieved <;>
    simp [land, landFull, hlost, hfull]

/-- The buffers of a direction are not those of the other one. -/
theorem land_other_out : ((land src.other v g).dev src).outputBuff = (g.dev src).outputBuff := by
  simpa using land_out_other src.other v g

theorem land_puts : (land src v g).puts = g.puts := by
  simp only [land]
  split_ifs <;> rfl

end Land

/-- The end of `wl_shadow_worker_targ`: with a verdict on the packet in the air, and the seed that is left. -/
def settle (src : ConnId) (g : WlSeeded) : Option (Verdict × Seed) → WlSeeded
  | none => g
  | some r => ⟨land src r.1 g.toWlEmulGlobal, Function.update g.seedp src r.2⟩

/-- What `wl_shadow_worker_targ` draws for the packet in an output buffer, if its time on air is over. -/
def drawFor (env : WlEnv) (now : Timeval) (fuel : Nat) (out : WlEmulBuffO) (seed : Seed) :
    Option (Option (Verdict × Seed)) :=
  if !out.isSend && env.airDone out.sendTime now then (verdictFrom env fuel seed).map some else some none

/-- What `wl_shadow_worker_targ` reports. -/
def settleEvents (src : ConnId) (g : WlSeeded) : Option (Verdict × Seed) → List SeedEvent
  | none => []
  | some r => .flight src (g.dev src).outputBuff.num r.1 :: (landEvents src r.1 g.toWlEmulGlobal).map .emul

/-- The buffer and the seed of its own side decide what `wl_shadow_worker_targ` draws. -/
theorem wlShadowWorkerTarg_settle (env : WlEnv) (now : Timeval) (fuel : Nat) (src : ConnId) (g : WlSeeded) :
    wlShadowWorkerTarg env now fuel src src.other g =
      (drawFor env now fuel (g.dev src).outputBuff (g.seedp src)).map fun r =>
        (settle src g r, settleEvents src g r) := by
  rw [wlShadowWorkerTarg_eq, drawFor]
  cases hsend : (g.dev src).outputBuff.isSend with
  | true => rfl
  | false =>
    cases hair : env.airDone (g.dev src).outputBuff.sendTime now with
    | true => simp [Option.map_map, Function.comp_def, settle, settleEvents]
    | false => rfl

section Settle

variable (src : ConnId) (g : WlSeeded) (r : Option (Verdict × Seed))

theorem settle_out_other : ((settle src g r).dev src.other).outputBuff = (g.dev src.other).outputBuff := by
  cases r with
  | none => rfl
  | some r => exact land_out_other src r.1 g.toWlEmulGlobal

theorem settle_inp : ((settle src g r).dev src).inputBuff = (g.dev src).inputBuff := by
  cases r with
  | none => rfl
  | some r => exact land_inp src r.1 g.toWlEmulGlobal

theorem settle_seedp_other : (settle src g r).seedp src.other = g.seedp src.other := by
  cases r with
  | none => rfl
  | some r => exact Function.update_of_ne (ConnId.other_ne src) ..

end Settle

/-- The end of `wl_shadow_worker`, as what the two directions draw decides. -/
def settleBoth (g : WlSeeded) (r₀ r₁ : Option (Verdict × Seed)) : WlSeeded × List SeedEvent :=
  let g₀ := settle .id0 g r₀
  let g₁ := settle .id1 g₀ r₁
  let check := wlShadowWorkerChanelCheck g₁.toWlEmulGlobal
  (⟨check.1, g₁.seedp⟩, settleEvents .id0 g r₀ ++ settleEvents .id1 g₀ r₁ ++ check.2.map .emul)

/-- The two directions draw from what they have before. -/
theorem wlShadowWorker_eq (env : WlEnv) (t : SeedTick) (g : WlSeeded) : wlShadowWorker env t g =
    (drawFor env t.now₀ t.fuel₀ (g.dev .id0).outputBuff (g.seedp .id0)).bind fun r₀ =>
      (drawFor env t.now₁ t.fuel₁ (g.dev .id1).outputBuff (g.seedp .id1)).map fun r₁ => settleBoth g r₀ r₁ := by
  have h₀ : wlShadowWorkerTarg env t.now₀ t.fuel₀ .id0 .id1 g = _ := wlShadowWorkerTarg_settle env _ _ .id0 g
  have h₁ : ∀ g : WlSeeded, wlShadowWorkerTarg env t.now₁ t.fuel₁ .id1 .id0 g = _ :=
    wlShadowWorkerTarg_settle env _ _ .id1
  have hout : ∀ r, ((settle .id0 g r).dev .id1).outputBuff = (g.dev .id1).outputBuff := settle_out_other .id0 g
  have hseedp : ∀ r, (settle .id0 g r).seedp .id1 = g.seedp .id1 := settle_seedp_other .id0 g
  unfold wlShadowWorker
  rw [h₀]
  cases drawFor env t.now₀ t.fuel₀ (g.dev .id0).outputBuff (g.seedp .id0) with
  | none => rfl
  | some r₀ =>
    simp only [Option.map_some, Option.bind_eq_bind, Option.bind_some, h₁, hout, hseedp]
    cases drawFor env t.now₁ t.fuel₁ (g.dev .id1).outputBuff (g.seedp .id1) <;> rfl

theorem wlShadowWorker_settle {env : WlEnv} {t : SeedTick} {g g' : WlSeeded} {o : List SeedEvent}
    (h : wlShadowWorker env t g = some (g', o)) :
    ∃ r₀ r₁, drawFor env t.now₀ t.fuel₀ (g.dev .id0).outputBuff (g.seedp .id0) = some r₀ ∧
      drawFor env t.now₁ t.fuel₁ (g.dev .id1).outputBuff (g.seedp .id1) = some r₁ ∧ (g', o) = settleBoth g r₀ r₁ := by
  rw [wlShadowWorker_eq, Option.bind_eq_some_iff] at h
  obtain ⟨r₀, h₀, hrest⟩ := h
  obtain ⟨r₁, h₁, heq⟩ := Option.map_eq_some_iff.mp hrest
  exact ⟨r₀, r₁, h₀, h₁, heq.symm⟩

/-! ### One side -/

/-- The reading with which the worker looks at a side's packet. -/
def SeedTick.now (t : SeedTick) : ConnId → Timeval
  | .id0 => t.now₀
  | .id1 => t.now₁

/-- The fuel for its `wl_pack_break`. -/
def SeedTick.fuel (t : SeedTick) : ConnId → Nat
  | .id0 => t.fuel₀
  | .id1 => t.fuel₁

theorem senderEvents_land (id src : ConnId) (v : Verdict) (g : WlEmulGlobal) :
    senderEvents id ((landEvents src v g).map .emul) = [] := by
  unfold landEvents
  dsimp only
  split_ifs <;> rfl

theorem senderEvents_check (id : ConnId) (g : WlEmulGlobal) :
    senderEvents id ((wlShadowWorkerChanelCheck g).2.map .emul) = [] := by
  rcases chanelCheck_cases g with ⟨-, -, hc⟩ | ⟨-, hc⟩ <;> rw [hc] <;> rfl

theorem senderEvents_settle_other (src : ConnId) (g : WlSeeded) (r : Option (Verdict × Seed)) :
    senderEvents src.other (settleEvents src g r) = [] := by
  cases r with
  | none => rfl
  | some r =>
    have hland := senderEvents_land src.other src r.1 g.toWlEmulGlobal
    simpa [settleEvents, senderEvents, SeedEvent.ofSender] using hland

theorem senderEvents_settle (src : ConnId) (g : WlSeeded) (r : Verdict × Seed) :
    senderEvents src (settleEvents src g (some r)) = [.flight src (g.dev src).outputBuff.num r.1] := by
  have hland := senderEvents_land src src r.1 g.toWlEmulGlobal
  simpa [settleEvents, senderEvents, SeedEvent.ofSender] using hland

/-- The output buffer after a call is made of the one before. -/
theorem settle_out_congr {src : ConnId} {g₁ g₂ : WlSeeded} (hout : (g₁.dev src).outputBuff = (g₂.dev src).outputBuff)
    (r : Option (Verdict × Seed)) :
    ((settle src g₁ r).dev src).outputBuff = ((settle src g₂ r).dev src).outputBuff := by
  cases r with
  | none => exact hout
  | some r => rw [settle, settle, land_out, land_out, landData, landData, hout]

/-- So is the input buffer that its packet gets to. -/
theorem settle_inp_congr {src : ConnId} {g₁ g₂ : WlSeeded} (hout : (g₁.dev src).outputBuff = (g₂.dev src).outputBuff)
    (hinp : (g₁.dev src.other).inputBuff = (g₂.dev src.other).inputBuff) (r : Option (Verdict × Seed)) :
    ((settle src g₁ r).dev src.other).inputBuff = ((settle src g₂ r).dev src.other).inputBuff := by
  cases r with
  | none => exact hinp
  | some r =>
    rw [settle, settle, land_inp_other, land_inp_other, landInp, landInp, landFree, landFree, landData, landData, hout,
      hinp]

/-- **What a worker does to one side** is what the side's own direction does. -/
theorem wlShadowWorker_side {env : WlEnv} {t : SeedTick} {g g' : WlSeeded} {o : List SeedEvent}
    (h : wlShadowWorker env t g = some (g', o)) (id : ConnId) :
    ∃ r, drawFor env (t.now id) (t.fuel id) (g.dev id).outputBuff (g.seedp id) = some r ∧
      (g'.dev id).outputBuff = ((settle id g r).dev id).outputBuff ∧ g'.seedp id = (settle id g r).seedp id ∧
      senderEvents id o = senderEvents id (settleEvents id g r) ∧
      (g'.dev id.other).inputBuff = ((settle id g r).dev id.other).inputBuff := by
  obtain ⟨r₀, r₁, h₀, h₁, heq⟩ := wlShadowWorker_settle h
  cases heq
  have hdev := chanelCheck_dev (settle .id1 (settle .id0 g r₀) r₁).toWlEmulGlobal
  have hcheck := fun id => senderEvents_check id (settle .id1 (settle .id0 g r₀) r₁).toWlEmulGlobal
  cases id with
  | id0 =>
    have hnone : senderEvents .id0 (settleEvents .id1 (settle .id0 g r₀) r₁) = [] := senderEvents_settle_other .id1 _ r₁
    refine ⟨r₀, h₀, ?_, settle_seedp_other .id1 _ r₁, ?_, ?_⟩
    · simp only [hdev]
      exact settle_out_other .id1 _ r₁
    · rw [senderEvents_append, senderEvents_append, hnone, hcheck, List.append_nil, List.append_nil]
    · simp only [hdev]
      exact settle_inp .id1 _ r₁
  | id1 =>
    have hnone : senderEvents .id1 (settleEvents .id0 g r₀) = [] := senderEvents_settle_other .id0 g r₀
    have hout : ((settle .id0 g r₀).dev .id1).outputBuff = (g.dev .id1).outputBuff := settle_out_other .id0 g r₀
    have hseedp : (settle .id0 g r₀).seedp .id1 = g.seedp .id1 := settle_seedp_other .id0 g r₀
    refine ⟨r₁, h₁, ?_, ?_, ?_, ?_⟩
    · simp only [hdev]
      exact settle_out_congr hout r₁
    · cases r₁ with
      | none => exact hseedp
      | some r => simp [settle]
    · rw [senderEvents_append, senderEvents_append, hnone, hcheck, List.append_nil, List.nil_append]
      cases r₁ with
      | none => rfl
      | some r => rw [senderEvents_settle, senderEvents_settle, hout]
    · simp only [hdev]
      exact settle_inp_congr hout (settle_inp .id0 g r₀) r₁

/-! ## Steps -/

/-- A step is one of a worker, one of `Emulator` that calls no worker, or a read of the error count. -/
inductive SeedMove (env : WlEnv) (s : SeedEmul) : SeedInput → SeedEmul → List SeedEvent → Prop
  | call {id : ConnId} {c : WlCall} {e : Emul} {o : List WlEvent} :
      emulStep env.cfg s.plain (.call id c) = some (e, o) →
      SeedMove env s (.call id c) ⟨⟨e.devs, s.devs.seedp⟩, e.pc⟩ (o.map .emul)
  | work {id : ConnId} {t : SeedTick} {pc : WlPc} {g : WlSeeded} {o : List SeedEvent} :
      (s.pc id).worked = some pc → wlShadowWorker env t s.devs = some (g, o) →
      SeedMove env s (.tick id t) ⟨g, Function.update s.pc id pc⟩ o
  | plain {id : ConnId} {t : SeedTick} {e : Emul} {o : List WlEvent} : (s.pc id).worked = none →
      emulStep env.cfg s.plain (.tick id ⟨t.now₀, t.now₁, [], []⟩) = some (e, o) →
      SeedMove env s (.tick id t) ⟨⟨e.devs, s.devs.seedp⟩, e.pc⟩ (o.map .emul)
  | errCount : SeedMove env s .errCount s [.errCount s.devs.err]

theorem seedStep_move {env : WlEnv} {s s' : SeedEmul} {i : SeedInput} {o : List SeedEvent}
    (h : seedStep env s i = some (s', o)) : SeedMove env s i s' o := by
  cases i with
  | call id c =>
    obtain ⟨⟨e, oe⟩, hs, heq⟩ := Option.map_eq_some_iff.mp h
    cases heq
    exact .call hs
  | tick id t =>
    simp only [seedStep, wlStep] at h
    cases hpc : (s.pc id).worked with
    | none =>
      rw [hpc] at h
      obtain ⟨⟨e, oe⟩, hs, heq⟩ := Option.map_eq_some_iff.mp h
      cases heq
      exact .plain hpc hs
    | some pc =>
      rw [hpc] at h
      obtain ⟨⟨g, og⟩, hs, heq⟩ := Option.map_eq_some_iff.mp h
      cases heq
      exact .work hpc hs
  | errCount =>
    cases h
    exact .errCount

end LoraBridge.Seeded
