import LoraBridge.Landing

/-!
# Faults are reproducible

What happens to the `k`-th flight of a side is a function of the seeds that `wl_emul_env_init` sets: no schedule, clock,
payload or traffic of the other side changes it. Nor does it matter in which order the two directions are looked at.
-/

set_option autoImplicit false

namespace LoraBridge.Seeded

open Transducer

variable {env : WlEnv} {s s' : SeedEmul} {os o : List SeedEvent}

/-! ## The two directions -/

section Directions

variable (src : ConnId) (v w : Verdict) (g : WlEmulGlobal)

theorem devs_ext {g g' : WlEmulGlobal} (hout : ∀ j, (g.dev j).outputBuff = (g'.dev j).outputBuff)
    (hinp : ∀ j, (g.dev j).inputBuff = (g'.dev j).inputBuff) (herr : g.err = g'.err) (hputs : g.puts = g'.puts) :
    g = g' := by
  have hdev : g.dev = g'.dev := by
    funext j
    have hj := hout j
    have hj' := hinp j
    cases hg : g.dev j
    cases hg' : g'.dev j
    rw [hg, hg'] at hj hj'
    cases hj
    cases hj'
    rfl
  cases g
  cases g'
  cases hdev
  cases herr
  cases hputs
  rfl

theorem landData_other : landData src v (land src.other w g) = landData src v g := by
  rw [landData, landData, land_other_out]

theorem landFull_other : landFull src v (land src.other w g) = landFull src v g := by
  rw [landFull, landFull, land_inp]

theorem landInp_other : landInp src v (land src.other w g) = landInp src v g := by
  rw [landInp, landInp, landFree, landFree, landData_other, land_inp, land_other_out]

theorem land_comm : land .id1 w (land .id0 v g) = land .id0 v (land .id1 w g) := by
  have hinp₀ : ∀ g, ((land .id1 w g).dev .id0).inputBuff = landInp .id1 w g := land_inp_other .id1 w
  have hinp₁ : ∀ g, ((land .id0 v g).dev .id1).inputBuff = landInp .id0 v g := land_inp_other .id0 v
  have hout₀ : ∀ g, ((land .id1 w g).dev .id0).outputBuff = (g.dev .id0).outputBuff := land_other_out .id0 w
  have hout₁ : ∀ g, ((land .id0 v g).dev .id1).outputBuff = (g.dev .id1).outputBuff := land_other_out .id1 v
  have hdata₀ : landData .id0 v (land .id1 w g) = landData .id0 v g := landData_other .id0 v w g
  have hdata₁ : landData .id1 w (land .id0 v g) = landData .id1 w g := landData_other .id1 w v g
  have hland₀ : landInp .id0 v (land .id1 w g) = landInp .id0 v g := landInp_other .id0 v w g
  have hland₁ : landInp .id1 w (land .id0 v g) = landInp .id1 w g := landInp_other .id1 w v g
  have hfull₀ : landFull .id0 v (land .id1 w g) = landFull .id0 v g := landFull_other .id0 v w g
  have hfull₁ : landFull .id1 w (land .id0 v g) = landFull .id1 w g := landFull_other .id1 w v g
  refine devs_ext (fun j => ?_) (fun j => ?_) ?_ ?_
  · cases j with
    | id0 => rw [hout₀, land_out, land_out, hdata₀, hout₀]
    | id1 => rw [hout₁, land_out, land_out, hdata₁, hout₁]
  · cases j with
    | id0 => rw [hinp₀, land_inp, hinp₀, hland₁]
    | id1 => rw [hinp₁, land_inp, hinp₁, hland₀]
  · rw [land_err, land_err, land_err, land_err, hfull₀, hfull₁, BitVec.add_assoc, BitVec.add_assoc]
    exact congrArg _ (BitVec.add_comm ..)
  · rw [land_puts, land_puts, land_puts, land_puts]

end Directions

theorem settle_comm (g : WlSeeded) (r q : Option (Verdict × Seed)) :
    settle .id1 (settle .id0 g r) q = settle .id0 (settle .id1 g q) r := by
  cases r with
  | none => rfl
  | some r =>
    cases q with
    | none => rfl
    | some q =>
      simp only [settle, WlSeeded.mk.injEq]
      exact ⟨land_comm r.1 q.1 g.toWlEmulGlobal, Function.update_comm (by decide) ..⟩

/-- The two calls of `wl_shadow_worker` commute. -/
theorem wlShadowWorkerTarg_comm (env : WlEnv) (now₀ now₁ : Timeval) (fuel₀ fuel₁ : Nat) (g : WlSeeded) :
    (wlShadowWorkerTarg env now₀ fuel₀ .id0 .id1 g).bind
        (fun r => (wlShadowWorkerTarg env now₁ fuel₁ .id1 .id0 r.1).map Prod.fst) =
      (wlShadowWorkerTarg env now₁ fuel₁ .id1 .id0 g).bind
        fun r => (wlShadowWorkerTarg env now₀ fuel₀ .id0 .id1 r.1).map Prod.fst := by
  have h₀ : ∀ g : WlSeeded, wlShadowWorkerTarg env now₀ fuel₀ .id0 .id1 g = _ :=
    wlShadowWorkerTarg_settle env now₀ fuel₀ .id0
  have h₁ : ∀ g : WlSeeded, wlShadowWorkerTarg env now₁ fuel₁ .id1 .id0 g = _ :=
    wlShadowWorkerTarg_settle env now₁ fuel₁ .id1
  have hother₀ : ∀ r, drawFor env now₁ fuel₁ ((settle .id0 g r).dev .id1).outputBuff ((settle .id0 g r).seedp .id1) =
      drawFor env now₁ fuel₁ (g.dev .id1).outputBuff (g.seedp .id1) := fun r =>
    congrArg₂ _ (settle_out_other .id0 g r) (settle_seedp_other .id0 g r)
  have hother₁ : ∀ r, drawFor env now₀ fuel₀ ((settle .id1 g r).dev .id0).outputBuff ((settle .id1 g r).seedp .id0) =
      drawFor env now₀ fuel₀ (g.dev .id0).outputBuff (g.seedp .id0) := fun r =>
    congrArg₂ _ (settle_out_other .id1 g r) (settle_seedp_other .id1 g r)
  simp only [h₀, h₁, Option.bind_map, Option.map_map, Function.comp_def, hother₀, hother₁]
  cases drawFor env now₀ fuel₀ (g.dev .id0).outputBuff (g.seedp .id0) with
  | none => cases drawFor env now₁ fuel₁ (g.dev .id1).outputBuff (g.seedp .id1) <;> rfl
  | some r =>
    cases drawFor env now₁ fuel₁ (g.dev .id1).outputBuff (g.seedp .id1) with
    | none => rfl
    | some q => exact congrArg some (settle_comm g r q)

/-! ## Flights -/

/-- A flight draws this verdict from the seed. -/
def Flies (env : WlEnv) (seed : Seed) (v : Verdict) (seed' : Seed) : Prop :=
  ∃ fuel, verdictFrom env fuel seed = some (v, seed')

theorem Flies.det {seed seed₁ seed₂ : Seed} {v₁ v₂ : Verdict} (h₁ : Flies env seed v₁ seed₁)
    (h₂ : Flies env seed v₂ seed₂) : v₁ = v₂ ∧ seed₁ = seed₂ := by
  obtain ⟨fuel₁, h₁⟩ := h₁
  obtain ⟨fuel₂, h₂⟩ := h₂
  exact verdictFrom_agree h₁ h₂

/-- What has been decided about the packets of a side. -/
def verdictsOf (id : ConnId) (os : List SeedEvent) : List Verdict := (flightsOf id os).map Prod.snd

@[simp] theorem verdictsOf_append (id : ConnId) (os o : List SeedEvent) :
    verdictsOf id (os ++ o) = verdictsOf id os ++ verdictsOf id o := by
  simp [verdictsOf]

theorem drawFor_flies {now : Timeval} {fuel : Nat} {src : ConnId} {g : WlSeeded} {r : Option (Verdict × Seed)}
    (h : drawFor env now fuel (g.dev src).outputBuff (g.seedp src) = some r) :
    Drawn (Flies env) (g.seedp src) (verdictsOf src (settleEvents src g r)) ((settle src g r).seedp src) := by
  unfold drawFor at h
  split_ifs at h with hdone
  · obtain ⟨⟨v, seed⟩, hverdict, rfl⟩ := Option.map_eq_some_iff.mp h
    have hevents : verdictsOf src (settleEvents src g (some (v, seed))) = [v] := by
      simp [verdictsOf, settleEvents, flightsOf]
    have hseed : (settle src g (some (v, seed))).seedp src = seed := by simp [settle]
    rw [hevents, hseed]
    exact .cons ⟨fuel, hverdict⟩ .nil
  · cases h
    exact .nil

/-- The history of a sender has all its flights. -/
theorem verdictsOf_senderEvents (id : ConnId) (os : List SeedEvent) :
    verdictsOf id (senderEvents id os) = verdictsOf id os := by
  unfold verdictsOf flightsOf senderEvents
  rw [List.filterMap_filter]
  refine congrArg _ (List.filterMap_congr fun e _ => ?_)
  cases e with
  | flight i num v => by_cases hi : i = id <;> simp [SeedEvent.ofSender, hi]
  | _ => simp

theorem wlShadowWorker_flies {t : SeedTick} {g g' : WlSeeded} (h : wlShadowWorker env t g = some (g', o))
    (id : ConnId) :
    Drawn (Flies env) (g.seedp id) (verdictsOf id o) (g'.seedp id) := by
  obtain ⟨r, hdraw, -, hseedp, hevents, -⟩ := wlShadowWorker_side h id
  rw [← verdictsOf_senderEvents, hevents, verdictsOf_senderEvents, hseedp]
  exact drawFor_flies hdraw

theorem wlEmulEnvInit_seedp (g g' : WlSeeded) : (wlEmulEnvInit g).seedp = (wlEmulEnvInit g').seedp := rfl

theorem seedRun_flies {g : WlSeeded} {is : List SeedInput}
    (hr : run (seedStep env) (seedStart g) is = some (s, os)) (id : ConnId) :
    Drawn (Flies env) ((wlEmulEnvInit g).seedp id) (verdictsOf id os) (s.devs.seedp id) := by
  refine run_induct (P := fun _ os s => Drawn (Flies env) ((wlEmulEnvInit g).seedp id) (verdictsOf id os)
    (s.devs.seedp id)) .nil (fun is os s₁ i s₂ o h hs => ?_) hr
  rw [verdictsOf_append]
  refine h.append ?_
  cases seedStep_move hs with
  | work _ hw => exact wlShadowWorker_flies hw id
  | call _ | plain _ _ =>
    rw [verdictsOf, flightsOf_map]
    exact .nil
  | errCount => exact .nil

/-- **Faults are reproducible.** -/
theorem flights_reproducible (env : WlEnv) :
    (∀ (g g' : WlSeeded) (is is' : List SeedInput) (s s' : SeedEmul) (os os' : List SeedEvent),
      run (seedStep env) (seedStart g) is = some (s, os) → run (seedStep env) (seedStart g') is' = some (s', os') →
      ∀ (id : ConnId) (k : Nat) (v v' : Verdict), (verdictsOf id os)[k]? = some v → (verdictsOf id os')[k]? = some v' →
        v = v') ∧
    ∀ (g : WlSeeded) (now₀ now₁ : Timeval) (fuel₀ fuel₁ : Nat),
      (wlShadowWorkerTarg env now₀ fuel₀ .id0 .id1 g).bind
          (fun r => (wlShadowWorkerTarg env now₁ fuel₁ .id1 .id0 r.1).map Prod.fst) =
        (wlShadowWorkerTarg env now₁ fuel₁ .id1 .id0 g).bind
          fun r => (wlShadowWorkerTarg env now₀ fuel₀ .id0 .id1 r.1).map Prod.fst := by
  refine ⟨fun g g' is is' s s' os os' hr hr' id k v v' hv hv' => ?_, fun g now₀ now₁ fuel₀ fuel₁ =>
    wlShadowWorkerTarg_comm env now₀ now₁ fuel₀ fuel₁ g⟩
  have h := seedRun_flies hr id
  have h' := seedRun_flies hr' id
  rw [wlEmulEnvInit_seedp g' g] at h'
  exact h.agree (fun _ _ _ _ _ h₁ h₂ => h₁.det h₂) h' hv hv'

/-- Eleven bits and twice ten. -/
theorem glibcBits_lt (a b c : Nat) : (a % 2048 * 1024 + b % 1024) * 1024 + c % 1024 < randMax + 1 := by
  simp only [randMax]
  omega

/-- `rand_r` of glibc: a linear congruential generator, three steps to a value. -/
def randRGlibc (seed : Seed) : Draw × Seed :=
  let seed₁ := seed * 1103515245#32 + 12345#32
  let seed₂ := seed₁ * 1103515245#32 + 12345#32
  let seed₃ := seed₂ * 1103515245#32 + 12345#32
  (⟨(seed₁.toNat / 65536 % 2048 * 1024 + seed₂.toNat / 65536 % 1024) * 1024 + seed₃.toNat / 65536 % 1024,
    glibcBits_lt ..⟩, seed₃)

/-- Most packets are damaged. -/
def WlEnv.rough : WlEnv := ⟨⟨true, 10, true, 90, 60⟩, 100, randRGlibc⟩

/-- `k` steps of the side when the clock reads `ms` milliseconds. -/
def seedTicks (id : ConnId) (k : Nat) (ms : Int) : List SeedInput :=
  let now : Timeval := ⟨ms / 1000, ms % 1000 * 1000⟩
  List.replicate k (.tick id ⟨now, now, 30, 30⟩)

/-- Two blocking sends. -/
def aloneInputs : List SeedInput :=
  let first : PackData := Vector.replicate 19 1
  [.call .id0 (.send first 1)] ++ seedTicks .id0 3 0 ++ seedTicks .id0 2 100 ++
    [.call .id0 (.send first 1)] ++ seedTicks .id0 3 100 ++ seedTicks .id0 2 200

/-- Two sends among those of the other side, whose worker finds the second one. -/
def crossedInputs : List SeedInput :=
  let first : PackData := Vector.replicate 19 2
  [.call .id1 (.send first 0)] ++ seedTicks .id1 4 0 ++ [.call .id0 (.send first 1)] ++ seedTicks .id0 3 30 ++
    seedTicks .id0 2 170 ++ [.call .id0 (.send first 0)] ++ seedTicks .id0 4 200 ++ [.call .id1 (.recv 0)] ++
    seedTicks .id1 4 380

def WlSeeded.zeroed : WlSeeded := ⟨.zeroed, fun _ => 0⟩

theorem flights_reproducible_crossed : ∃ s s' os os',
    run (seedStep .rough) (seedStart .zeroed) aloneInputs = some (s, os) ∧
    run (seedStep .rough) (seedStart .zeroed) crossedInputs = some (s', os') ∧
    verdictsOf .id0 os = [⟨true, []⟩, ⟨false, [16]⟩] ∧ (verdictsOf .id0 os')[1]? = some ⟨false, [16]⟩ := by
  have halone : (run (seedStep .rough) (seedStart .zeroed) aloneInputs).map (fun r => verdictsOf .id0 r.2) =
      some [⟨true, []⟩, ⟨false, [16]⟩] := by decide +kernel
  have hcrossed : (run (seedStep .rough) (seedStart .zeroed) crossedInputs).map
      (fun r => (verdictsOf .id0 r.2)[1]?.isSome) = some true := by decide +kernel
  obtain ⟨⟨s, os⟩, hr, hfacts⟩ := Option.map_eq_some_iff.mp halone
  obtain ⟨⟨s', os'⟩, hr', hsome⟩ := Option.map_eq_some_iff.mp hcrossed
  dsimp only at hfacts hsome
  obtain ⟨v', hv'⟩ := Option.isSome_iff_exists.mp hsome
  have hv : (verdictsOf .id0 os)[1]? = some ⟨false, [16]⟩ := by rw [hfacts]; rfl
  have hsame := (flights_reproducible .rough).1 _ _ _ _ _ _ _ _ hr hr' .id0 1 _ _ hv hv'
  exact ⟨s, s', os, os', hr, hr', hfacts, by rw [hv', hsame]⟩

end LoraBridge.Seeded
