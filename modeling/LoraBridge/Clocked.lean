import Mathlib.Algebra.BigOperators.Group.Finset.Basic
import Mathlib.Algebra.Order.BigOperators.Group.Finset
import Mathlib.Algebra.Order.Ring.Int
import Mathlib.Data.Finset.Max
import Mathlib.Data.Finset.BooleanAlgebra
import Mathlib.Data.Fintype.Defs
import Mathlib.Order.Lattice
import LoraBridge.Transducer

/-!
# Runs against a clock

A program whose steps belong to agents that sleep between them. `Timing` says which agent takes a step, for how long it
sleeps afterwards, and which clock readings the input may carry; `Clocked` is a state with the clock and the time at
which each agent wakes up. An agent steps at a time no earlier than it wakes, and no agent is overtaken by more than a
slack (`Timing.Allows`).

- `Timing.run_along`: an invariant of the clocked program that gives a condition on every step gives it along the run of
  the program without the clock.
- `Timing.next_current`: the clock is never ahead of an agent by more than the slack.
- `Timing.exists_turn`: time does not stand still for want of an agent; the one that wakes first may step.
- `Timing.length_le`: nor for too many steps. Agents that take at most `bound` steps between two sleeps of at least `p`
  take `bound + 1` steps for each `p` that they sleep, at most.
-/

set_option autoImplicit false

namespace Transducer

variable {σ ι ω α : Type}

structure Timing (σ ι α : Type) where
  /-- whose step the input is -/
  actor : ι → α
  /-- the readings in the input are none before the first time and none after the second -/
  reads : ι → Int → Int → Bool
  /-- for how long the agent sleeps after the step -/
  sleep : σ → ι → Int

structure Clocked (σ α : Type) where
  state : σ
  clock : Int
  wake : α → Int

namespace Timing

section Steps

variable (T : Timing σ ι α) (slack : Int)

/-- The input may be the next step, at `time`. -/
def Allows (c : Clocked σ α) (i : ι) (time : Int) : Prop :=
  max c.clock (c.wake (T.actor i)) ≤ time ∧ (∀ x, time ≤ c.wake x + slack) ∧
    T.reads i (max c.clock (c.wake (T.actor i))) time = true

instance [Fintype α] (c : Clocked σ α) (i : ι) (time : Int) : Decidable (T.Allows slack c i time) :=
  inferInstanceAs (Decidable (_ ∧ _))

variable [DecidableEq α]

/-- The clocked state after a step that has led to `s`. -/
def next (c : Clocked σ α) (i : ι) (time : Int) (s : σ) : Clocked σ α :=
  ⟨s, time, Function.update c.wake (T.actor i) (time + T.sleep c.state i)⟩

/-- A step with the time at which it is taken. -/
def step [Fintype α] (step : σ → ι → Option (σ × List ω)) (c : Clocked σ α) (i : ι × Int) :
    Option (Clocked σ α × List ω) :=
  if T.Allows slack c i.1 i.2 then (step c.state i.1).map fun r => (T.next c i.1 i.2 r.1, r.2) else none

end Steps

variable {T : Timing σ ι α} {slack : Int} {c c' : Clocked σ α} {i : ι} {time : Int} {s : σ} {is : List (ι × Int)}
  {os : List ω}

theorem Allows.clock_le (h : T.Allows slack c i time) : c.clock ≤ time := (le_max_left _ _).trans h.1

theorem Allows.wake_le (h : T.Allows slack c i time) : c.wake (T.actor i) ≤ time := (le_max_right _ _).trans h.1

theorem Allows.le_wake (h : T.Allows slack c i time) (x : α) : time ≤ c.wake x + slack := h.2.1 x

/-- **Time goes on.** The agent that wakes first may step, as soon as it is awake. -/
theorem exists_turn [Fintype α] [Nonempty α] (hslack : 0 ≤ slack) (hcurrent : ∀ x, c.clock ≤ c.wake x + slack) :
    ∃ x, ∀ i, T.actor i = x → T.reads i (max c.clock (c.wake x)) (max c.clock (c.wake x)) = true →
      T.Allows slack c i (max c.clock (c.wake x)) := by
  obtain ⟨x, -, hx⟩ := Finset.exists_min_image Finset.univ c.wake Finset.univ_nonempty
  refine ⟨x, ?_⟩
  rintro i rfl hreads
  refine ⟨le_refl _, fun y => max_le (hcurrent y) ?_, hreads⟩
  have hy := hx y (Finset.mem_univ y)
  omega

variable [DecidableEq α]

@[simp] theorem next_state : (T.next c i time s).state = s := rfl
@[simp] theorem next_clock : (T.next c i time s).clock = time := rfl
@[simp] theorem next_wake : (T.next c i time s).wake (T.actor i) = time + T.sleep c.state i := Function.update_self ..

theorem next_wake_of_ne {x : α} (h : x ≠ T.actor i) : (T.next c i time s).wake x = c.wake x :=
  Function.update_of_ne h ..

/-- The clock stays within the slack. -/
theorem next_current (h : T.Allows slack c i time) (hslack : 0 ≤ slack) (hsleep : 0 ≤ T.sleep c.state i) (x : α) :
    (T.next c i time s).clock ≤ (T.next c i time s).wake x + slack := by
  by_cases hx : x = T.actor i
  · subst hx
    rw [next_clock, next_wake]
    omega
  · rw [next_clock, next_wake_of_ne hx]
    exact h.le_wake x

section Runs

variable [Fintype α] {step : σ → ι → Option (σ × List ω)}

theorem step_iff {o : List ω} : T.step slack step c (i, time) = some (c', o) ↔
    T.Allows slack c i time ∧ ∃ s, step c.state i = some (s, o) ∧ c' = T.next c i time s := by
  unfold Timing.step
  split_ifs with h
  · simp only [Option.map_eq_some_iff, Prod.exists, Prod.mk.injEq, h, true_and]
    constructor
    · rintro ⟨s, o, hs, rfl, rfl⟩
      exact ⟨s, hs, rfl⟩
    · rintro ⟨s, hs, rfl⟩
      exact ⟨s, o, hs, rfl, rfl⟩
  · simp [h]

/-- **A clocked run is a run**, and a condition that an invariant of the clocked program gives on every step holds along
it. -/
theorem run_along {C : σ → ι → Prop} {I : Clocked σ α → Prop}
    (hstep : ∀ c i time s o, I c → T.Allows slack c i time → step c.state i = some (s, o) →
      C c.state i ∧ I (T.next c i time s))
    (hI : I c) (hr : run (T.step slack step) c is = some (c', os)) :
    run step c.state (is.map Prod.fst) = some (c'.state, os) ∧ Along step C c.state (is.map Prod.fst) ∧ I c' := by
  induction is generalizing c os with
  | nil =>
    cases hr
    exact ⟨rfl, Along.nil, hI⟩
  | cons i is ih =>
    obtain ⟨i, time⟩ := i
    obtain ⟨c₁, o₁, o₂, hs, hrest, rfl⟩ := run_cons.mp hr
    obtain ⟨hallows, s₁, hs₁, rfl⟩ := step_iff.mp hs
    obtain ⟨hC, hI₁⟩ := hstep c i time s₁ o₁ hI hallows hs₁
    obtain ⟨hrun, halong, hI'⟩ := ih hI₁ hrest
    refine ⟨run_cons.mpr ⟨s₁, o₁, o₂, hs₁, hrun, rfl⟩, Along.cons hC ?_, hI'⟩
    intro t o ht
    cases hs₁.symm.trans ht
    exact halong

end Runs

/-! ## Counting the steps -/

section Credit

variable [Fintype α] {step : σ → ι → Option (σ × List ω)} {p : Int} {bound : Nat} {start : α → Int}
  {rank rank' : α → Nat}

/-- What the agents have had time for since `start`: `bound + 1` steps for each `p` slept. Of the steps before the next
sleep, `rank` are still to come. -/
def credit (p : Int) (bound : Nat) (start : α → Int) (c : Clocked σ α) (rank : α → Nat) : Int :=
  ∑ x, ((bound + 1) * (c.wake x - start x) + (bound - rank x) * p)

/-- A step is paid for by its place before the next sleep, or by its own sleep. -/
theorem credit_next (h : T.Allows slack c i time) (hp : 0 ≤ p) (hsleep : 0 ≤ T.sleep c.state i)
    (hother : ∀ x, x ≠ T.actor i → rank' x = rank x) (hbound : rank' (T.actor i) ≤ bound)
    (hrank : rank' (T.actor i) < rank (T.actor i) ∨ p ≤ T.sleep c.state i) :
    credit p bound start c rank + p ≤ credit p bound start (T.next c i time s) rank' := by
  unfold credit
  rw [← Finset.add_sum_erase _ _ (Finset.mem_univ (T.actor i)),
    ← Finset.add_sum_erase _ _ (Finset.mem_univ (T.actor i))]
  have hrest : ∀ x ∈ Finset.univ.erase (T.actor i),
      (bound + 1) * (c.wake x - start x) + (bound - rank x) * p =
        (bound + 1) * ((T.next c i time s).wake x - start x) + (bound - rank' x) * p := by
    intro x hx
    rw [next_wake_of_ne (Finset.ne_of_mem_erase hx), hother x (Finset.ne_of_mem_erase hx)]
  rw [Finset.sum_congr rfl hrest, next_wake]
  have hwake := h.wake_le
  suffices hactor : (bound + 1) * (c.wake (T.actor i) - start (T.actor i)) + (bound - rank (T.actor i)) * p + p ≤
      (bound + 1) * (time + T.sleep c.state i - start (T.actor i)) + (bound - rank' (T.actor i)) * p by omega
  rcases hrank with hrank | hlong
  · have hslept : (bound + 1 : Int) * (c.wake (T.actor i) - start (T.actor i)) ≤
        (bound + 1) * (time + T.sleep c.state i - start (T.actor i)) :=
      Int.mul_le_mul_of_nonneg_left (by omega) (by omega)
    have hleft : (bound - rank (T.actor i) + 1 : Int) * p ≤ (bound - rank' (T.actor i)) * p :=
      Int.mul_le_mul_of_nonneg_right (by omega) hp
    rw [Int.add_mul, Int.one_mul] at hleft
    omega
  · have hslept : (bound + 1 : Int) * (c.wake (T.actor i) - start (T.actor i) + p) ≤
        (bound + 1) * (time + T.sleep c.state i - start (T.actor i)) :=
      Int.mul_le_mul_of_nonneg_left (by omega) (by omega)
    have hleft : (bound - rank (T.actor i) : Int) * p ≤ bound * p := Int.mul_le_mul_of_nonneg_right (by omega) hp
    have hnone : (0 : Int) ≤ (bound - rank' (T.actor i)) * p := Int.mul_nonneg (by omega) hp
    rw [Int.mul_add, Int.add_mul bound 1 p, Int.one_mul] at hslept
    omega

/-- **The length of a run** is bounded by what the agents have slept. -/
theorem length_le {I : List (ι × Int) → List ω → Clocked σ α → (α → Nat) → Prop} (hp : 0 ≤ p)
    (hstep : ∀ is os c rank i time s o, I is os c rank → T.Allows slack c i time → step c.state i = some (s, o) →
      0 ≤ T.sleep c.state i ∧ ∃ rank', I (is ++ [(i, time)]) (os ++ o) (T.next c i time s) rank' ∧
        (∀ x, x ≠ T.actor i → rank' x = rank x) ∧ rank' (T.actor i) ≤ bound ∧
        (rank' (T.actor i) < rank (T.actor i) ∨ p ≤ T.sleep c.state i))
    (hstart : I [] [] c rank) (hrank : ∀ x, rank x ≤ bound) (hr : run (T.step slack step) c is = some (c', os)) :
    ∃ rank', I is os c' rank' ∧ is.length * p ≤ credit p bound c.wake c' rank' := by
  refine run_induct (P := fun is os c' => ∃ rank', I is os c' rank' ∧ is.length * p ≤ credit p bound c.wake c' rank')
    ⟨rank, hstart, ?_⟩ ?_ hr
  · rw [List.length_nil, Nat.cast_zero, Int.zero_mul]
    refine Finset.sum_nonneg fun x _ => ?_
    rw [Int.sub_self, Int.mul_zero, Int.zero_add]
    have := hrank x
    exact Int.mul_nonneg (by omega) hp
  · rintro is os c₁ ⟨i, time⟩ c₂ o ⟨rank₁, hI, hle⟩ hs
    obtain ⟨hallow, s, hs₁, rfl⟩ := step_iff.mp hs
    obtain ⟨hsleep, rank₂, hI₂, hother, hbound, hrank₂⟩ := hstep is os c₁ rank₁ i time s o hI hallow hs₁
    refine ⟨rank₂, hI₂, ?_⟩
    have hpaid : credit p bound c.wake c₁ rank₁ + p ≤ credit p bound c.wake (T.next c₁ i time s) rank₂ :=
      credit_next hallow hp hsleep hother hbound hrank₂
    rw [List.length_append, List.length_singleton, Nat.cast_add, Nat.cast_one, Int.add_mul, Int.one_mul]
    omega

end Credit

end Timing

end Transducer
