import Mathlib.Data.List.Induction

/-!
# Runs of a program that reads inputs and emits events

A step function takes a state and an input to the next state and the events emitted; `none` is a step that does not
exist: the input does not fit the state, or the program has faulted. `run` chains steps over a list of inputs.

- `run_induct`: what holds at the start, of no inputs and no events, and is kept by every step, holds of every run.
- `Along C s is`: the condition `C` holds of every step of the run of `is` from `s`; `run_induct_along` is the induction
  for such runs.
- `Lockstep R r q`: two results agree, with the same events and states related by `R`; `run_lockstep` carries this from
  the steps of two programs to their runs.
- `run_refine`: the runs of a program whose steps are runs of another one; `run_refine_along` under a condition.
  `Drawn`: lists drawn one by one from a state.
- `observed see step`: the program whose events carry what `see` shows of the state after the step.
- `looked step look s is`: what `look` reads before each step of the run.
- `run_reaches`: a program whose steps each end it or lower a measure comes to its end.
- `Padded`: one run is another one with idle stretches put in. `Padded.observed`: if these emit nothing and keep the
  states related, both runs are observed alike.
-/

set_option autoImplicit false

namespace Transducer

variable {σ τ ι ω : Type}

/-- The states and events of a run, one step for each input. -/
def run (step : σ → ι → Option (σ × List ω)) : σ → List ι → Option (σ × List ω)
  | s, [] => some (s, [])
  | s, i :: is =>
    match step s i with
    | none => none
    | some (s', o) => (run step s' is).map fun r => (r.1, o ++ r.2)

variable {step : σ → ι → Option (σ × List ω)} {s s' : σ} {i : ι} {is js : List ι} {o os : List ω}

@[simp] theorem run_nil : run step s [] = some (s, []) := rfl

theorem run_cons : run step s (i :: is) = some (s', os) ↔
    ∃ s₁ o₁ o₂, step s i = some (s₁, o₁) ∧ run step s₁ is = some (s', o₂) ∧ os = o₁ ++ o₂ := by
  rw [run]
  cases hstep : step s i with
  | none => simp
  | some r =>
    obtain ⟨s₁, o₁⟩ := r
    simp only [Option.map_eq_some_iff, Prod.mk.injEq, Prod.exists, Option.some.injEq]
    constructor
    · rintro ⟨t, o₂, hrun, rfl, rfl⟩
      exact ⟨s₁, o₁, o₂, ⟨rfl, rfl⟩, hrun, rfl⟩
    · rintro ⟨_, _, o₂, ⟨rfl, rfl⟩, hrun, rfl⟩
      exact ⟨s', o₂, hrun, rfl, rfl⟩

theorem run_append : run step s (is ++ js) = some (s', os) ↔
    ∃ s₁ o₁ o₂, run step s is = some (s₁, o₁) ∧ run step s₁ js = some (s', o₂) ∧ os = o₁ ++ o₂ := by
  induction is generalizing s os with
  | nil => simp
  | cons i is ih =>
    simp only [List.cons_append, run_cons, ih]
    constructor
    · rintro ⟨t, o, o', ht, ⟨t', o₁, o₂, h₁, h₂, rfl⟩, rfl⟩
      exact ⟨t', o ++ o₁, o₂, ⟨t, o, o₁, ht, h₁, rfl⟩, h₂, (List.append_assoc ..).symm⟩
    · rintro ⟨t', _, o₂, ⟨t, o, o₁, ht, h₁, rfl⟩, h₂, rfl⟩
      exact ⟨t, o, o₁ ++ o₂, ht, ⟨t', o₁, o₂, h₁, h₂, rfl⟩, List.append_assoc ..⟩

theorem run_single : run step s [i] = some (s', os) ↔ step s i = some (s', os) := by
  simp [run_cons]

/-- The run of one more input. -/
theorem run_snoc : run step s (is ++ [i]) = some (s', os) ↔
    ∃ s₁ o₁ o₂, run step s is = some (s₁, o₁) ∧ step s₁ i = some (s', o₂) ∧ os = o₁ ++ o₂ := by
  simp only [run_append, run_single]

/-! ## Induction along a run -/

/-- The condition `C` holds of every step of the run. -/
def Along (step : σ → ι → Option (σ × List ω)) (C : σ → ι → Prop) (s : σ) (is : List ι) : Prop :=
  ∀ pre i post, is = pre ++ i :: post → ∀ s₁ o₁, run step s pre = some (s₁, o₁) → C s₁ i

theorem Along.nil {C : σ → ι → Prop} : Along step C s [] := fun _ _ _ he => absurd he (by simp)

theorem Along.front {C : σ → ι → Prop} (h : Along step C s (is ++ js)) : Along step C s is := by
  rintro pre i post rfl
  exact h pre i (post ++ js) (by simp)

theorem Along.last {C : σ → ι → Prop} (h : Along step C s (is ++ [i])) {s₁ : σ} {o₁ : List ω}
    (hr : run step s is = some (s₁, o₁)) : C s₁ i := h is i [] rfl s₁ o₁ hr

theorem Along.snoc {C : σ → ι → Prop} (h : Along step C s is) {s₁ : σ} {o₁ : List ω}
    (hr : run step s is = some (s₁, o₁)) (hi : C s₁ i) : Along step C s (is ++ [i]) := by
  intro pre j post he s₂ o₂ hr₂
  induction post using List.reverseRecOn with
  | nil =>
    obtain ⟨rfl, hj⟩ := List.append_inj' he rfl
    cases hj
    cases hr.symm.trans hr₂
    exact hi
  | append_singleton post k _ =>
    rw [← List.cons_append, ← List.append_assoc] at he
    exact h pre j post (List.append_inj' he rfl).1 s₂ o₂ hr₂

theorem Along.mono {C D : σ → ι → Prop} (h : Along step C s is) (himp : ∀ s i, C s i → D s i) : Along step D s is :=
  fun pre i post he s₁ o₁ hr => himp _ _ (h pre i post he s₁ o₁ hr)

/-- A condition on the inputs alone, besides one along the run. -/
theorem Along.and_mem {C : σ → ι → Prop} (h : Along step C s is) {D : ι → Prop} (hmem : ∀ i ∈ is, D i) :
    Along step (fun s i => C s i ∧ D i) s is := by
  intro pre i post he s₁ o₁ hr
  exact ⟨h pre i post he s₁ o₁ hr, hmem i (by simp [he])⟩

/-- **Runs under a condition.** What holds at the start and is kept by every step that meets `C` holds of every run
whose steps meet `C`. -/
theorem run_induct_along {C : σ → ι → Prop} {P : List ι → List ω → σ → Prop} (hstart : P [] [] s)
    (hstep : ∀ is os s₁ i s₂ o, P is os s₁ → C s₁ i → step s₁ i = some (s₂, o) → P (is ++ [i]) (os ++ o) s₂) :
    ∀ {is os s'}, run step s is = some (s', os) → Along step C s is → P is os s' := by
  intro is
  induction is using List.reverseRecOn with
  | nil =>
    intro os s' hr _
    simp only [run_nil, Option.some.injEq, Prod.mk.injEq] at hr
    obtain ⟨rfl, rfl⟩ := hr
    exact hstart
  | append_singleton is i ih =>
    intro os s' hr hC
    obtain ⟨s₁, o₁, o₂, hr₁, hs, rfl⟩ := run_snoc.mp hr
    exact hstep is o₁ s₁ i s' o₂ (ih hr₁ hC.front) (hC.last hr₁) hs

/-- **Runs.** What holds at the start and is kept by every step holds of every run. -/
theorem run_induct {P : List ι → List ω → σ → Prop} (hstart : P [] [] s)
    (hstep : ∀ is os s₁ i s₂ o, P is os s₁ → step s₁ i = some (s₂, o) → P (is ++ [i]) (os ++ o) s₂)
    (hr : run step s is = some (s', os)) : P is os s' :=
  run_induct_along (C := fun _ _ => True) hstart (fun is os s₁ i s₂ o h _ => hstep is os s₁ i s₂ o h) hr
    (fun _ _ _ _ _ _ _ => trivial)

/-! ## Reaching the end -/

/-- The first `n` of a sequence of inputs. -/
def firsts (inp : Nat → ι) (n : Nat) : List ι := (List.range n).map inp

theorem firsts_succ (inp : Nat → ι) (n : Nat) : firsts inp (n + 1) = firsts inp n ++ [inp n] := by
  rw [firsts, List.range_succ, List.map_append]
  rfl

/-- **Termination.** When every step of a run either reaches the end or keeps the invariant with a smaller measure, the
end is reached, in at most one step more than the measure at the start. -/
theorem run_reaches (step : σ → ι → Option (σ × List ω)) (inp : Nat → ι) (P : Nat → List ω → σ → Prop)
    (Done : List ω → σ → Prop) {m : Nat} (hstart : P m [] s)
    (hstep : ∀ m n os s₁, run step s (firsts inp n) = some (s₁, os) → P m os s₁ → ∃ s₂ o,
      step s₁ (inp n) = some (s₂, o) ∧ (Done (os ++ o) s₂ ∨ ∃ m' < m, P m' (os ++ o) s₂)) :
    ∃ n s' os, n ≤ m + 1 ∧ run step s (firsts inp n) = some (s', os) ∧ Done os s' := by
  have hrest : ∀ m n os s₁, run step s (firsts inp n) = some (s₁, os) → P m os s₁ →
      ∃ k s' os', k ≤ n + m + 1 ∧ run step s (firsts inp k) = some (s', os') ∧ Done os' s' := by
    intro m
    induction m using Nat.strongRecOn with
    | _ m ih =>
      intro n os s₁ hr hP
      obtain ⟨s₂, o, hs, hnext⟩ := hstep m n os s₁ hr hP
      have hr₂ : run step s (firsts inp (n + 1)) = some (s₂, os ++ o) := by
        rw [firsts_succ]
        exact run_snoc.mpr ⟨s₁, os, o, hr, hs, rfl⟩
      rcases hnext with hdone | ⟨m', hlt, hP₂⟩
      · exact ⟨n + 1, s₂, os ++ o, by omega, hr₂, hdone⟩
      · obtain ⟨k, s', os', hk, hr', hdone⟩ := ih m' hlt (n + 1) (os ++ o) s₂ hr₂ hP₂
        exact ⟨k, s', os', by omega, hr', hdone⟩
  obtain ⟨n, s', os, hn, hr, hdone⟩ := hrest m 0 [] s rfl hstart
  exact ⟨n, s', os, by omega, hr, hdone⟩

/-! ## Two programs in lockstep -/

theorem Along.head {C : σ → ι → Prop} (h : Along step C s (i :: is)) : C s i := h [] i is rfl s [] rfl

theorem Along.tail {C : σ → ι → Prop} (h : Along step C s (i :: is)) {s₁ : σ} {o₁ : List ω}
    (hs : step s i = some (s₁, o₁)) : Along step C s₁ is := by
  rintro pre j post rfl s₂ o₂ hr
  exact h (i :: pre) j post rfl s₂ (o₁ ++ o₂) (run_cons.mpr ⟨s₁, o₁, o₂, hs, hr, rfl⟩)

theorem Along.cons {C : σ → ι → Prop} (hi : C s i) (h : ∀ s₁ o₁, step s i = some (s₁, o₁) → Along step C s₁ is) :
    Along step C s (i :: is) := by
  intro pre j post he s₂ o₂ hr
  cases pre with
  | nil =>
    cases he
    cases hr
    exact hi
  | cons k pre =>
    cases he
    obtain ⟨s₁, o₁, o₂', hs, hrest, -⟩ := run_cons.mp hr
    exact h s₁ o₁ hs pre j post rfl s₂ o₂' hrest

theorem Along.append {C : σ → ι → Prop} (h : Along step C s is) {s₁ : σ} {o₁ : List ω}
    (hr : run step s is = some (s₁, o₁)) (h' : Along step C s₁ js) : Along step C s (is ++ js) := by
  induction is generalizing s o₁ with
  | nil =>
    cases hr
    exact h'
  | cons i is ih =>
    obtain ⟨s₂, o₂, o₃, hs, hrest, -⟩ := run_cons.mp hr
    refine Along.cons h.head fun t o ht => ?_
    cases hs.symm.trans ht
    exact ih (h.tail hs) hrest

/-- **A condition that an invariant gives.** An invariant of the steps that meet `C` that gives `D` on each of them
gives it along the run. -/
theorem run_along {C D : σ → ι → Prop} {I : σ → Prop}
    (hstep : ∀ s i s' o, I s → C s i → step s i = some (s', o) → D s i ∧ I s') (hI : I s)
    (hr : run step s is = some (s', os)) (hC : Along step C s is) : Along step D s is ∧ I s' := by
  induction is generalizing s os with
  | nil =>
    cases hr
    exact ⟨Along.nil, hI⟩
  | cons i is ih =>
    obtain ⟨s₁, o₁, o₂, hs, hrest, -⟩ := run_cons.mp hr
    obtain ⟨hD, hI₁⟩ := hstep s i s₁ o₁ hI hC.head hs
    obtain ⟨halong, hI'⟩ := ih hI₁ hrest (hC.tail hs)
    refine ⟨Along.cons hD fun t o ht => ?_, hI'⟩
    cases hs.symm.trans ht
    exact halong

/-- Checking a condition along a run. -/
def checkAlong (step : σ → ι → Option (σ × List ω)) (C : σ → ι → Bool) : σ → List ι → Bool
  | _, [] => true
  | s, i :: is => C s i && (step s i).all fun r => checkAlong step C r.1 is

theorem along_of_check {C : σ → ι → Prop} [∀ s i, Decidable (C s i)]
    (h : checkAlong step (fun s i => decide (C s i)) s is = true) : Along step C s is := by
  induction is generalizing s with
  | nil => exact Along.nil
  | cons i is ih =>
    rw [checkAlong, Bool.and_eq_true, decide_eq_true_eq] at h
    refine Along.cons h.1 fun s₁ o₁ hs => ih ?_
    have hrest := h.2
    rw [hs] at hrest
    exact hrest

theorem check_of_along {C : σ → ι → Prop} [∀ s i, Decidable (C s i)] (h : Along step C s is) :
    checkAlong step (fun s i => decide (C s i)) s is = true := by
  induction is generalizing s with
  | nil => rfl
  | cons i is ih =>
    rw [checkAlong, Bool.and_eq_true, decide_eq_true_eq]
    refine ⟨h.head, ?_⟩
    cases hs : step s i with
    | none => rfl
    | some r => exact ih (h.tail hs)

/-- The first result answers the second. -/
def Lockstep (R : σ → τ → Prop) (r : Option (σ × List ω)) : Option (τ × List ω) → Prop
  | none => r = none
  | some (t, o) => ∃ s, r = some (s, o) ∧ R s t

theorem Lockstep.of_eq {R : σ → τ → Prop} {t : τ} {o' : List ω} (hR : R s t) (ho : o = o') :
    Lockstep R (some (s, o)) (some (t, o')) := by
  subst ho
  exact ⟨s, rfl, hR⟩

theorem Lockstep.map {σ' τ' ω' : Type} {R : σ → τ → Prop} {R' : σ' → τ' → Prop} {r : Option (σ × List ω)}
    {q : Option (τ × List ω)} (h : Lockstep R r q) {f : σ × List ω → σ' × List ω'} {f' : τ × List ω → τ' × List ω'}
    (hf : ∀ s t o, R s t → R' (f (s, o)).1 (f' (t, o)).1 ∧ (f (s, o)).2 = (f' (t, o)).2) :
    Lockstep R' (r.map f) (q.map f') := by
  cases q with
  | none =>
    have hr : r = none := h
    rw [hr]
    rfl
  | some q =>
    obtain ⟨t, o⟩ := q
    obtain ⟨s, hs, hR⟩ := h
    rw [hs]
    exact .of_eq (hf s t o hR).1 (hf s t o hR).2

theorem Lockstep.imp {R R' : σ → τ → Prop} {r : Option (σ × List ω)} {q : Option (τ × List ω)} (h : Lockstep R r q)
    (himp : ∀ s t o, r = some (s, o) → q = some (t, o) → R s t → R' s t) : Lockstep R' r q := by
  cases q with
  | none => exact h
  | some q =>
    obtain ⟨t, o⟩ := q
    obtain ⟨s, hs, hR⟩ := h
    exact ⟨s, hs, himp s t o hs rfl hR⟩

/-- **Runs in lockstep.** Related states step in lockstep, so they run in lockstep: a run of one is a run of the other,
with the same events. -/
theorem run_lockstep {R : σ → τ → Prop} {C : σ → ι → Prop} {step' : τ → ι → Option (τ × List ω)}
    (hstep : ∀ s t i, R s t → C s i → Lockstep R (step s i) (step' t i)) {t : τ} (hR : R s t)
    (hC : Along step C s is) : Lockstep R (run step s is) (run step' t is) := by
  induction is generalizing s t with
  | nil => exact ⟨s, rfl, hR⟩
  | cons i is ih =>
    have h := hstep s t i hR hC.head
    cases ht : step' t i with
    | none =>
      rw [ht] at h
      have hs : step s i = none := h
      simp only [run, ht, hs]
      rfl
    | some q =>
      obtain ⟨t₁, o₁⟩ := q
      rw [ht] at h
      obtain ⟨s₁, hs, hR₁⟩ := h
      have hrest := ih hR₁ (hC.tail hs)
      simp only [run, ht, hs]
      cases hr : run step' t₁ is with
      | none =>
        rw [hr] at hrest
        have hnone : run step s₁ is = none := hrest
        rw [hnone]
        rfl
      | some q =>
        obtain ⟨t₂, o₂⟩ := q
        rw [hr] at hrest
        obtain ⟨s₂, hs₂, hR₂⟩ := hrest
        rw [hs₂]
        exact ⟨s₂, rfl, hR₂⟩

/-- A run of the first program is a run of the second. -/
theorem Lockstep.of_some {R : σ → τ → Prop} {r : Option (σ × List ω)} {q : Option (τ × List ω)} (h : Lockstep R r q)
    (hr : r = some (s, o)) : ∃ t, q = some (t, o) ∧ R s t := by
  subst hr
  cases q with
  | none => cases h
  | some q =>
    obtain ⟨t, o'⟩ := q
    obtain ⟨s', hs, hR⟩ := h
    cases hs
    exact ⟨t, rfl, hR⟩

/-! ## Refinement -/

/-- **Runs of a refinement.** When every step of a program is a run of another one, from the states and with the events
that `abs` and `see` show and on the requests that both read, so is every run. -/
theorem run_refine {ι' ω' κ : Type} {step' : τ → ι' → Option (τ × List ω')} {abs : σ → τ} {see : ω → Option ω'}
    {ask : ι → Option κ} {ask' : ι' → Option κ}
    (hstep : ∀ s i s' o, step s i = some (s', o) →
      ∃ js, js.filterMap ask' = [i].filterMap ask ∧ run step' (abs s) js = some (abs s', o.filterMap see))
    (hr : run step s is = some (s', os)) :
    ∃ js, js.filterMap ask' = is.filterMap ask ∧ run step' (abs s) js = some (abs s', os.filterMap see) := by
  induction is generalizing s os with
  | nil =>
    cases hr
    exact ⟨[], rfl, rfl⟩
  | cons i is ih =>
    obtain ⟨s₁, o₁, o₂, hs, hrest, rfl⟩ := run_cons.mp hr
    obtain ⟨js₁, hask₁, hrun₁⟩ := hstep s i s₁ o₁ hs
    obtain ⟨js₂, hask₂, hrun₂⟩ := ih hrest
    refine ⟨js₁ ++ js₂, ?_, run_append.mpr ⟨abs s₁, _, _, hrun₁, hrun₂, List.filterMap_append⟩⟩
    rw [List.filterMap_append, hask₁, hask₂, ← List.filterMap_append]
    rfl

/-- The same for runs under a condition, by an invariant: the runs of the other program meet a condition of their
own. -/
theorem run_refine_along {ι' ω' : Type} {step' : τ → ι' → Option (τ × List ω')} {abs : σ → τ} {see : ω → Option ω'}
    {I : σ → Prop} {C : σ → ι → Prop} {C' : τ → ι' → Prop}
    (hstep : ∀ s i s' o, I s → C s i → step s i = some (s', o) → I s' ∧
      ∃ js, run step' (abs s) js = some (abs s', o.filterMap see) ∧ Along step' C' (abs s) js)
    (hI : I s) (hr : run step s is = some (s', os)) (hC : Along step C s is) :
    I s' ∧ ∃ js, run step' (abs s) js = some (abs s', os.filterMap see) ∧ Along step' C' (abs s) js := by
  induction is generalizing s os with
  | nil =>
    cases hr
    exact ⟨hI, [], rfl, Along.nil⟩
  | cons i is ih =>
    obtain ⟨s₁, o₁, o₂, hs, hrest, rfl⟩ := run_cons.mp hr
    obtain ⟨hI₁, js₁, hrun₁, halong₁⟩ := hstep s i s₁ o₁ hI hC.head hs
    obtain ⟨hI', js₂, hrun₂, halong₂⟩ := ih hI₁ hrest (hC.tail hs)
    refine ⟨hI', js₁ ++ js₂, ?_, halong₁.append hrun₁ halong₂⟩
    rw [List.filterMap_append]
    exact run_append.mpr ⟨abs s₁, _, _, hrun₁, hrun₂, rfl⟩

/-! ## Lists drawn from a state -/

/-- The values of `as` are drawn one after the other, from `s` on. -/
inductive Drawn {α : Type} (draw : σ → α → σ → Prop) : σ → List α → σ → Prop
  | nil {s : σ} : Drawn draw s [] s
  | cons {s s₁ s' : σ} {a : α} {as : List α} : draw s a s₁ → Drawn draw s₁ as s' → Drawn draw s (a :: as) s'

variable {α : Type} {draw : σ → α → σ → Prop} {as bs : List α}

theorem Drawn.append (h : Drawn draw s as s') {s'' : σ} (h' : Drawn draw s' bs s'') : Drawn draw s (as ++ bs) s'' := by
  induction h with
  | nil => exact h'
  | cons hd _ ih => exact .cons hd (ih h')

/-- **What is drawn is determined**, as far as two lists drawn from one state both go. -/
theorem Drawn.agree (hdet : ∀ s a b t t', draw s a t → draw s b t' → a = b ∧ t = t') {t t' : σ}
    (h : Drawn draw s as t) (h' : Drawn draw s bs t') {k : Nat} {a b : α} (ha : as[k]? = some a)
    (hb : bs[k]? = some b) :
    a = b := by
  induction h generalizing bs k with
  | nil => cases ha
  | cons hd _ ih =>
    cases h' with
    | nil => cases hb
    | cons hd' hrest' =>
      obtain ⟨rfl, rfl⟩ := hdet _ _ _ _ _ hd hd'
      cases k with
      | zero => exact Option.some.inj (ha.symm.trans hb)
      | succ k => exact ih hrest' ha hb

/-! ## Observations -/

variable {β : Type}

/-- What `look` reads before each step of a run. -/
def looked (step : σ → ι → Option (σ × List ω)) (look : σ → ι → List β) : σ → List ι → List β
  | _, [] => []
  | s, i :: is => look s i ++ (step s i).elim [] fun r => looked step look r.1 is

theorem looked_cons {look : σ → ι → List β} (h : step s i = some (s', o)) :
    looked step look s (i :: is) = look s i ++ looked step look s' is := by
  rw [looked, h]
  rfl

theorem looked_append {look : σ → ι → List β} (hr : run step s is = some (s', os)) :
    looked step look s (is ++ js) = looked step look s is ++ looked step look s' js := by
  induction is generalizing s os with
  | nil =>
    cases hr
    rfl
  | cons i is ih =>
    obtain ⟨s₁, o₁, o₂, hs, hrest, rfl⟩ := run_cons.mp hr
    rw [List.cons_append, looked_cons hs, looked_cons hs, ih hrest, List.append_assoc]

theorem looked_snoc {look : σ → ι → List β} (hr : run step s is = some (s', os)) :
    looked step look s (is ++ [i]) = looked step look s is ++ look s' i := by
  rw [looked_append hr, looked]
  cases step s' i <;> simp [looked]

/-- Every event with what the state after its step shows. -/
def observed (see : σ → β) (step : σ → ι → Option (σ × List ω)) (s : σ) (i : ι) : Option (σ × List (ω × β)) :=
  (step s i).map fun r => (r.1, r.2.map fun e => (e, see r.1))

theorem observed_some {see : σ → β} (h : step s i = some (s', o)) :
    observed see step s i = some (s', o.map fun e => (e, see s')) := by
  rw [observed, h]
  rfl

/-- A run without events is observed as one. -/
theorem run_observed_silent {see : σ → β} (h : run step s is = some (s', [])) :
    run (observed see step) s is = some (s', []) := by
  induction is generalizing s with
  | nil =>
    simp only [run_nil, Option.some.injEq, Prod.mk.injEq] at h
    obtain ⟨rfl, -⟩ := h
    rfl
  | cons i is ih =>
    obtain ⟨s₁, o₁, o₂, hs, hr, ho⟩ := run_cons.mp h
    obtain ⟨rfl, rfl⟩ := List.append_eq_nil_iff.mp ho.symm
    exact run_cons.mpr ⟨s₁, [], [], observed_some hs, ih hr, rfl⟩

/-- The run of `js` from `t` is that of `is` from `s`, each input answered by an alike one, with idle stretches put
in. -/
inductive Padded (step : σ → ι → Option (σ × List ω)) (Alike : σ → ι → σ → ι → Prop) (Idle : σ → List ι → Prop) :
    σ → List ι → σ → List ι → Prop
  | nil {s t : σ} : Padded step Alike Idle s [] t []
  | step {s s' t t' : σ} {i j : ι} {o o' : List ω} {is js : List ι} : Alike s i t j → step s i = some (s', o) →
      step t j = some (t', o') → Padded step Alike Idle s' is t' js → Padded step Alike Idle s (i :: is) t (j :: js)
  | idle {s t t' : σ} {o : List ω} {is ks js : List ι} : Idle t ks → run step t ks = some (t', o) →
      Padded step Alike Idle s is t' js → Padded step Alike Idle s is t (ks ++ js)

theorem Padded.same {Alike : σ → ι → σ → ι → Prop} {Idle : σ → List ι → Prop} (hall : ∀ s t i, Alike s i t i)
    {t t' : σ} {os' : List ω} (hs : run step s is = some (s', os)) (ht : run step t is = some (t', os')) :
    Padded step Alike Idle s is t is := by
  induction is generalizing s t os os' with
  | nil => exact .nil
  | cons i is ih =>
    obtain ⟨s₁, o₁, o₂, hs₁, hrs, -⟩ := run_cons.mp hs
    obtain ⟨t₁, o₁', o₂', ht₁, hrt, -⟩ := run_cons.mp ht
    exact .step (hall s t i) hs₁ ht₁ (ih hrs hrt)

theorem Padded.prepend {Alike : σ → ι → σ → ι → Prop} {Idle : σ → List ι → Prop} (hrefl : ∀ s i, Alike s i s i)
    {pre : List ι} (hs : run step s pre = some (s', os)) (h : Padded step Alike Idle s' is s' js) :
    Padded step Alike Idle s (pre ++ is) s (pre ++ js) := by
  induction pre generalizing s os with
  | nil =>
    cases hs
    exact h
  | cons i pre ih =>
    obtain ⟨s₁, o₁, o₂, hs₁, hrs, -⟩ := run_cons.mp hs
    exact .step (hrefl s i) hs₁ hs₁ (ih hrs)

/-- **Padding is invisible**, when alike steps of related states emit the same and stay related, and an idle stretch
emits nothing and keeps the relation. -/
theorem Padded.observed {Alike : σ → ι → σ → ι → Prop} {Idle : σ → List ι → Prop} {t : σ}
    (h : Padded step Alike Idle s is t js) (see : σ → β) {C : σ → ι → Prop} {R : σ → σ → Prop}
    (hstep : ∀ s t i j s' t' o o', R s t → C s i → Alike s i t j → step s i = some (s', o) → step t j = some (t', o') →
      o = o' ∧ R s' t')
    (hidle : ∀ s t ks t' o, R s t → Idle t ks → run step t ks = some (t', o) → o = [] ∧ R s t')
    (hsee : ∀ s t, R s t → see s = see t) (hR : R s t) (hC : Along step C s is) :
    ∃ s' t' os, run (observed see step) s is = some (s', os) ∧ run (observed see step) t js = some (t', os) ∧
      R s' t' := by
  induction h with
  | nil => exact ⟨_, _, [], rfl, rfl, hR⟩
  | @step s s₁ t t₁ i j o o' is js halike hs ht _ ih =>
    obtain ⟨rfl, hR₁⟩ := hstep s t i j s₁ t₁ o o' hR hC.head halike hs ht
    obtain ⟨s', t', os, hr, hr', hR'⟩ := ih hR₁ (hC.tail hs)
    refine ⟨s', t', _, run_cons.mpr ⟨s₁, _, os, observed_some hs, hr, rfl⟩, run_cons.mpr ⟨t₁, _, os, ?_, hr', rfl⟩, hR'⟩
    rw [observed_some ht, hsee s₁ t₁ hR₁]
  | @idle s t t₁ o is ks js hi hk _ ih =>
    obtain ⟨rfl, hR₁⟩ := hidle s t ks t₁ o hR hi hk
    obtain ⟨s', t', os, hr, hr', hR'⟩ := ih hR₁ hC
    exact ⟨s', t', os, hr, run_append.mpr ⟨t₁, [], os, run_observed_silent hk, hr', rfl⟩, hR'⟩

end Transducer
