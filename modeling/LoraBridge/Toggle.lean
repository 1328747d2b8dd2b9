import Mathlib.Algebra.BigOperators.Group.Finset.Basic
import Mathlib.Algebra.BigOperators.Ring.Nat

/-!
# Flipping bits over and over

A list of positions, each flipped in its turn (`toggle`). What changes in the end are the positions that occur an odd
number of times (`oddly`): no more than there are flips, and of the same parity (`card_oddly_le`, `odd_card_oddly`). In
characteristic two they have the same sum as the flips (`sum_map_oddly`).
-/

set_option autoImplicit false

namespace Toggle

variable {α : Type} [DecidableEq α]

/-- The positions that occur an odd number of times. -/
def oddly (fs : List α) : Finset α := fs.toFinset.filter fun x => Odd (fs.count x)

/-- The bits after the flips of `fs`. -/
def toggle (a : α → Bool) (fs : List α) : α → Bool := fs.foldl (fun a x => Function.update a x (!a x)) a

theorem mem_oddly {fs : List α} {x : α} : x ∈ oddly fs ↔ Odd (fs.count x) := by
  rw [oddly, Finset.mem_filter, List.mem_toFinset, and_iff_right_iff_imp]
  intro h
  exact List.count_pos_iff.mp h.pos

@[simp] theorem oddly_nil : oddly ([] : List α) = ∅ := rfl

theorem card_oddly_le (fs : List α) : (oddly fs).card ≤ fs.length :=
  (Finset.card_filter_le _ _).trans (List.toFinset_card_le fs)

theorem odd_card_oddly (fs : List α) : Odd (oddly fs).card ↔ Odd fs.length := by
  rw [oddly, ← Finset.odd_sum_iff_odd_card_odd, List.sum_toFinset_count_eq_length]

/-- A position flipped once and never again has changed. -/
theorem head_mem_oddly {x : α} {fs : List α} (h : x ∉ fs) : x ∈ oddly (x :: fs) := by
  rw [mem_oddly, List.count_cons_self, List.count_eq_zero.mpr h]
  exact odd_one

theorem toggle_apply (fs : List α) (a : α → Bool) (x : α) : toggle a fs x = (a x ^^ decide (x ∈ oddly fs)) := by
  induction fs generalizing a with
  | nil => simp [toggle]
  | cons y fs ih =>
    have hcons : toggle a (y :: fs) = toggle (Function.update a y (!a y)) fs := rfl
    rw [hcons, ih]
    simp only [mem_oddly]
    by_cases h : y = x
    · subst h
      have hodd : decide (Odd (fs.count y + 1)) = !decide (Odd (fs.count y)) := by
        rw [← decide_not]
        exact decide_eq_decide.mpr Nat.odd_add_one
      rw [Function.update_self, List.count_cons_self, hodd]
      cases a y <;> cases decide (Odd (fs.count y)) <;> rfl
    · rw [Function.update_of_ne (Ne.symm h), List.count_cons_of_ne h]

/-- Where doubling gives zero, only the positions that occur an odd number of times count in a sum. -/
theorem sum_map_oddly {M : Type} [AddCommMonoid M] (htwo : ∀ x : M, x + x = 0) (f : α → M) (fs : List α) :
    (fs.map f).sum = ∑ x ∈ oddly fs, f x := by
  rw [Finset.sum_list_map_count, oddly, Finset.sum_filter]
  apply Finset.sum_congr rfl
  intro x _
  have heven : ∀ k : Nat, (k + k) • f x = 0 := fun k => by rw [add_nsmul, htwo]
  split_ifs with hodd
  · obtain ⟨k, hk⟩ := hodd
    rw [hk, two_mul, succ_nsmul, heven, zero_add]
  · obtain ⟨k, hk⟩ := Nat.not_odd_iff_even.mp hodd
    rw [hk, heven]

/-- **Flips.** When the first position is not flipped again, the number of changed positions is zero only if there was
no flip, and it is the number of flips if these are at most two. -/
theorem card_oddly_first {x : α} {fs : List α} (h : x ∉ fs) :
    0 < (oddly (x :: fs)).card ∧ ((x :: fs).length ≤ 2 → (oddly (x :: fs)).card = (x :: fs).length) := by
  have hpos : 0 < (oddly (x :: fs)).card := Finset.card_pos.mpr ⟨x, head_mem_oddly h⟩
  refine ⟨hpos, fun hlen => ?_⟩
  have hle := card_oddly_le (x :: fs)
  have hodd := odd_card_oddly (x :: fs)
  rw [Nat.odd_iff, Nat.odd_iff] at hodd
  omega

end Toggle
