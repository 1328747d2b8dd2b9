import Mathlib.Data.List.Perm.Basic
import Mathlib.Data.List.Range
import Mathlib.Tactic.Common

/-!
# A pipeline of two places

Items are numbered in the order in which they are put into the back place, and pass from there to the front place, from
which they are taken. An item may be discarded at the back, also by the next one that is put there. A `Ledger` says what
has become of them: every item has exactly one fate or one place, and they are taken in order.
-/

set_option autoImplicit false

namespace Pipeline

/-- The account of the items `0..puts`: the numbers of those taken or discarded, of those taken, and of those still in
the front and in the back place. -/
structure Ledger (puts : Nat) (fates taken : List Nat) (front back : Option Nat) : Prop where
  perm : (fates ++ front.toList ++ back.toList).Perm (List.range puts)
  order : (taken ++ front.toList ++ back.toList).Pairwise (· < ·)
  sub : taken.Sublist fates

variable {puts n : Nat} {fates taken : List Nat} {front back : Option Nat}

theorem Ledger.nil : Ledger 0 [] [] none none := ⟨.refl _, .nil, .refl _⟩

/-- Every number in the account is one of an item put. -/
theorem Ledger.lt (h : Ledger puts fates taken front back) {k : Nat}
    (hk : k ∈ fates ∨ k ∈ taken ∨ front = some k ∨ back = some k) : k < puts := by
  rw [← List.mem_range, ← h.perm.mem_iff]
  rcases hk with hk | hk | rfl | rfl
  · simp [hk]
  · simp [h.sub.subset hk]
  · simp
  · simp

theorem Ledger.put (h : Ledger puts fates taken front none) : Ledger (puts + 1) fates taken front (some puts) := by
  refine ⟨?_, ?_, h.sub⟩
  · rw [List.range_succ]
    exact (by simpa using h.perm : (fates ++ front.toList).Perm _).append_right [puts]
  · have horder : (taken ++ front.toList).Pairwise (· < ·) := by simpa using h.order
    refine List.pairwise_append.mpr ⟨horder, List.pairwise_singleton _ _, fun k hk m hm => ?_⟩
    rw [List.mem_singleton.mp hm]
    refine h.lt ?_
    rcases List.mem_append.mp hk with hk | hk
    · exact Or.inr (Or.inl hk)
    · exact Or.inr (Or.inr (Or.inl (Option.mem_toList.mp hk)))

/-- The item at the back is discarded. -/
theorem Ledger.discard (h : Ledger puts fates taken front (some n)) : Ledger puts (fates ++ [n]) taken front none := by
  refine ⟨?_, ?_, h.sub.trans (List.sublist_append_left ..)⟩
  · refine List.Perm.trans ?_ h.perm
    rw [Option.toList_none, List.append_nil, List.append_assoc, List.append_assoc]
    exact List.perm_append_comm.append_left fates
  · simpa using (List.pairwise_append.mp h.order).1

/-- The item at the back makes place for the next. -/
theorem Ledger.overwrite (h : Ledger puts fates taken front (some n)) :
    Ledger (puts + 1) (fates ++ [n]) taken front (some puts) := h.discard.put

/-- The item at the back passes to the front. -/
theorem Ledger.pass (h : Ledger puts fates taken none (some n)) : Ledger puts fates taken (some n) none :=
  ⟨by simpa using h.perm, by simpa using h.order, h.sub⟩

theorem Ledger.take (h : Ledger puts fates taken (some n) back) :
    Ledger puts (fates ++ [n]) (taken ++ [n]) none back :=
  ⟨by simpa using h.perm, by simpa using h.order, h.sub.append (.refl _)⟩

/-- When nothing was discarded, all items in order are those taken, then the front one, then the back one. -/
theorem Ledger.all (h : Ledger puts taken taken front back) :
    taken ++ front.toList ++ back.toList = List.range puts :=
  h.perm.eq_of_pairwise (fun _ _ _ _ h₁ h₂ => absurd h₂ (Nat.lt_asymm h₁)) h.order List.pairwise_lt_range

end Pipeline
