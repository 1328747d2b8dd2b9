import Mathlib.Data.List.Nodup
import Mathlib.Logic.Function.Basic

/-!
# Circular doubly linked lists of embedded nodes

The kernel's `struct list_head`: a node points to its neighbours, a list is a head node on a cycle with the nodes of
its items, and an item is on at most one list through a given node. `Links` is the memory of all nodes of one kind,
written by `list_add_tail`, `list_del`, `list_move_tail` and read by `list_empty` and `list_first_entry`, pointer by
pointer and in the order of the C text, so that what they do to a node that is already linked is what the C does.

`Forest m c` says that the memory `m` holds the lists `c`: one cycle for each head, in the order of `c`, no item twice.
On a forest the operations are the operations on lists (`Forest.addTail`, `Forest.del`, `Forest.moveTail`, ...).
-/

set_option autoImplicit false

namespace ListHead

/-- What a `next` or `prev` field holds: the address of a node, or a poison value that `list_del` leaves. -/
inductive Ptr (α : Type) where
  | node (a : α)
  | poison1
  | poison2
  deriving DecidableEq

/-- The node a pointer refers to; following a poison value faults. -/
def Ptr.deref {α : Type} : Ptr α → Option α
  | .node a => some a
  | .poison1 => none
  | .poison2 => none

@[simp] theorem Ptr.deref_node {α : Type} (a : α) : (Ptr.node a).deref = some a := rfl

/-- The nodes of one kind: the heads of the lists, and the node embedded in each item. -/
inductive Node (H I : Type) where
  | head (h : H)
  | item (i : I)
  deriving DecidableEq

/-- The fields of all nodes. -/
structure Links (α : Type) where
  next : α → Ptr α
  prev : α → Ptr α

variable {α : Type} [DecidableEq α]

def Links.setNext (m : Links α) (a : α) (p : Ptr α) : Links α := { m with next := Function.update m.next a p }
def Links.setPrev (m : Links α) (a : α) (p : Ptr α) : Links α := { m with prev := Function.update m.prev a p }

/-! ## The operations -/

/-- `INIT_LIST_HEAD`. -/
def initListHead (m : Links α) (list : α) : Links α := (m.setNext list (.node list)).setPrev list (.node list)

/-- `__list_add`. -/
def listAdd (m : Links α) (new : α) (prev next : Ptr α) : Option (Links α) := do
  let n ← next.deref
  let m := m.setPrev n (.node new)
  let m := m.setNext new next
  let m := m.setPrev new prev
  let p ← prev.deref
  return m.setNext p (.node new)

def listAddTail (m : Links α) (new head : α) : Option (Links α) := listAdd m new (m.prev head) (.node head)

/-- `__list_del`. -/
def listDelLinks (m : Links α) (prev next : Ptr α) : Option (Links α) := do
  let n ← next.deref
  let m := m.setPrev n prev
  let p ← prev.deref
  return m.setNext p next

/-- `__list_del_entry`. -/
def listDelEntry (m : Links α) (entry : α) : Option (Links α) := listDelLinks m (m.prev entry) (m.next entry)

def listDel (m : Links α) (entry : α) : Option (Links α) := do
  let m ← listDelEntry m entry
  return (m.setNext entry .poison1).setPrev entry .poison2

def listMoveTail (m : Links α) (list head : α) : Option (Links α) := do
  let m ← listDelEntry m list
  listAddTail m list head

def listEmpty (m : Links α) (head : α) : Bool := m.next head == .node head

/-- `list_first_entry`: a pointer to the node; that it is the node of an item is for the caller to know. -/
def listFirstEntry (m : Links α) (head : α) : Ptr α := m.next head

/-- `list_for_each_entry_safe`: the loop from `pos`, whose successor `n` was read before the body runs. The walk stops
when it is back at `head`; `fuel` bounds it. -/
def listForEachSafe {σ : Type} (links : σ → Links α) (body : σ → α → Option σ) (head : α) :
    Nat → Ptr α → Ptr α → σ → Option σ
  | 0, _, _, _ => none
  | fuel + 1, pos, n, s => do
    let a ← pos.deref
    if a = head then return s
    let s ← body s a
    let n' ← n.deref
    listForEachSafe links body head fuel n ((links s).next n') s

/-! ## Reading back writes -/

section Reads

variable (m : Links α) (a b : α) (p : Ptr α)

@[simp] theorem Links.next_setNext_self : (m.setNext a p).next a = p := Function.update_self ..
@[simp] theorem Links.prev_setPrev_self : (m.setPrev a p).prev a = p := Function.update_self ..
@[simp] theorem Links.next_setPrev : (m.setPrev a p).next = m.next := rfl
@[simp] theorem Links.prev_setNext : (m.setNext a p).prev = m.prev := rfl

variable {a b}

theorem Links.next_setNext_of_ne (h : b ≠ a) : (m.setNext a p).next b = m.next b := Function.update_of_ne h ..
theorem Links.prev_setPrev_of_ne (h : b ≠ a) : (m.setPrev a p).prev b = m.prev b := Function.update_of_ne h ..

end Reads

/-! ## Segments of a list -/

/-- From `a` the nodes `l` follow one another up to `b`, with the back pointers. -/
def Seg (m : Links α) : α → List α → α → Prop
  | a, [], b => m.next a = .node b ∧ m.prev b = .node a
  | a, x :: l, b => (m.next a = .node x ∧ m.prev x = .node a) ∧ Seg m x l b

variable {m m' : Links α} {a b e : α} {l : List α}

omit [DecidableEq α] in
theorem seg_append {x : α} {l₂ : List α} : ∀ {a : α} {l₁ : List α},
    Seg m a (l₁ ++ x :: l₂) b ↔ Seg m a l₁ x ∧ Seg m x l₂ b
  | _, [] => Iff.rfl
  | a, y :: l₁ => by
    simp only [List.cons_append, Seg, seg_append, and_assoc]

omit [DecidableEq α] in
/-- A segment depends on the forward pointers of its nodes but the last, and on the back pointers of all but the
first. -/
theorem seg_congr : ∀ {a : α} {l : List α}, (∀ x ∈ a :: l, m'.next x = m.next x) →
    (∀ x ∈ l ++ [b], m'.prev x = m.prev x) → Seg m a l b → Seg m' a l b
  | a, [], hn, hp, h => by
    simp only [Seg] at h ⊢
    rwa [hn a (by simp), hp b (by simp)]
  | a, x :: l, hn, hp, h => by
    simp only [Seg] at h ⊢
    rw [hn a (by simp), hp x (by simp)]
    exact ⟨h.1, seg_congr (fun y hy => hn y (List.mem_cons_of_mem _ hy))
      (fun y hy => hp y (List.mem_cons_of_mem _ hy)) h.2⟩

omit [DecidableEq α] in
theorem seg_next : ∀ {l : List α}, Seg m a l b → m.next a = .node (l.headD b)
  | [], h => h.1
  | _ :: _, h => h.1.1

omit [DecidableEq α] in
theorem seg_prev : ∀ {a : α} {l : List α}, Seg m a l b → m.prev b = .node (l.getLastD a)
  | _, [], h => h.2
  | a, x :: l, h => by
    rw [seg_prev h.2]
    cases l <;> rfl

/-- A segment bent to another end: the last node and the new end are made to point at each other. -/
theorem seg_retarget {b' : α} : ∀ {a : α} {l : List α}, (a :: l).Nodup → b' ∉ l → Seg m a l b →
    Seg ((m.setPrev b' (.node (l.getLastD a))).setNext (l.getLastD a) (.node b')) a l b'
  | a, [], _, _, _ => by simp [Seg]
  | a, x :: l, hnd, hb, h => by
    have hlast : (x :: l).getLastD a = l.getLastD x := by cases l <;> rfl
    have hne : a ≠ l.getLastD x := by
      intro he
      have hmem : l.getLastD x ∈ x :: l := List.getLastD_mem_cons
      rw [← he] at hmem
      exact (List.nodup_cons.mp hnd).1 hmem
    have hxb : x ≠ b' := fun he => hb (he ▸ List.mem_cons_self)
    rw [hlast]
    refine ⟨⟨?_, ?_⟩, seg_retarget (List.nodup_cons.mp hnd).2 (fun hm => hb (List.mem_cons_of_mem _ hm)) h.2⟩
    · rw [Links.next_setNext_of_ne _ _ hne, Links.next_setPrev]
      exact h.1.1
    · rw [Links.prev_setNext, Links.prev_setPrev_of_ne _ _ hxb]
      exact h.1.2

/-! ## Rings -/

/-- What `list_add_tail` writes for a node outside the list: the last node and the head get the new neighbour. -/
theorem ring_addTail {h new : α} (hnd : (h :: l).Nodup) (hnew : new ∉ h :: l) (hr : Seg m h l h) :
    ∃ m', listAddTail m new h = some m' ∧ Seg m' h (l ++ [new]) h ∧
      ∀ x, x ≠ new → x ∉ h :: l → m'.next x = m.next x ∧ m'.prev x = m.prev x := by
  have hlast : l.getLastD h ∈ h :: l := List.getLastD_mem_cons
  have hnh : h ≠ new := fun he => hnew (he ▸ List.mem_cons_self)
  refine ⟨_, by rw [listAddTail, seg_prev hr]; rfl, ?_, ?_⟩
  · rw [seg_append]
    constructor
    · apply seg_congr _ _ (seg_retarget hnd (fun hm => hnew (List.mem_cons_of_mem _ hm)) hr)
      · intro x hx
        have hxn : x ≠ new := fun he => hnew (he ▸ hx)
        simp only [Links.setNext, Links.setPrev, Function.update_apply, hxn, if_false]
      · intro x hx
        have hxh : x ≠ h := by
          rcases List.mem_append.mp hx with hx | hx
          · exact fun he => (List.nodup_cons.mp hnd).1 (he ▸ hx)
          · rw [List.mem_singleton.mp hx]
            exact Ne.symm hnh
        simp only [Links.setNext, Links.setPrev, Function.update_apply, hxh, if_false]
    · have hne : new ≠ l.getLastD h := fun he => hnew (he ▸ hlast)
      constructor
      · rw [Links.next_setNext_of_ne _ _ hne, Links.next_setPrev, Links.next_setNext_self]
      · rw [Links.prev_setNext, Links.prev_setPrev_of_ne _ _ hnh, Links.prev_setNext, Links.prev_setPrev_self]
  · intro x hxn hx
    have hxh : x ≠ h := fun he => hx (he ▸ List.mem_cons_self)
    have hxl : x ≠ l.getLastD h := fun he => hx (he ▸ hlast)
    simp only [Links.setNext, Links.setPrev, Function.update_apply, hxn, hxh, hxl, if_false, and_self]

/-- What `__list_del_entry` writes: the neighbours are made to point at each other; the node keeps its own pointers. -/
theorem ring_delEntry {h : α} {l₁ l₂ : List α} (hnd : (h :: (l₁ ++ e :: l₂)).Nodup)
    (hr : Seg m h (l₁ ++ e :: l₂) h) :
    ∃ m', listDelEntry m e = some m' ∧ Seg m' h (l₁ ++ l₂) h ∧
      ∀ x, x ∉ h :: (l₁ ++ e :: l₂) → m'.next x = m.next x ∧ m'.prev x = m.prev x := by
  obtain ⟨h₁, h₂⟩ := seg_append.mp hr
  have hnd₁ : (h :: l₁).Nodup := hnd.sublist (List.Sublist.cons_cons _ (List.sublist_append_left _ _))
  have hlast : l₁.getLastD h ∈ h :: l₁ := List.getLastD_mem_cons
  have hfirst : l₂.headD h ∈ h :: l₂ := by cases l₂ <;> simp
  refine ⟨(m.setPrev (l₂.headD h) (.node (l₁.getLastD h))).setNext (l₁.getLastD h) (.node (l₂.headD h)), ?_, ?_, ?_⟩
  · rw [listDelEntry, seg_prev h₁, seg_next h₂]
    rfl
  · cases l₂ with
    | nil =>
      rw [List.append_nil]
      exact seg_retarget hnd₁ (List.nodup_cons.mp hnd₁).1 h₁
    | cons n l₂ =>
      have hn : n ∉ h :: l₁ ∧ n ∉ l₂ := by
        simp only [List.nodup_cons, List.nodup_append, List.mem_append, List.mem_cons] at hnd ⊢
        grind
      rw [seg_append]
      refine ⟨seg_retarget hnd₁ (fun hm => hn.1 (List.mem_cons_of_mem _ hm)) h₁, seg_congr ?_ ?_ h₂.2⟩
      · intro x hx
        refine Links.next_setNext_of_ne _ _ (fun he => ?_)
        rw [he] at hx
        simp only [List.nodup_cons, List.nodup_append, List.mem_append, List.mem_cons] at hnd hlast hx
        grind
      · intro x hx
        rw [Links.prev_setNext]
        refine Links.prev_setPrev_of_ne _ _ (fun he => ?_)
        rw [he] at hx
        simp only [List.mem_append, List.mem_singleton, List.headD_cons] at hx
        exact hx.elim hn.2 (fun hh => hn.1 (hh ▸ List.mem_cons_self))
  · intro x hx
    simp only [List.mem_cons, List.mem_append, not_or] at hx
    refine ⟨Links.next_setNext_of_ne _ _ (fun he => ?_), Links.prev_setPrev_of_ne _ _ (fun he => ?_)⟩
    · rw [← he, List.mem_cons] at hlast
      exact hlast.elim hx.1 hx.2.1
    · rw [← he, List.mem_cons] at hfirst
      exact hfirst.elim hx.1 hx.2.2.2

/-- Writing the fields of a node off the ring. -/
theorem ring_write {h : α} {p q : Ptr α} (he : e ∉ h :: l) (hr : Seg m h l h) :
    Seg ((m.setNext e p).setPrev e q) h l h := by
  refine seg_congr (fun x hx => ?_) (fun x hx => ?_) hr
  · exact Links.next_setNext_of_ne _ _ fun hxe => he (hxe ▸ hx)
  · have hx' : x ∈ h :: l := by simpa [or_comm] using hx
    exact Links.prev_setPrev_of_ne _ _ fun hxe => he (hxe ▸ hx')

/-! ## Forests -/

section Forest

variable {H I : Type}

/-- The memory `m` holds the lists `c`. -/
structure Forest (m : Links (Node H I)) (c : H → List I) : Prop where
  ring : ∀ h, Seg m (.head h) ((c h).map .item) (.head h)
  nodup : ∀ h, (c h).Nodup
  unique : ∀ {h h' : H} {i : I}, i ∈ c h → i ∈ c h' → h = h'

variable {m m' : Links (Node H I)} {c : H → List I} {h : H} {i : I}

theorem cycle_nodup {l : List I} (hl : l.Nodup) : (Node.head h :: l.map Node.item).Nodup := by
  rw [List.nodup_cons]
  exact ⟨by simp, hl.map (fun _ _ he => Node.item.inj he)⟩

/-- A ring that shares no node with the written ones is still there. -/
theorem Forest.ring_frame (hf : Forest m c) {h' : H} (l : List I) (hne : h' ≠ h) (hdis : ∀ j ∈ c h', j ∉ l)
    (hw : ∀ x, x ∉ Node.head h :: l.map Node.item → m'.next x = m.next x ∧ m'.prev x = m.prev x) :
    Seg m' (.head h') ((c h').map .item) (.head h') := by
  have hout : ∀ x ∈ Node.head h' :: (c h').map Node.item, x ∉ Node.head h :: l.map Node.item := by
    intro x hx hx'
    simp only [List.mem_cons, List.mem_map] at hx hx'
    rcases hx with rfl | ⟨j, hj, rfl⟩
    · simp [hne] at hx'
    · simp only [reduceCtorEq, Node.item.injEq, exists_eq_right, false_or] at hx'
      exact hdis j hj hx'
  refine seg_congr (fun x hx => (hw x (hout x hx)).1) (fun x hx => (hw x (hout x ?_)).2) (hf.ring h')
  simpa [or_comm] using hx

theorem Forest.first (hf : Forest m c) {l : List I} (hc : c h = i :: l) :
    listFirstEntry m (.head h) = .node (.item i) := by
  rw [listFirstEntry, seg_next (hf.ring h), hc]
  rfl

/-- The node after the first item. -/
theorem Forest.second (hf : Forest m c) {l : List I} (hc : c h = i :: l) :
    m.next (.item i) = .node ((l.map .item).headD (.head h)) := by
  have hring := hf.ring h
  rw [hc] at hring
  exact seg_next hring.2

/-- Heads that point at themselves are empty lists. -/
theorem Forest.of_empty (hm : ∀ h : H, m.next (.head h) = .node (.head h) ∧ m.prev (.head h) = .node (.head h)) :
    Forest (I := I) m (fun _ => []) :=
  ⟨hm, fun _ => List.nodup_nil, fun hi _ => by cases hi⟩

variable [DecidableEq H] [DecidableEq I]

theorem ring_listEmpty {l : List I} (hr : Seg m (.head h) (l.map .item) (.head h)) :
    listEmpty m (.head h) = l.isEmpty := by
  unfold listEmpty
  rw [seg_next hr]
  cases l <;> simp

theorem Forest.listEmpty (hf : Forest m c) (h : H) : listEmpty m (.head h) = (c h).isEmpty := ring_listEmpty (hf.ring h)

/-- `list_add_tail` of an item that is on no list. -/
theorem Forest.addTail (hf : Forest m c) (h : H) (hi : ∀ k, i ∉ c k) :
    ∃ m', listAddTail m (.item i) (.head h) = some m' ∧ Forest m' (Function.update c h (c h ++ [i])) := by
  have hnew : Node.item i ∉ Node.head h :: (c h).map Node.item := by simp [hi h]
  obtain ⟨m', hm', hring, hframe⟩ := ring_addTail (cycle_nodup (hf.nodup h)) hnew (hf.ring h)
  refine ⟨m', hm', ⟨fun k => ?_, fun k => ?_, fun {k k' j} hj hj' => ?_⟩⟩
  · by_cases hk : k = h
    · subst hk
      rwa [Function.update_self, List.map_append]
    · rw [Function.update_of_ne hk]
      refine hf.ring_frame (i :: c h) hk (fun j hj hj' => ?_) (fun x hx => ?_)
      · rcases List.mem_cons.mp hj' with rfl | hj'
        · exact hi k hj
        · exact hk (hf.unique hj hj')
      · simp only [List.map_cons, List.mem_cons, not_or] at hx
        exact hframe x hx.2.1 (by simp only [List.mem_cons, not_or]; exact ⟨hx.1, hx.2.2⟩)
  · by_cases hk : k = h
    · subst hk
      rw [Function.update_self, List.nodup_append]
      exact ⟨hf.nodup k, by simp, fun a ha b hb hab => hi k (by simp at hb; rwa [← hb, ← hab])⟩
    · rw [Function.update_of_ne hk]
      exact hf.nodup k
  · simp only [Function.update_apply] at hj hj'
    have huniq := @hf.unique
    have hi' := hi
    grind

/-- `__list_del_entry` of an item of list `h`. -/
theorem Forest.delEntry (hf : Forest m c) (hi : i ∈ c h) :
    ∃ m', listDelEntry m (.item i) = some m' ∧ Forest m' (Function.update c h ((c h).erase i)) := by
  obtain ⟨l₁, l₂, hl₁, hc, herase⟩ := List.exists_erase_eq hi
  have hmap : (c h).map Node.item = l₁.map Node.item ++ Node.item (H := H) i :: l₂.map Node.item := by simp [hc]
  have hring := hf.ring h
  have hnd := cycle_nodup (h := h) (hf.nodup h)
  rw [hmap] at hring hnd
  obtain ⟨m', hm', hring', hframe⟩ := ring_delEntry hnd hring
  rw [← hmap] at hframe
  refine ⟨m', hm', ⟨fun k => ?_, fun k => ?_, fun {k k' j} hj hj' => ?_⟩⟩
  · by_cases hk : k = h
    · subst hk
      rwa [Function.update_self, herase, List.map_append]
    · rw [Function.update_of_ne hk]
      exact hf.ring_frame (c h) hk (fun j hj hj' => hk (hf.unique hj hj')) hframe
  · by_cases hk : k = h
    · subst hk
      rw [Function.update_self]
      exact (hf.nodup k).erase i
    · rw [Function.update_of_ne hk]
      exact hf.nodup k
  · apply hf.unique (i := j)
    · by_cases hk : k = h
      · subst hk
        rw [Function.update_self] at hj
        exact List.mem_of_mem_erase hj
      · rwa [Function.update_of_ne hk] at hj
    · by_cases hk : k' = h
      · subst hk
        rw [Function.update_self] at hj'
        exact List.mem_of_mem_erase hj'
      · rwa [Function.update_of_ne hk] at hj'

/-- After removal the item is on no list. -/
theorem Forest.not_mem_erase (hf : Forest m c) (hi : i ∈ c h) (k : H) :
    i ∉ Function.update c h ((c h).erase i) k := by
  by_cases hk : k = h
  · subst hk
    rw [Function.update_self]
    exact (hf.nodup k).not_mem_erase
  · rw [Function.update_of_ne hk]
    exact fun hm => hk (hf.unique hm hi)

/-- `list_del` also poisons the node, which is on no list by then. -/
theorem Forest.del (hf : Forest m c) (hi : i ∈ c h) :
    ∃ m', listDel m (.item i) = some m' ∧ Forest m' (Function.update c h ((c h).erase i)) := by
  obtain ⟨m', hm', hf'⟩ := hf.delEntry hi
  refine ⟨(m'.setNext (.item i) .poison1).setPrev (.item i) .poison2, by rw [listDel, hm']; rfl, ?_⟩
  refine ⟨fun k => ring_write ?_ (hf'.ring k), hf'.nodup, hf'.unique⟩
  simp only [List.mem_cons, reduceCtorEq, List.mem_map, Node.item.injEq, exists_eq_right, false_or]
  exact hf.not_mem_erase hi k

/-- `list_move_tail` of an item of list `h` to the list `k`. -/
theorem Forest.moveTail (hf : Forest m c) (hi : i ∈ c h) (k : H) :
    ∃ m', listMoveTail m (.item i) (.head k) = some m' ∧
      Forest m' (Function.update (Function.update c h ((c h).erase i)) k
        (Function.update c h ((c h).erase i) k ++ [i])) := by
  obtain ⟨m', hm', hf'⟩ := hf.delEntry hi
  obtain ⟨m'', hm'', hf''⟩ := hf'.addTail k (hf.not_mem_erase hi)
  exact ⟨m'', by rw [listMoveTail, hm']; exact hm'', hf''⟩

/-! ## An item added twice -/

/-- Adding the item that is last already: it is made to point at itself, and the head goes on pointing at it. -/
theorem addTail_again (hprev : m.prev (.head h) = .node (.item i)) :
    ∃ m', listAddTail m (.item i) (.head h) = some m' ∧ m'.next (.item i) = .node (.item i) ∧
      m'.prev (.item i) = .node (.item i) ∧ (∀ k, m'.next (.head k) = m.next (.head k)) ∧
      ∀ k, m'.prev (.head k) = m.prev (.head k) := by
  refine ⟨_, by simp only [listAddTail, listAdd, hprev, Ptr.deref_node, Option.bind_eq_bind, Option.bind_some]; rfl,
    ?_, ?_, fun k => ?_, fun k => ?_⟩
  · simp [Links.setNext, Links.setPrev]
  · simp [Links.setNext, Links.setPrev]
  · simp [Links.setNext, Links.setPrev]
  · by_cases hk : k = h
    · subst hk
      simp [Links.setNext, Links.setPrev, hprev]
    · simp [Links.setNext, Links.setPrev, hk]

/-- Deleting an item that points at itself poisons it and leaves the heads as they are. -/
theorem del_self (hnext : m.next (.item i) = .node (.item i)) (hprev : m.prev (.item i) = .node (.item i)) :
    ∃ m', listDel m (.item i) = some m' ∧ m'.next (.item i) = .poison1 ∧ m'.prev (.item i) = .poison2 ∧
      (∀ k, m'.next (.head k) = m.next (.head k)) ∧ ∀ k, m'.prev (.head k) = m.prev (.head k) := by
  refine ⟨_, by simp only [listDel, listDelEntry, listDelLinks, hnext, hprev, Ptr.deref_node, Option.bind_eq_bind,
    Option.bind_some]; rfl, ?_, ?_, fun k => ?_, fun k => ?_⟩
  · simp [Links.setNext, Links.setPrev]
  · simp [Links.setNext, Links.setPrev]
  · simp [Links.setNext, Links.setPrev]
  · simp [Links.setNext, Links.setPrev]

/-- Deleting a poisoned item faults. -/
theorem del_poisoned (hnext : m.next (.item i) = .poison1) : listDel m (.item i) = none := by
  simp only [listDel, listDelEntry, listDelLinks, hnext, Ptr.deref, Option.bind_eq_bind, Option.bind_none]

/-- A walk whose body takes each item off the list it walks: the body runs once for each item, in order. -/
theorem forEachSafe_consume {σ : Type} {links : σ → Links (Node H I)} {body : σ → Node H I → Option σ} {h : H}
    (P : List I → σ → Prop) (hP : ∀ l s, P l s → ∃ c, Forest (links s) c ∧ c h = l)
    (hbody : ∀ i l s, P (i :: l) s → ∃ s', body s (.item i) = some s' ∧ P l s') :
    ∀ (l : List I) (fuel : Nat) (s : σ), P l s → l.length < fuel →
      ∀ n, n = (links s).next ((l.map .item).headD (.head h)) →
      ∃ s', listForEachSafe links body (.head h) fuel (.node ((l.map .item).headD (.head h))) n s = some s' ∧ P [] s'
  | _, 0, _, _, hfuel, _, _ => by omega
  | [], fuel + 1, s, hs, _, n, _ => ⟨s, by simp [listForEachSafe], hs⟩
  | i :: l, fuel + 1, s, hs, hfuel, n, hn => by
    obtain ⟨c, hf, hc⟩ := hP _ _ hs
    obtain ⟨s₁, hb, hs₁⟩ := hbody i l s hs
    rw [List.map_cons, List.headD_cons, hf.second hc] at hn
    subst hn
    obtain ⟨s', hs', hl⟩ := forEachSafe_consume P hP hbody l fuel s₁ hs₁ (by simpa using hfuel) _ rfl
    refine ⟨s', ?_, hl⟩
    simp only [listForEachSafe, List.map_cons, List.headD_cons, Ptr.deref_node, Option.bind_eq_bind, Option.bind_some,
      reduceCtorEq, if_false, hb]
    exact hs'

/-! ## A list next to a spoilt one -/

/-- The list `h` holds `l`. Of the list `k`, which an item added twice may have spoilt, only this is known: its last
node is not on `h`. -/
structure Apart (m : Links (Node H I)) (h k : H) (l : List I) : Prop where
  ring : Seg m (.head h) (l.map .item) (.head h)
  nodup : l.Nodup
  last : ∃ x, m.prev (.head k) = .node x ∧ x ∉ Node.head h :: l.map Node.item

omit [DecidableEq H] [DecidableEq I] in
/-- The lists of a forest are apart. -/
theorem Forest.apart (hf : Forest m c) {k : H} (hne : k ≠ h) : Apart m h k (c h) := by
  refine ⟨hf.ring h, hf.nodup h, _, seg_prev (hf.ring k), fun hm => ?_⟩
  have hlast : ((c k).map Node.item).getLastD (Node.head k) ∈ Node.head k :: (c k).map Node.item :=
    List.getLastD_mem_cons
  generalize ((c k).map Node.item).getLastD (Node.head k) = x at hm hlast
  simp only [List.mem_cons, List.mem_map] at hm hlast
  rcases hlast with rfl | ⟨j, hj, rfl⟩
  · simp [hne] at hm
  · simp only [reduceCtorEq, Node.item.injEq, exists_eq_right, false_or] at hm
    exact hne (hf.unique hj hm)

variable {l : List I} {k : H}

/-- Adding an item that is not on `h` to the other list, on which it may be. -/
theorem Apart.addTail (ha : Apart m h k l) (hne : k ≠ h) (hi : i ∉ l) :
    ∃ m', listAddTail m (.item i) (.head k) = some m' ∧ Apart m' h k l := by
  obtain ⟨x, hx, hout⟩ := ha.last
  have hitem : Node.item i ∉ Node.head h :: l.map Node.item := by simp [hi]
  have hhead : Node.head k ∉ Node.head h :: l.map Node.item := by simp [hne]
  refine ⟨_, by simp only [listAddTail, listAdd, hx, Ptr.deref_node, Option.bind_eq_bind, Option.bind_some]; rfl,
    seg_congr (fun y hy => ?_) (fun y hy => ?_) ha.ring, ha.nodup, .item i, ?_, hitem⟩
  · have hyx : y ≠ x := fun he => hout (he ▸ hy)
    have hyi : y ≠ .item i := fun he => hitem (he ▸ hy)
    rw [Links.next_setNext_of_ne _ _ hyx, Links.next_setPrev, Links.next_setNext_of_ne _ _ hyi, Links.next_setPrev]
  · have hy' : y ∈ Node.head h :: l.map Node.item := by simpa [or_comm] using hy
    have hyi : y ≠ .item i := fun he => hitem (he ▸ hy')
    have hyk : y ≠ .head k := fun he => hhead (he ▸ hy')
    rw [Links.prev_setNext, Links.prev_setPrev_of_ne _ _ hyi, Links.prev_setNext, Links.prev_setPrev_of_ne _ _ hyk]
  · rw [Links.prev_setNext, Links.prev_setPrev_of_ne _ _ (by simp), Links.prev_setNext, Links.prev_setPrev_self]

/-- Deleting the first item. -/
theorem Apart.del (ha : Apart m h k (i :: l)) (hne : k ≠ h) :
    ∃ m', listDel m (.item i) = some m' ∧ Apart m' h k l := by
  obtain ⟨hi, hnd⟩ := List.nodup_cons.mp ha.nodup
  obtain ⟨x, hx, hout⟩ := ha.last
  obtain ⟨m', hm', hring, hframe⟩ := @ring_delEntry _ _ _ _ (Node.head h) [] (l.map Node.item)
    (cycle_nodup ha.nodup) ha.ring
  have hitem : Node.item i ∉ Node.head h :: l.map Node.item := by simp [hi]
  refine ⟨(m'.setNext (.item i) .poison1).setPrev (.item i) .poison2, by rw [listDel, hm']; rfl,
    ring_write hitem hring, hnd, x, ?_, fun hm => hout ?_⟩
  · have hkeep := (hframe (.head k) (by simp [hne])).2
    rw [Links.prev_setPrev_of_ne _ _ (by simp), Links.prev_setNext, hkeep, hx]
  · simp only [List.map_cons, List.mem_cons] at hm ⊢
    exact hm.imp_right Or.inr

end Forest

end ListHead
