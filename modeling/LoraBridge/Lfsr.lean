import Mathlib.Data.BitVec
import Mathlib.Algebra.Field.ZMod
import Mathlib.Algebra.BigOperators.Fin
import Mathlib.Tactic.Ring

/-!
# Cyclic redundancy registers

A register of width `w` with feedback polynomial `poly` (its leading `x ^ w` left out) takes the message bit by bit,
most significant first: it shifts left and adds `poly` when the bit shifted out differs from the message bit (`feed`).
`crc` feeds a whole message.

- The register is linear over GF(2) in its start value and the message (`crc_xor`); hence two messages leave the same
  register iff their difference, started at zero, leaves zero.
- `crc_zero_window`: an error burst of at most `w` bits is never absorbed, when `poly` is odd.
- `crc_zero_parity`: neither is an error of odd weight, when `poly` has an odd number of ones (with the leading one, `x
  + 1` divides the generator).
- `crc_zero_pair`: neither is an error of two bits less than an order of `poly` apart.
-/

set_option autoImplicit false

namespace Lfsr

variable {w : Nat}

/-- One message bit: shift left, and add `poly` when the bit shifted out differs from the message bit. -/
def feed (poly c : BitVec w) (b : Bool) : BitVec w :=
  (c <<< 1) ^^^ (if c.msb ^^ b then poly else 0#w)

/-- A whole message, first bit first. -/
def crc (poly c : BitVec w) (bs : List Bool) : BitVec w := bs.foldl (feed poly) c

@[simp] theorem crc_nil (poly c : BitVec w) : crc poly c [] = c := rfl

@[simp] theorem crc_cons (poly c : BitVec w) (b : Bool) (bs : List Bool) :
    crc poly c (b :: bs) = crc poly (feed poly c b) bs := rfl

theorem crc_append (poly c : BitVec w) (bs cs : List Bool) : crc poly c (bs ++ cs) = crc poly (crc poly c bs) cs :=
  List.foldl_append

/-! ## Linearity -/

theorem xor_four_comm (a b c d : BitVec w) : a ^^^ b ^^^ (c ^^^ d) = a ^^^ c ^^^ (b ^^^ d) := by ac_rfl

theorem ite_xor_ite (p : BitVec w) (a b : Bool) :
    (if a then p else 0#w) ^^^ (if b then p else 0#w) = if a ^^ b then p else 0#w := by
  cases a <;> cases b <;> simp

theorem feed_xor (poly c d : BitVec w) (a b : Bool) :
    feed poly (c ^^^ d) (a ^^ b) = feed poly c a ^^^ feed poly d b := by
  have hbit : ((c.msb ^^ d.msb) ^^ (a ^^ b)) = ((c.msb ^^ a) ^^ (d.msb ^^ b)) := by
    cases c.msb <;> cases d.msb <;> cases a <;> cases b <;> rfl
  unfold feed
  rw [BitVec.shiftLeft_xor_distrib, BitVec.msb_xor, hbit, ← ite_xor_ite, xor_four_comm]

theorem crc_xor (poly : BitVec w) : ∀ (bs cs : List Bool) (c d : BitVec w), bs.length = cs.length →
    crc poly (c ^^^ d) (List.zipWith xor bs cs) = crc poly c bs ^^^ crc poly d cs
  | [], [], _, _, _ => rfl
  | a :: bs, b :: cs, c, d, h => by
    simp only [List.zipWith_cons_cons, crc_cons, feed_xor]
    exact crc_xor poly bs cs _ _ (by simpa using h)
  | [], _ :: _, _, _, h | _ :: _, [], _, _, h => by simp at h

/-- The register of a damaged message: that of the message, plus that of the damage alone. -/
theorem crc_damaged (poly c : BitVec w) {bs es : List Bool} (h : bs.length = es.length) :
    crc poly c (List.zipWith xor bs es) = crc poly c bs ^^^ crc poly 0#w es := by
  simpa using crc_xor poly bs es c 0#w h

theorem feed_zero_false (poly : BitVec w) : feed poly 0#w false = 0#w := by simp [feed]

theorem feed_zero_true (poly : BitVec w) : feed poly 0#w true = poly := by simp [feed]

/-- Leading zeros leave a zero register alone. -/
theorem crc_zero_replicate (poly : BitVec w) : ∀ n, crc poly 0#w (List.replicate n false) = 0#w
  | 0 => rfl
  | n + 1 => by rw [List.replicate_succ, crc_cons, feed_zero_false, crc_zero_replicate poly n]

/-! ## Bursts -/

section Odd

variable {poly : BitVec w} (hodd : poly.getLsbD 0 = true)
include hodd

/-- The bit added at the right end tells whether `poly` was added. -/
theorem feed_getLsbD_zero (hw : 0 < w) (c : BitVec w) (b : Bool) : (feed poly c b).getLsbD 0 = (c.msb ^^ b) := by
  unfold feed
  rw [BitVec.getLsbD_xor, BitVec.getLsbD_shiftLeft]
  cases c.msb ^^ b <;> simp [hodd, hw]

/-- A register that `n ≤ w` bits bring to zero has its `w - n` low bits clear. -/
theorem low_bits_clear : ∀ (bs : List Bool) (c : BitVec w), crc poly c bs = 0#w → ∀ k, k + bs.length < w →
    c.getLsbD k = false
  | [], c, h, k, _ => by rw [show c = 0#w from h]; simp
  | b :: bs, c, h, k, hk => by
    simp only [List.length_cons] at hk
    have ih := low_bits_clear bs (feed poly c b) h
    -- the lowest bit is clear, so `poly` was not added and the register was only shifted
    have hadd : (c.msb ^^ b) = false := by
      rw [← feed_getLsbD_zero hodd (by omega) c b]
      exact ih 0 (by omega)
    have hk' := ih (k + 1) (by omega)
    have hkw : k + 1 < w := by omega
    rw [BitVec.getLsbD_eq_getElem (by omega)]
    simpa [feed, hadd, hkw] using hk'

/-- A nonzero register stays nonzero under zeros. -/
theorem crc_replicate_eq_zero (hw : 0 < w) : ∀ (n : Nat) (c : BitVec w),
    crc poly c (List.replicate n false) = 0#w → c = 0#w
  | 0, _, h => h
  | n + 1, c, h => by
    rw [List.replicate_succ, crc_cons] at h
    have hz := crc_replicate_eq_zero hw n _ h
    have hmsb : c.msb = false := by
      have h0 := feed_getLsbD_zero hodd hw c false
      rw [hz] at h0
      simpa using h0.symm
    apply BitVec.eq_of_getLsbD_eq
    intro i hi
    rw [BitVec.getLsbD_zero]
    by_cases hlast : i + 1 < w
    · have hb := congrArg (fun x => BitVec.getLsbD x (i + 1)) hz
      rw [BitVec.getLsbD_eq_getElem hi]
      simpa [feed, hmsb, hlast] using hb
    · rw [BitVec.msb_eq_getLsbD_last] at hmsb
      rwa [show i = w - 1 by omega]

/-- Damage of at most `w` bits is absorbed only when there is none. -/
theorem crc_zero_short : ∀ es : List Bool, es.length ≤ w → crc poly 0#w es = 0#w → true ∉ es
  | [], _, _ => by simp
  | false :: es, hlen, h => by
    rw [crc_cons, feed_zero_false] at h
    simpa using crc_zero_short es (by simp at hlen; omega) h
  | true :: es, hlen, h => by
    rw [crc_cons, feed_zero_true] at h
    have hclear := low_bits_clear hodd es poly h 0 (by simp at hlen; omega)
    rw [hodd] at hclear
    cases hclear

/-- **Bursts.** Damage whose wrong bits lie within `w` consecutive positions is not absorbed. -/
theorem crc_zero_window (hw : 0 < w) {es : List Bool} (i : Nat) (hmem : true ∈ es)
    (hwin : ∀ k, es[k]? = some true → i ≤ k ∧ k < i + w) : crc poly 0#w es ≠ 0#w := by
  intro h
  have hpre : es.take i = List.replicate (es.take i).length false := by
    rw [List.eq_replicate_iff]
    refine ⟨rfl, fun b hb => ?_⟩
    obtain ⟨k, hk, rfl⟩ := List.mem_iff_getElem.mp hb
    rw [List.length_take] at hk
    by_contra hne
    have := hwin k (by rw [List.getElem?_eq_getElem (by omega)]; simpa using hne)
    omega
  have hpost : es.drop (i + w) = List.replicate (es.drop (i + w)).length false := by
    rw [List.eq_replicate_iff]
    refine ⟨rfl, fun b hb => ?_⟩
    obtain ⟨k, hk, rfl⟩ := List.mem_iff_getElem.mp hb
    rw [List.length_drop] at hk
    by_contra hne
    have := hwin (i + w + k) (by rw [List.getElem?_eq_getElem (by omega)]; simpa using hne)
    omega
  have hsplit : es = es.take i ++ ((es.drop i).take w ++ es.drop (i + w)) := by
    rw [← List.drop_drop, List.take_append_drop, List.take_append_drop]
  rw [hsplit, crc_append, hpre, crc_zero_replicate, crc_append, hpost] at h
  have hmid := crc_zero_short hodd _ (List.length_take_le _ _) (crc_replicate_eq_zero hodd hw _ _ h)
  rw [hsplit, hpre, hpost] at hmem
  simp only [List.mem_append, List.mem_replicate, Bool.true_eq_false, and_false, false_or, or_false] at hmem
  exact hmid hmem

/-- **Pairs.** Two wrong bits `d` apart are absorbed only when `d` shifts bring `poly` back. -/
theorem crc_zero_pair (hw : 0 < w) {es : List Bool} (i d : Nat) (hlen : i + d + 1 < es.length)
    (hpair : ∀ k, es[k]? = some true ↔ k = i ∨ k = i + d + 1)
    (horder : crc poly poly (List.replicate (d + 1) false) ≠ poly) : crc poly 0#w es ≠ 0#w := by
  have hshape : es = List.replicate i false ++ true :: (List.replicate d false ++ true ::
      List.replicate (es.length - (i + d + 2)) false) := by
    apply List.ext_getElem
    · simp only [List.length_append, List.length_cons, List.length_replicate]; omega
    · intro k hk _
      have hk' : es[k] = decide (k = i ∨ k = i + d + 1) := by
        have hiff := hpair k
        rw [List.getElem?_eq_getElem hk, Option.some.injEq] at hiff
        rw [Bool.eq_iff_iff, hiff, decide_eq_true_iff]
      rw [hk']
      simp only [List.getElem_append, List.getElem_cons, List.length_replicate, List.getElem_replicate]
      grind
  intro h
  rw [hshape, crc_append, crc_zero_replicate, crc_cons, feed_zero_true, crc_append, crc_cons] at h
  have hz := crc_replicate_eq_zero hodd hw _ _ h
  apply horder
  have hsum := feed_xor poly (crc poly poly (List.replicate d false)) 0#w false true
  rw [Bool.false_xor, BitVec.xor_zero, hz, feed_zero_true] at hsum
  rw [List.replicate_succ', crc_append, crc_cons, crc_nil]
  exact BitVec.xor_eq_zero_iff.mp hsum.symm

end Odd

/-! ## Odd weight -/

/-- The number of ones, modulo two. -/
def parity (c : BitVec w) : ZMod 2 := ∑ i : Fin w, if c.getLsbD i then 1 else 0

/-- The number of ones of a message, modulo two. -/
def weight (bs : List Bool) : ZMod 2 := (bs.map fun b => if b then (1 : ZMod 2) else 0).sum

theorem ite_xor_add (a b : Bool) :
    (if a ^^ b then (1 : ZMod 2) else 0) = (if a then 1 else 0) + (if b then 1 else 0) := by
  cases a <;> cases b <;> decide

@[simp] theorem parity_zero : parity 0#w = 0 := by simp [parity]

theorem parity_xor (c d : BitVec w) : parity (c ^^^ d) = parity c + parity d := by
  simp only [parity, BitVec.getLsbD_xor, ite_xor_add, Finset.sum_add_distrib]

/-- A shift drops the top bit. -/
theorem parity_shiftLeft (c : BitVec w) : parity (c <<< 1) = parity c + (if c.msb then 1 else 0) := by
  cases w with
  | zero => simp [parity, BitVec.eq_nil c]
  | succ n =>
    have hlow : parity (c <<< 1) = ∑ i : Fin n, if c.getLsbD i then (1 : ZMod 2) else 0 := by
      unfold parity
      rw [Fin.sum_univ_succ]
      simp
    have hall : parity c = (∑ i : Fin n, if c.getLsbD i then (1 : ZMod 2) else 0) + if c.msb then 1 else 0 := by
      unfold parity
      rw [Fin.sum_univ_castSucc, BitVec.msb_eq_getLsbD_last]
      simp
    rw [hlow, hall, add_assoc, CharTwo.add_self_eq_zero, add_zero]

/-- A message bit changes the parity of the register iff it is one, when `poly` is odd in weight. -/
theorem parity_feed {poly : BitVec w} (hp : parity poly = 1) (c : BitVec w) (b : Bool) :
    parity (feed poly c b) = parity c + (if b then 1 else 0) := by
  have hadd : parity (if c.msb ^^ b then poly else 0#w) = (if c.msb then 1 else 0) + (if b then 1 else 0) := by
    rw [← ite_xor_add]
    cases c.msb ^^ b <;> simp [hp]
  unfold feed
  rw [parity_xor, parity_shiftLeft, hadd, add_assoc, ← add_assoc (if c.msb = true then (1 : ZMod 2) else 0),
    CharTwo.add_self_eq_zero, zero_add]

theorem parity_crc {poly : BitVec w} (hp : parity poly = 1) : ∀ (bs : List Bool) (c : BitVec w),
    parity (crc poly c bs) = parity c + weight bs
  | [], c => by simp [weight]
  | b :: bs, c => by
    rw [crc_cons, parity_crc hp bs, parity_feed hp, add_assoc]
    simp [weight]

/-- **Odd weight.** An odd number of wrong bits is not absorbed. -/
theorem crc_zero_parity {poly : BitVec w} (hp : parity poly = 1) {bs : List Bool} (hw : weight bs = 1) :
    crc poly 0#w bs ≠ 0#w := by
  intro h
  have hpar := parity_crc hp bs 0#w
  rw [h, hw, parity_zero, zero_add] at hpar
  exact absurd hpar (by decide)

end Lfsr
