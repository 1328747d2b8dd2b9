import Mathlib.Algebra.Polynomial.Div
import Mathlib.RingTheory.Coprime.Lemmas
import Mathlib.Tactic.LinearCombination
import LoraBridge.Lfsr

/-!
# Registers as remainders

A register of width `w` is a polynomial over GF(2) of degree below `w` (`regPoly`), a message of `n` bits one of degree
below `n` (`msgPoly`), its first bit leading. The register a message leaves is the remainder, modulo the monic generator
`x ^ w + poly`, of the message moved up by `w` places plus the start value moved up by `n` (`regPoly_crc`).
-/

set_option autoImplicit false

namespace Lfsr

open Polynomial

variable {w : Nat}

/-- A bit as a coefficient. -/
def coeffBit (b : Bool) : ZMod 2 := if b then 1 else 0

theorem coeffBit_xor (a b : Bool) : coeffBit (a ^^ b) = coeffBit a + coeffBit b := ite_xor_add a b

/-- The polynomial of a register: bit `i` is the coefficient of `x ^ i`. -/
noncomputable def regPoly (c : BitVec w) : (ZMod 2)[X] := ∑ i : Fin w, C (coeffBit (c.getLsbD i)) * X ^ (i : Nat)

/-- `x ^ w + poly`. -/
noncomputable def generator (poly : BitVec w) : (ZMod 2)[X] := X ^ w + regPoly poly

/-- The polynomial of a message, the first bit leading. -/
noncomputable def msgPoly : List Bool → (ZMod 2)[X]
  | [] => 0
  | b :: bs => C (coeffBit b) * X ^ bs.length + msgPoly bs

theorem coeff_regPoly (c : BitVec w) (k : Nat) : (regPoly c).coeff k = coeffBit (c.getLsbD k) := by
  unfold regPoly
  simp only [finsetSum_coeff, coeff_C_mul, coeff_X_pow]
  by_cases hk : k < w
  · rw [Finset.sum_eq_single (⟨k, hk⟩ : Fin w)]
    · simp
    · intro i _ hi
      have hne : k ≠ i.val := fun e => hi (Fin.ext e.symm)
      simp [hne]
    · intro h
      exact absurd (Finset.mem_univ _) h
  · rw [BitVec.getLsbD_of_ge c k (by omega)]
    apply Finset.sum_eq_zero
    intro i _
    have hne : k ≠ i.val := by omega
    simp [hne, coeffBit]

theorem degree_regPoly (c : BitVec w) : (regPoly c).degree < w := degree_sum_fin_lt _

theorem regPoly_zero : regPoly 0#w = 0 := by simp [regPoly, coeffBit]

theorem regPoly_xor (c d : BitVec w) : regPoly (c ^^^ d) = regPoly c + regPoly d := by
  ext k
  rw [coeff_add, coeff_regPoly, coeff_regPoly, coeff_regPoly, BitVec.getLsbD_xor, coeffBit_xor]

theorem generator_monic (poly : BitVec w) : (generator poly).Monic := monic_X_pow_add (degree_regPoly poly)

theorem degree_generator (poly : BitVec w) : (generator poly).degree = w := by
  unfold generator
  rw [degree_add_eq_left_of_degree_lt]
  · exact degree_X_pow w
  · rw [degree_X_pow]
    exact degree_regPoly poly

/-- A shift multiplies by `x` and drops the leading term. -/
theorem regPoly_shiftLeft (c : BitVec w) : regPoly (c <<< 1) = X * regPoly c + C (coeffBit c.msb) * X ^ w := by
  ext k
  rw [coeff_add, coeff_C_mul, coeff_X_pow, coeff_regPoly, BitVec.getLsbD_shiftLeft]
  cases k with
  | zero =>
    rw [mul_coeff_zero, coeff_X_zero, zero_mul, zero_add]
    cases w with
    | zero => simp [coeffBit, BitVec.eq_nil c]
    | succ n => simp [coeffBit]
  | succ k =>
    rw [coeff_X_mul, coeff_regPoly]
    by_cases hlast : k + 1 = w
    · subst hlast
      have hmsb : c.msb = c.getLsbD k := by rw [BitVec.msb_eq_getLsbD_last, Nat.add_sub_cancel]
      simp [hmsb, coeffBit, CharTwo.add_self_eq_zero]
    · by_cases hin : k + 1 < w
      · simp [hin, hlast]
      · simp [hin, hlast, BitVec.getLsbD_of_ge c k (by omega), coeffBit]

/-- One bit fed: modulo the generator the register is multiplied by `x`, and the bit comes in at `x ^ w`. -/
theorem regPoly_feed (poly c : BitVec w) (b : Bool) :
    regPoly (feed poly c b) =
      X * regPoly c + C (coeffBit b) * X ^ w + C (coeffBit (c.msb ^^ b)) * generator poly := by
  have hadd : regPoly (if c.msb ^^ b then poly else 0#w) = C (coeffBit (c.msb ^^ b)) * regPoly poly := by
    cases c.msb ^^ b <;> simp [coeffBit, regPoly_zero]
  have hbits : C (coeffBit c.msb) * X ^ w =
      C (coeffBit b) * X ^ w + C (coeffBit (c.msb ^^ b)) * (X : (ZMod 2)[X]) ^ w := by
    have hc : coeffBit c.msb = coeffBit b + coeffBit (c.msb ^^ b) := by
      cases c.msb <;> cases b <;> decide
    rw [hc, C_add, add_mul]
  unfold feed generator
  rw [regPoly_xor, regPoly_shiftLeft, hadd, hbits]
  ring

/-- **The register a message leaves is a remainder.** -/
theorem regPoly_crc (poly : BitVec w) (bs : List Bool) (c : BitVec w) :
    regPoly (crc poly c bs) = (msgPoly bs * X ^ w + regPoly c * X ^ bs.length) %ₘ generator poly := by
  induction bs generalizing c with
  | nil =>
    have hdeg : (regPoly c).degree < (generator poly).degree := by
      rw [degree_generator]
      exact degree_regPoly c
    simp only [crc_nil, msgPoly, zero_mul, zero_add, List.length_nil, pow_zero, mul_one]
    exact ((modByMonic_eq_self_iff (generator_monic poly)).mpr hdeg).symm
  | cons b bs ih =>
    rw [crc_cons, ih]
    apply modByMonic_eq_of_dvd_sub (generator_monic poly)
    -- the two messages differ by the multiple of the generator that the first bit has added
    refine ⟨C (coeffBit (c.msb ^^ b)) * X ^ bs.length, ?_⟩
    rw [regPoly_feed, msgPoly, List.length_cons]
    ring

/-! ## Messages that leave the zero register -/

theorem regPoly_eq_zero {c : BitVec w} : regPoly c = 0 ↔ c = 0#w := by
  refine ⟨fun h => BitVec.eq_of_getLsbD_eq fun k hk => ?_, fun h => by rw [h, regPoly_zero]⟩
  have hcoeff := congrArg (fun p => p.coeff k) h
  simp only [coeff_regPoly, coeff_zero] at hcoeff
  rw [BitVec.getLsbD_zero]
  cases hbit : c.getLsbD k with
  | false => rfl
  | true => simp [hbit, coeffBit] at hcoeff

/-- A generator with a constant term has no factor `x`. -/
theorem isCoprime_generator_X {poly : BitVec w} (hw : 0 < w) (h : poly.getLsbD 0 = true) :
    IsCoprime (generator poly) (X : (ZMod 2)[X]) := by
  have hconst : (generator poly).coeff 0 = 1 := by
    rw [generator, coeff_add, coeff_X_pow, coeff_regPoly, h, if_neg (by omega)]
    rfl
  refine ⟨1, -(generator poly).divX, ?_⟩
  have hsplit := divX_mul_X_add (generator poly)
  rw [hconst, C_1] at hsplit
  linear_combination -hsplit

/-- **The zero register.** Just the multiples of the generator leave it. -/
theorem crc_zero_iff_dvd {poly : BitVec w} (hw : 0 < w) (h : poly.getLsbD 0 = true) (bs : List Bool) :
    crc poly 0#w bs = 0#w ↔ generator poly ∣ msgPoly bs := by
  rw [← regPoly_eq_zero, regPoly_crc, regPoly_zero, zero_mul, add_zero,
    modByMonic_eq_zero_iff_dvd (generator_monic poly)]
  exact ⟨fun hdvd => ((isCoprime_generator_X hw h).pow_right).dvd_of_dvd_mul_right hdvd, fun hdvd => hdvd.mul_right _⟩

/-- The polynomial of a message given bit by bit. -/
theorem msgPoly_ofFn {n : Nat} (f : Fin n → Bool) :
    msgPoly (List.ofFn f) = ∑ k : Fin n, C (coeffBit (f k)) * X ^ (n - 1 - k.val) := by
  induction n with
  | zero => simp [msgPoly]
  | succ n ih =>
    rw [List.ofFn_succ, msgPoly, ih, Fin.sum_univ_succ, List.length_ofFn]
    congr 1
    refine Finset.sum_congr rfl fun k _ => ?_
    rw [Fin.val_succ, show n + 1 - 1 - (k.val + 1) = n - 1 - k.val by omega]

end Lfsr
