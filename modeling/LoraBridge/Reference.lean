import LoraBridge.Remainder
import LoraBridge.Checksum

/-!
# The packet checksum is CRC-16/CCITT

`stk_checksumm` against the bit-by-bit register (`crcCcitt`) and against polynomial division (`stkChecksumm_ccitt`). The
check of a packet, which compares two bytes with the sum of the 17 before them, asks for the residue zero of the whole
frame (`stkTest_exact`).
-/

set_option autoImplicit false

namespace LoraBridge

open Lfsr Polynomial

/-- CRC-16/CCITT bit by bit: `0xFFFF` at the start; a message bit, most significant first, shifts the register left and
adds `0x1021` when the bit shifted out differs from it. -/
def crcCcitt (bs : List Byte) : BitVec 16 := crc ccitt 0xFFFF#16 (wireBits bs)

theorem regPoly_ccitt : regPoly ccitt = X ^ 12 + X ^ 5 + 1 := by
  ext k
  rw [coeff_regPoly, coeff_add, coeff_add, coeff_X_pow, coeff_X_pow, coeff_one]
  by_cases hk : k < 16
  · revert k
    decide
  · rw [BitVec.getLsbD_of_ge ccitt k (by omega), if_neg (by omega), if_neg (by omega), if_neg (by omega)]
    rfl

/-- `ccitt` stands for the generator of the standard. -/
theorem generator_ccitt : generator ccitt = X ^ 16 + X ^ 12 + X ^ 5 + 1 := by
  rw [generator, regPoly_ccitt]
  ring

theorem stkChecksumm_length (dataP : List Byte) : stkChecksumm dataP dataP.length = crcCcitt dataP := by
  rw [stkChecksumm, stkCrc16, List.take_length, foldl_stkCrc16Step, crcCcitt]

/-- **`stk_crc16` is CRC-16/CCITT**: the bitwise register, and the remainder of the message with its preset. -/
theorem stkChecksumm_ccitt (dataP : List Byte) :
    stkChecksumm dataP dataP.length = crcCcitt dataP ∧
      regPoly (stkChecksumm dataP dataP.length) =
        (msgPoly (wireBits dataP) * X ^ 16 + regPoly 0xFFFF#16 * X ^ (8 * dataP.length)) %ₘ
          (X ^ 16 + X ^ 12 + X ^ 5 + 1) := by
  have hlen := stkChecksumm_length dataP
  refine ⟨hlen, ?_⟩
  rw [hlen, crcCcitt, regPoly_crc, generator_ccitt, wireBits_length]

/-! ## The packets that are accepted -/

/-- The register of the whole frame is the sum over all of its bytes. -/
theorem frameRegister_eq (p : PackData) : frameRegister p = stkChecksumm p.toList configStkPackConstLen := by
  have hlen : p.toList.length = configStkPackConstLen := Vector.length_toList
  rw [← hlen, stkChecksumm_length, frameRegister, crcCcitt]

/-- A packet with other checksum bytes. -/
def withSum (p : PackData) (lo hi : Byte) : PackData :=
  (p.set stkPCrcLo lo stkPCrcLo_lt).set stkPCrcHi hi stkPCrcHi_lt

theorem toList_take_withSum (p : PackData) (lo hi : Byte) : (withSum p lo hi).toList.take 17 = p.toList.take 17 := by
  apply List.ext_getElem
  · simp
  · intro k hk _
    have h17 : k < 17 := by simp at hk; omega
    simp [withSum, show ¬17 = k by omega, show ¬18 = k by omega]

/-- The pair that is accepted is the sum of the 17 bytes before it. -/
theorem stkTest_withSum (p : PackData) (lo hi : Byte) :
    stkTestPackChecksumm (withSum p lo hi) = true ↔
      lo = sum8Lo (stkChecksumm p.toList (configStkPackConstLen - 2)) ∧
        hi = sum8Hi (stkChecksumm p.toList (configStkPackConstLen - 2)) := by
  have hsum : stkChecksumm (withSum p lo hi).toList (configStkPackConstLen - 2) =
      stkChecksumm p.toList (configStkPackConstLen - 2) := by
    rw [stkChecksumm_eq, stkChecksumm_eq, toList_take_withSum]
  rw [stkTestPackChecksumm, hsum]
  simp [withSum]

/-- **The packets that are accepted**: those with residue zero; for every first 17 bytes, one pair of checksum bytes,
the one the sender writes. -/
theorem stkTest_exact (p : PackData) :
    (stkTestPackChecksumm p = true ↔ stkChecksumm p.toList configStkPackConstLen = 0#16) ∧
      (∃! cs : Byte × Byte, stkTestPackChecksumm (withSum p cs.1 cs.2) = true) ∧
      ∀ lo hi, stkTestPackChecksumm (withSum p lo hi) = true ↔ withSum p lo hi = stkSetPackChecksumm p := by
  refine ⟨?_, ?_, ?_⟩
  · rw [stkTest_iff, frameRegister_eq]
  · let sum := stkChecksumm p.toList (configStkPackConstLen - 2)
    refine ⟨(sum8Lo sum, sum8Hi sum), (stkTest_withSum p _ _).mpr ⟨rfl, rfl⟩, ?_⟩
    rintro ⟨lo, hi⟩ h
    obtain ⟨hlo, hhi⟩ := (stkTest_withSum p lo hi).mp h
    exact Prod.ext hlo hhi
  · intro lo hi
    constructor
    · intro h
      obtain ⟨hlo, hhi⟩ := (stkTest_withSum p lo hi).mp h
      rw [hlo, hhi]
      rfl
    · intro h
      rw [h]
      exact stkTest_set p

end LoraBridge
