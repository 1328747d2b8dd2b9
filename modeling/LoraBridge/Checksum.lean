import Mathlib.Data.List.OfFn
import Mathlib.Data.Finset.Card
import Mathlib.Data.Fintype.Card
import Mathlib.Algebra.BigOperators.Group.Finset.Basic
import Mathlib.Algebra.Group.Nat.Even
import LoraBridge.Lfsr
import LoraBridge.Packet

/-!
# What the packet checksum detects

`stk_crc16` folds a byte into its register by a nibble trick; it is the bitwise register of `Lfsr` with the generator
`x ^ 16 + x ^ 12 + x ^ 5 + 1` (`stkCrc16Step_eq`). The union puts the high byte of the sum first on the wire, so a
packet passes the test iff the register of all its 19 bytes is zero (`stkTest_iff`), and damage to a sealed packet is
found iff the damage alone leaves a nonzero register (`stkTest_damaged`).
-/

set_option autoImplicit false

namespace LoraBridge

open Lfsr

/-- `x ^ 16 + x ^ 12 + x ^ 5 + 1`, its leading term left out. -/
def ccitt : BitVec 16 := 0x1021#16

/-- The bits of a byte in transmission order, most significant first. -/
def byteBits (b : Byte) : List Bool := List.ofFn fun r : Fin 8 => b.getMsbD r

/-- The bits of a run of bytes in transmission order. -/
def wireBits (bs : List Byte) : List Bool := bs.flatMap byteBits

/-! ## One byte -/

theorem stkCrc16Step_zero (b : Byte) : stkCrc16Step 0#16 b = crc ccitt 0#16 (byteBits b) := by
  revert b
  decide +kernel

/-- The register enters the step through its high byte, the low byte is moved up. -/
theorem stkCrc16Step_split (c : BitVec 16) (b : Byte) :
    stkCrc16Step c b = (c <<< 8) ^^^ stkCrc16Step 0#16 (sum8Lo c ^^^ b) := by
  simp [stkCrc16Step, sum8Lo, BitVec.xor_assoc]

theorem crc_high_byte (b : Byte) : crc ccitt (b.setWidth 16 <<< 8) (byteBits b) = 0#16 := by
  revert b
  decide +kernel

theorem crc_low_byte (b : Byte) : crc ccitt (b.setWidth 16) (byteBits 0#8) = b.setWidth 16 <<< 8 := by
  revert b
  decide +kernel

/-- A sum is its two bytes. -/
theorem sum8_split (c : BitVec 16) : c = ((sum8Lo c).setWidth 16 <<< 8) ^^^ (sum8Hi c).setWidth 16 := by
  apply BitVec.eq_of_getLsbD_eq
  intro i hi
  by_cases h : i < 8
  · simp [sum8Lo, sum8Hi, h, hi]
  · have h' : i - 8 < 8 := by omega
    simp [sum8Lo, sum8Hi, h, hi, h', show 8 + (i - 8) = i by omega]

theorem sum8Hi_shift (c : BitVec 16) : (sum8Hi c).setWidth 16 <<< 8 = c <<< 8 := by
  apply BitVec.eq_of_getLsbD_eq
  intro i hi
  by_cases h : i < 8
  · simp [h, hi]
  · simp [sum8Hi, h, hi, show i - 8 < 8 by omega, BitVec.getLsbD_eq_getElem (x := c) (show i - 8 < 16 by omega)]

theorem sum8Lo_shift (c : BitVec 16) : sum8Lo (c <<< 8) = sum8Hi c := by
  apply BitVec.eq_of_getLsbD_eq
  intro i hi
  simp [sum8Lo, sum8Hi, hi, show 8 + i < 16 by omega, BitVec.getLsbD_eq_getElem (x := c) (show i < 16 by omega)]

theorem byteBits_length (b : Byte) : (byteBits b).length = 8 := by simp [byteBits]

theorem byteBits_xor (a b : Byte) : byteBits (a ^^^ b) = List.zipWith xor (byteBits a) (byteBits b) := by
  apply List.ext_getElem
  · simp [byteBits]
  · intro k hk _
    simp [byteBits]

/-- Eight bits fed to a register that holds them in its high byte only move the low byte up. -/
theorem crc_byte_cancel (c : BitVec 16) : crc ccitt c (byteBits (sum8Lo c)) = c <<< 8 := by
  have hbits : byteBits (sum8Lo c) = List.zipWith xor (byteBits (sum8Lo c)) (byteBits 0#8) := by
    rw [← byteBits_xor, BitVec.xor_zero]
  calc crc ccitt c (byteBits (sum8Lo c))
      = crc ccitt (((sum8Lo c).setWidth 16 <<< 8) ^^^ (sum8Hi c).setWidth 16)
          (List.zipWith xor (byteBits (sum8Lo c)) (byteBits 0#8)) := by rw [← sum8_split, ← hbits]
    _ = 0#16 ^^^ ((sum8Hi c).setWidth 16 <<< 8) := by
        rw [crc_xor _ _ _ _ _ (by simp [byteBits_length]), crc_high_byte, crc_low_byte]
    _ = c <<< 8 := by rw [BitVec.zero_xor, sum8Hi_shift]

/-- **The nibble trick is eight shifts.** -/
theorem stkCrc16Step_eq (c : BitVec 16) (b : Byte) : stkCrc16Step c b = crc ccitt c (byteBits b) := by
  have hb : byteBits b = List.zipWith xor (byteBits (sum8Lo c)) (byteBits (sum8Lo c ^^^ b)) := by
    rw [← byteBits_xor, ← BitVec.xor_assoc, BitVec.xor_self, BitVec.zero_xor]
  conv_rhs => rw [hb]
  rw [crc_damaged _ _ (by simp [byteBits_length]), crc_byte_cancel, ← stkCrc16Step_zero, ← stkCrc16Step_split]

theorem foldl_stkCrc16Step (bs : List Byte) (c : BitVec 16) : bs.foldl stkCrc16Step c = crc ccitt c (wireBits bs) := by
  induction bs generalizing c with
  | nil => rfl
  | cons b bs ih => rw [List.foldl_cons, ih, stkCrc16Step_eq, ← crc_append, wireBits, wireBits, List.flatMap_cons]

/-! ## The test -/

/-- The register of all 19 bytes. -/
def frameRegister (data : PackData) : BitVec 16 := crc ccitt 0xFFFF#16 (wireBits data.toList)

/-- The register of the first 17 bytes is the sum the stack computes. -/
theorem stkChecksumm_eq (data : PackData) :
    stkChecksumm data.toList (configStkPackConstLen - 2) = crc ccitt 0xFFFF#16 (wireBits (data.toList.take 17)) :=
  foldl_stkCrc16Step _ _

theorem toList_split (data : PackData) : data.toList = data.toList.take 17 ++ [data[17], data[18]] := by
  apply List.ext_getElem
  · simp
  · intro k hk hk'
    simp only [Vector.length_toList] at hk
    by_cases h17 : k < 17
    · simp [h17]
    · have hcases : k = 17 ∨ k = 18 := by omega
      rcases hcases with rfl | rfl <;> simp

/-- Two more bytes bring the register to zero only when they are its own two bytes, the high one first. -/
theorem crc_two_bytes (s : BitVec 16) (a b : Byte) :
    crc ccitt s (byteBits a ++ byteBits b) = 0#16 ↔ a = sum8Lo s ∧ b = sum8Hi s := by
  have hown : crc ccitt s (byteBits (sum8Lo s) ++ byteBits (sum8Hi s)) = 0#16 := by
    rw [crc_append, crc_byte_cancel, ← sum8Lo_shift, crc_byte_cancel]
    simp [← BitVec.shiftLeft_add]
  constructor
  · intro h
    have hsum : crc ccitt 0#16 (byteBits (sum8Lo s ^^^ a) ++ byteBits (sum8Hi s ^^^ b)) = 0#16 := by
      have hx := @crc_damaged _ ccitt s (byteBits (sum8Lo s) ++ byteBits (sum8Hi s))
        (byteBits (sum8Lo s ^^^ a) ++ byteBits (sum8Hi s ^^^ b)) (by simp [byteBits_length])
      rw [List.zipWith_append (by simp [byteBits_length]), ← byteBits_xor, ← byteBits_xor, ← BitVec.xor_assoc,
        ← BitVec.xor_assoc, BitVec.xor_self, BitVec.xor_self, BitVec.zero_xor, BitVec.zero_xor, h, hown] at hx
      simpa using hx.symm
    have hnone := crc_zero_short (by decide) _ (by simp [byteBits_length]) hsum
    have hzero : ∀ x : Byte, true ∉ byteBits x → x = 0#8 := by decide +kernel
    rw [List.mem_append, not_or] at hnone
    exact ⟨(BitVec.xor_eq_zero_iff.mp (hzero _ hnone.1)).symm, (BitVec.xor_eq_zero_iff.mp (hzero _ hnone.2)).symm⟩
  · rintro ⟨rfl, rfl⟩
    exact hown

/-- **The packets that pass**: those whose 19 bytes leave the zero register. -/
theorem stkTest_iff (data : PackData) : stkTestPackChecksumm data = true ↔ frameRegister data = 0#16 := by
  have hframe : frameRegister data =
      crc ccitt (stkChecksumm data.toList (configStkPackConstLen - 2)) (byteBits data[17] ++ byteBits data[18]) := by
    rw [stkChecksumm_eq, ← crc_append, frameRegister]
    conv_lhs => rw [toList_split, wireBits, List.flatMap_append]
    simp [wireBits]
  rw [hframe, crc_two_bytes, stkTestPackChecksumm]
  simp [stkPCrcLo, stkPCrcHi]

/-! ## Sealed packets -/

/-- Sealing leaves the first 17 bytes, so the sum they give. -/
theorem toList_take_set (data : PackData) : (stkSetPackChecksumm data).toList.take 17 = data.toList.take 17 := by
  apply List.ext_getElem
  · simp
  · intro k hk _
    have h17 : k < 17 := by simp at hk; omega
    simp [stkSetPackChecksumm, show ¬17 = k by omega, show ¬18 = k by omega]

/-- A sealed packet passes. -/
theorem stkTest_set (data : PackData) : stkTestPackChecksumm (stkSetPackChecksumm data) = true := by
  have hsum : stkChecksumm (stkSetPackChecksumm data).toList (configStkPackConstLen - 2) =
      stkChecksumm data.toList (configStkPackConstLen - 2) := by
    rw [stkChecksumm_eq, stkChecksumm_eq, toList_take_set]
  rw [stkTestPackChecksumm, hsum]
  simp [stkSetPackChecksumm]

theorem getElem_set_of_lt (data : PackData) {k : Nat} (hk : k < 19) (h17 : k < 17) :
    (stkSetPackChecksumm data)[k] = data[k] := by
  simp [stkSetPackChecksumm, show ¬17 = k by omega, show ¬18 = k by omega]

/-- Sealing overwrites the two checksum bytes: it depends on the first 17 bytes only. -/
theorem stkSet_congr {d d' : PackData} (h : ∀ k, ∀ hk : k < 19, k < 17 → d[k] = d'[k]) :
    stkSetPackChecksumm d = stkSetPackChecksumm d' := by
  have htake : d.toList.take 17 = d'.toList.take 17 := by
    apply List.ext_getElem
    · simp
    · intro k hk _
      have h17 : k < 17 := by simp at hk; omega
      simpa using h k (by omega) h17
  have hsum : stkChecksumm d.toList (configStkPackConstLen - 2) =
      stkChecksumm d'.toList (configStkPackConstLen - 2) := by
    rw [stkChecksumm_eq, stkChecksumm_eq, htake]
  rw [stkSetPackChecksumm, stkSetPackChecksumm, hsum]
  apply Vector.ext
  intro k hk
  by_cases h17 : k < 17
  · simpa [show ¬17 = k by omega, show ¬18 = k by omega] using h k hk h17
  · have hcases : k = 17 ∨ k = 18 := by omega
    rcases hcases with rfl | rfl <;> simp

/-- Sealing again, as every retransmission does, changes nothing. -/
@[simp] theorem stkSet_set (data : PackData) :
    stkSetPackChecksumm (stkSetPackChecksumm data) = stkSetPackChecksumm data :=
  stkSet_congr fun _ hk h17 => getElem_set_of_lt data hk h17

@[simp] theorem stkSet_header (data : PackData) :
    getElem (stkSetPackChecksumm data) stkPHeaderL1 stkPHeaderL1_lt = getElem data stkPHeaderL1 stkPHeaderL1_lt :=
  getElem_set_of_lt data (by decide) (by decide)

@[simp] theorem stkGetPackType_set (data : PackData) :
    stkGetPackType (stkSetPackChecksumm data) = stkGetPackType data := by
  rw [stkGetPackType, stkSet_header, stkGetPackType]

@[simp] theorem stkGetTransId_set (data : PackData) :
    stkGetTransId (stkSetPackChecksumm data) = stkGetTransId data := by
  rw [stkGetTransId, stkSet_header, stkGetTransId]

/-- What a full-length packet looks like on the air does not depend on what its buffer held. -/
theorem stkSet_prepare (transId : Byte) (d d' : PackData) (payload : Nat → Byte) (len : BitVec 16) :
    stkSetPackChecksumm (singlePrepareData transId d payload len) =
      stkSetPackChecksumm (singlePrepareData transId d' payload len) := by
  refine stkSet_congr fun k hk h17 => ?_
  rw [singlePrepareData, singlePrepareData, getElem_copyLoop, getElem_copyLoop]
  by_cases h0 : k = 0
  · subst h0
    simp
  · have hin : stkPPayloadL1 ≤ k ∧ k < stkPPayloadL1 + configStkPayloadLen :=
      ⟨Nat.one_le_iff_ne_zero.mpr h0, h17⟩
    rw [if_pos hin, if_pos hin]

/-! ## Damage -/

/-- The bits of byte `j` that are in `S`, numbered in transmission order. -/
def flipMask (S : Finset (Fin 152)) (j : Fin 19) : Byte :=
  (BitVec.ofBoolListBE (List.ofFn fun r : Fin 8 => decide ((⟨8 * j + r, by omega⟩ : Fin 152) ∈ S))).cast
    List.length_ofFn

/-- The packet with the bits at the positions of `S` inverted. -/
def flipBits (data : PackData) (S : Finset (Fin 152)) : PackData := Vector.ofFn fun j => data[j] ^^^ flipMask S j

/-- The damage itself, as a message. -/
def damage (S : Finset (Fin 152)) : List Bool := List.ofFn fun k : Fin 152 => decide (k ∈ S)

theorem damage_length (S : Finset (Fin 152)) : (damage S).length = 152 := List.length_ofFn

theorem wireBits_length (bs : List Byte) : (wireBits bs).length = 8 * bs.length := by
  induction bs with
  | nil => rfl
  | cons b bs ih =>
    rw [wireBits, List.flatMap_cons, List.length_append, byteBits_length, ← wireBits, ih, List.length_cons]
    omega

/-- Bit `k` on the wire is bit `k % 8` of byte `k / 8`. -/
theorem getElem?_wireBits (bs : List Byte) (k : Nat) :
    (wireBits bs)[k]? = bs[k / 8]?.map (fun b => b.getMsbD (k % 8)) := by
  induction bs generalizing k with
  | nil => simp [wireBits]
  | cons b bs ih =>
    rw [wireBits, List.flatMap_cons, ← wireBits, List.getElem?_append, byteBits_length]
    by_cases hk : k < 8
    · have h0 : k / 8 = 0 := by omega
      have hr : k % 8 = k := by omega
      rw [if_pos hk, h0, hr, byteBits, List.getElem?_ofFn]
      simp [hk]
    · have hq : k / 8 = (k - 8) / 8 + 1 := by omega
      have hr : k % 8 = (k - 8) % 8 := by omega
      rw [if_neg hk, ih, hq, hr, List.getElem?_cons_succ]

theorem getMsbD_flipMask (S : Finset (Fin 152)) {k : Nat} (hk : k < 152) :
    (flipMask S ⟨k / 8, by omega⟩).getMsbD (k % 8) = decide ((⟨k, hk⟩ : Fin 152) ∈ S) := by
  have hr : k % 8 < 8 := by omega
  have hsum : 8 * (k / 8) + k % 8 = k := by omega
  rw [flipMask, BitVec.getMsbD_cast, BitVec.getMsbD_ofBoolListBE, List.getD_eq_getElem?_getD, List.getElem?_ofFn]
  simp [hr, hsum]

theorem wireBits_flipBits (data : PackData) (S : Finset (Fin 152)) :
    wireBits (flipBits data S).toList = List.zipWith xor (wireBits data.toList) (damage S) := by
  apply List.ext_getElem?
  intro k
  rw [List.getElem?_zipWith, getElem?_wireBits, getElem?_wireBits]
  by_cases hk : k < 152
  · have hb : k / 8 < 19 := by omega
    have hbit := getMsbD_flipMask S hk
    rw [damage, List.getElem?_ofFn]
    simp only [Vector.getElem?_toList, Vector.getElem?_eq_getElem hb, Option.map_some, hk, dif_pos, flipBits,
      Vector.getElem_ofFn, BitVec.getMsbD_xor, hbit]
    rfl
  · have hb : ¬k / 8 < 19 := by omega
    simp [Vector.getElem?_eq_none (Nat.le_of_not_lt hb)]

/-- **Damage to a sealed packet** passes the test iff the damage alone leaves the zero register. -/
theorem stkTest_damaged (data : PackData) (S : Finset (Fin 152)) :
    stkTestPackChecksumm (flipBits (stkSetPackChecksumm data) S) = true ↔ crc ccitt 0#16 (damage S) = 0#16 := by
  have hsealed : crc ccitt 0xFFFF#16 (wireBits (stkSetPackChecksumm data).toList) = 0#16 :=
    (stkTest_iff _).mp (stkTest_set data)
  rw [stkTest_iff, frameRegister, wireBits_flipBits, crc_damaged _ _ (by rw [wireBits_length, damage_length]; simp),
    hsealed, BitVec.zero_xor]

theorem getElem?_damage (S : Finset (Fin 152)) (k : Nat) :
    (damage S)[k]? = some true ↔ ∃ h : k < 152, (⟨k, h⟩ : Fin 152) ∈ S := by
  rw [damage, List.getElem?_ofFn]
  by_cases h : k < 152
  · simp only [h, dif_pos, Option.some.injEq, decide_eq_true_iff, exists_true_left]
  · simp only [h, dif_neg, not_false_iff, IsEmpty.exists_iff, reduceCtorEq]

theorem weight_damage (S : Finset (Fin 152)) : weight (damage S) = S.card := by
  rw [weight, damage, List.map_ofFn, List.sum_ofFn]
  simp [Finset.sum_ite_mem]

/-- `x` has an order above the number of bits of a packet. -/
theorem ccitt_order : ∀ d < 151, crc ccitt ccitt (List.replicate (d + 1) false) ≠ ccitt := by decide +kernel

/-- Damage of odd weight is found. -/
theorem crc_damage_odd {S : Finset (Fin 152)} (h : Odd S.card) : crc ccitt 0#16 (damage S) ≠ 0#16 := by
  apply crc_zero_parity (by decide)
  rw [weight_damage]
  exact ZMod.natCast_eq_one_iff_odd.mpr h

/-- Damage of two bits is found. -/
theorem crc_damage_pair {S : Finset (Fin 152)} (h : S.card = 2) : crc ccitt 0#16 (damage S) ≠ 0#16 := by
  obtain ⟨x, y, hxy, rfl⟩ := Finset.card_eq_two.mp h
  wlog hlt : x < y generalizing x y
  · rw [Finset.pair_comm]
    exact this y x (Ne.symm hxy) (by rwa [Finset.pair_comm]) (lt_of_le_of_ne (not_lt.mp hlt) (Ne.symm hxy))
  have hval : x.val < y.val := hlt
  have hd : x.val + (y.val - x.val - 1) + 1 = y.val := by omega
  refine crc_zero_pair (by decide) (by decide) x.val (y.val - x.val - 1) ?_ (fun k => ?_) (ccitt_order _ (by omega))
  · rw [hd, damage_length]
    exact y.isLt
  · rw [getElem?_damage, hd]
    constructor
    · rintro ⟨hk, hmem⟩
      simpa [Fin.ext_iff] using hmem
    · rintro (rfl | rfl)
      · exact ⟨x.isLt, by simp⟩
      · exact ⟨y.isLt, by simp⟩

/-- Damage within 16 consecutive bits is found. -/
theorem crc_damage_burst {S : Finset (Fin 152)} (hne : S.Nonempty) {i : Nat} (h : ∀ k ∈ S, i ≤ k.val ∧ k.val < i + 16) :
    crc ccitt 0#16 (damage S) ≠ 0#16 := by
  refine crc_zero_window (by decide) (by decide) i ?_ (fun k hk => ?_)
  · obtain ⟨x, hx⟩ := hne
    exact List.mem_of_getElem? ((getElem?_damage S x.val).mpr ⟨x.isLt, hx⟩)
  · obtain ⟨hk152, hmem⟩ := (getElem?_damage S k).mp hk
    exact h _ hmem

/-- **Error detection.** A sealed packet whose bits are inverted at an odd number of positions, at two, or at some
within 16 consecutive bits of the transmission, is rejected. -/
theorem stkTest_rejects_damage (data : PackData) (S : Finset (Fin 152)) (hne : S.Nonempty)
    (hS : Odd S.card ∨ S.card = 2 ∨ ∃ i : Nat, ∀ k ∈ S, i ≤ k.val ∧ k.val < i + 16) :
    stkTestPackChecksumm (flipBits (stkSetPackChecksumm data) S) = false := by
  rw [Bool.eq_false_iff, Ne, stkTest_damaged]
  rcases hS with hodd | hpair | ⟨i, hburst⟩
  · exact crc_damage_odd hodd
  · exact crc_damage_pair hpair
  · exact crc_damage_burst hne hburst

/-- Three bits of one byte, in an arbitrary packet. -/
theorem stkTest_rejects_three_bits :
    stkTestPackChecksumm (flipBits (stkSetPackChecksumm (Vector.replicate 19 0)) {3, 4, 7}) = false :=
  stkTest_rejects_damage _ _ (by decide) (Or.inl (by decide))

end LoraBridge
