import Mathlib.Data.BitVec

/-!
# The packet of the stack

A packet is `CONFIG_STK_PACK_CONST_LEN = 19` bytes: the level-one header, 16 bytes of payload and two checksum bytes.
The header byte is a union of bit-field structs; bit-fields are allocated from the least significant bit (gcc, x86), so
`type` is in bits 0-1, `id` in bits 2-3 and the last four bits depend on the view.
-/

set_option autoImplicit false

namespace LoraBridge

/-- `uint8_t`. -/
abbrev Byte := BitVec 8

/-- `uint8_t data[CONFIG_STK_PACK_CONST_LEN]`. -/
abbrev PackData := Vector Byte 19

def configStkPackConstLen : Nat := 19
/-- `CONFIG_STK_PACK_CONST_LEN - 3`. -/
def configStkPayloadLen : Nat := 19 - 3

abbrev stkPHeaderL1 : Fin 19 := 0
abbrev stkPPayloadL1 : Nat := 1
abbrev stkPCrcLo : Fin 19 := 17
abbrev stkPCrcHi : Fin 19 := 18

theorem stkPHeaderL1_lt : (stkPHeaderL1 : Nat) < 19 := stkPHeaderL1.isLt
theorem stkPCrcLo_lt : (stkPCrcLo : Nat) < 19 := stkPCrcLo.isLt
theorem stkPCrcHi_lt : (stkPCrcHi : Nat) < 19 := stkPCrcHi.isLt

/-! ## The checksum -/

/-- One byte of the loop of `stk_crc16`: `x` has 8 bits, the shifted terms are truncated to 16. -/
def stkCrc16Step (crc : BitVec 16) (byte : Byte) : BitVec 16 :=
  let x : Byte := (crc >>> 8).setWidth 8 ^^^ byte
  let x : Byte := x ^^^ (x >>> 4)
  (crc <<< 8) ^^^ (x.setWidth 16 <<< 12) ^^^ (x.setWidth 16 <<< 5) ^^^ x.setWidth 16

/-- The bytes at `data_p`, `length` of them. -/
def stkCrc16 (dataP : List Byte) (length : Nat) : BitVec 16 := (dataP.take length).foldl stkCrc16Step 0xFFFF#16

def stkChecksumm (dataP : List Byte) (length : Nat) : BitVec 16 := stkCrc16 dataP length

/-- `sum_8.hi` of `union stk_pack_checksum`: the first byte of `sum_16` in memory, on a little-endian target the low
one. -/
def sum8Hi (sum16 : BitVec 16) : Byte := sum16.setWidth 8

/-- `sum_8.lo`: the second byte of `sum_16` in memory. -/
def sum8Lo (sum16 : BitVec 16) : Byte := (sum16 >>> 8).setWidth 8

def stkTestPackChecksumm (dataP : PackData) : Bool :=
  let sum16 := stkChecksumm dataP.toList (configStkPackConstLen - 2)
  dataP[stkPCrcLo] == sum8Lo sum16 && dataP[stkPCrcHi] == sum8Hi sum16

def stkSetPackChecksumm (dataP : PackData) : PackData :=
  let sum16 := stkChecksumm dataP.toList (configStkPackConstLen - 2)
  (dataP.set stkPCrcLo (sum8Lo sum16)).set stkPCrcHi (sum8Hi sum16)

/-! ## The header -/

/-- `enum l1_pack_type`. -/
inductive L1PackType
  | typeInternal
  | typeSingle
  | typeMult
  | typeMultLast
  deriving DecidableEq, Repr

/-- The enumerators are 0 to 3. -/
def L1PackType.ofBits (b : BitVec 2) : L1PackType :=
  if b = 0#2 then .typeInternal else if b = 1#2 then .typeSingle else if b = 2#2 then .typeMult else .typeMultLast

def L1PackType.toBits : L1PackType → BitVec 2
  | .typeInternal => 0#2
  | .typeSingle => 1#2
  | .typeMult => 2#2
  | .typeMultLast => 3#2

/-- The fields of `union stk_pack_header_l1`, over its byte: `type` and `id` are common to all views. -/
def headerType (byte : Byte) : BitVec 2 := byte.extractLsb' 0 2
def headerId (byte : Byte) : BitVec 2 := byte.extractLsb' 2 2
/-- `single_pack.payload_len`. -/
def headerPayloadLen (byte : Byte) : BitVec 4 := byte.extractLsb' 4 4
/-- `internal_pack.reset`. -/
def headerReset (byte : Byte) : Bool := byte.getLsbD 4

/-- The byte whose `single_pack` fields are these. -/
def headerSinglePack (type id : BitVec 2) (payloadLen : BitVec 4) : Byte := (payloadLen ++ id) ++ type

def stkGetPackType (pack : PackData) : L1PackType := .ofBits (headerType pack[stkPHeaderL1])

def stkIsResetPack (pack : PackData) : Bool :=
  if stkGetPackType pack ≠ .typeInternal then false else headerReset pack[stkPHeaderL1]

/-- A `uint8_t` holding the two bits of the field. -/
def stkGetTransId (pack : PackData) : Byte := (headerId pack[stkPHeaderL1]).setWidth 8

/-- For the other types it prints that they are not supported, and returns 0. -/
def stkGetPayloadLen (dataP : PackData) : BitVec 16 :=
  let byte := dataP[stkPHeaderL1]
  if L1PackType.ofBits (headerType byte) = .typeSingle then (headerPayloadLen byte).setWidth 16 + 1#16
  else if L1PackType.ofBits (headerType byte) = .typeMult then BitVec.ofNat 16 configStkPayloadLen
  else 0#16

/-! ## A single packet -/

/-- `for (int i = 0; i < k; i++) dst[off + i] = src[i];` -/
def copyLoop {n : Nat} (dst : Vector Byte n) (off : Nat) (src : Nat → Byte) : Nat → Vector Byte n
  | 0 => dst
  | k + 1 => (copyLoop dst off src k).setIfInBounds (off + k) (src k)

/-- What `stk_llc_single_prepare` writes into `pack->data`; the checksum bytes keep what they held. -/
def singlePrepareData (transId : Byte) (data : PackData) (payload : Nat → Byte) (len : BitVec 16) : PackData :=
  let header := headerSinglePack L1PackType.typeSingle.toBits (transId.setWidth 2) ((len - 1#16).setWidth 4)
  copyLoop (data.set stkPHeaderL1 header) stkPPayloadL1 payload configStkPayloadLen

/-- `send_data`, 16 bytes of payload and three more. -/
def sendData : List Byte := [1, 2, 3, 4, 5, 6, 7, 8, 9, 10, 11, 12, 13, 14, 15, 16, 0, 0, 0]

/-! ## Lemmas -/

theorem getElem_copyLoop {n : Nat} (dst : Vector Byte n) (off : Nat) (src : Nat → Byte) (k : Nat) {j : Nat}
    (hj : j < n) : (copyLoop dst off src k)[j] = if off ≤ j ∧ j < off + k then src (j - off) else dst[j] := by
  induction k with
  | zero =>
    rw [if_neg (by omega)]
    rfl
  | succ k ih =>
    simp only [copyLoop, Vector.getElem_setIfInBounds, ih]
    by_cases hlast : off + k = j
    · subst hlast
      simp
    · by_cases hin : off ≤ j ∧ j < off + k
      · rw [if_neg hlast, if_pos hin, if_pos (by omega)]
      · rw [if_neg hlast, if_neg hin, if_neg (by omega)]

@[simp] theorem headerType_single (t i : BitVec 2) (l : BitVec 4) : headerType (headerSinglePack t i l) = t := by
  revert t i l
  decide +kernel

@[simp] theorem headerId_single (t i : BitVec 2) (l : BitVec 4) : headerId (headerSinglePack t i l) = i := by
  revert t i l
  decide +kernel

theorem headerPayloadLen_single (t i : BitVec 2) (l : BitVec 4) :
    headerPayloadLen (headerSinglePack t i l) = l := by
  revert t i l
  decide +kernel

@[simp] theorem ofBits_toBits (t : L1PackType) : L1PackType.ofBits t.toBits = t := by cases t <;> rfl

/-- The header a prepared packet carries. -/
theorem singlePrepareData_header (transId : Byte) (data : PackData) (payload : Nat → Byte) (len : BitVec 16) :
    (singlePrepareData transId data payload len)[stkPHeaderL1] =
      headerSinglePack L1PackType.typeSingle.toBits (transId.setWidth 2) ((len - 1#16).setWidth 4) := by
  simp [singlePrepareData, getElem_copyLoop]

theorem stkGetPackType_prepare (transId : Byte) (data : PackData) (payload : Nat → Byte) (len : BitVec 16) :
    stkGetPackType (singlePrepareData transId data payload len) = .typeSingle := by
  rw [stkGetPackType, singlePrepareData_header, headerType_single, ofBits_toBits]

/-- The id field holds the transaction id modulo four. -/
theorem stkGetTransId_prepare (transId : Byte) (data : PackData) (payload : Nat → Byte) (len : BitVec 16) :
    stkGetTransId (singlePrepareData transId data payload len) = (transId.setWidth 2).setWidth 8 := by
  rw [stkGetTransId, singlePrepareData_header, headerId_single]

end LoraBridge
