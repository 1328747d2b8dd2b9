import Mathlib.Data.List.GetD
import LoraBridge.Checksum
import LoraBridge.Linked
import LoraBridge.Worker

/-!
# Single packets on the wire

What `stk_llc_single_prepare` and `stk_set_pack_checksumm` make of a payload, the decoders read back
(`single_round_trip`). The copy loop of `stk_llc_single_prepare` runs over `CONFIG_STK_PAYLOAD_LEN` bytes whatever `len`
is: `singlePrepareFrom` gives it a buffer that ends, and has no result when the loop reads past the end
(`prepare_declared`).
-/

set_option autoImplicit false

namespace LoraBridge

/-- The packet handed to the air: prepared, then sealed. -/
def preparedPacket (tsm : Tsm) (pack : Pack) (payload : Nat → Byte) (len : BitVec 16) : PackData :=
  stkSetPackChecksumm ((stkLlcSinglePrepare tsm pack payload len).data pack)

theorem stkLlcSinglePrepare_data (tsm : Tsm) (pack : Pack) (payload : Nat → Byte) (len : BitVec 16) :
    (stkLlcSinglePrepare tsm pack payload len).data pack =
      singlePrepareData tsm.transId (tsm.data pack) payload len := by
  simp [stkLlcSinglePrepare, Tsm.setData]

/-! ## Round trip -/

section RoundTrip

variable (transId : Byte) (data : PackData) (payload : Nat → Byte) (len : BitVec 16)

@[simp] theorem stkIsResetPack_set : stkIsResetPack (stkSetPackChecksumm data) = stkIsResetPack data := by
  rw [stkIsResetPack, stkGetPackType_set, stkSet_header, stkIsResetPack]

@[simp] theorem stkGetPayloadLen_set : stkGetPayloadLen (stkSetPackChecksumm data) = stkGetPayloadLen data := by
  rw [stkGetPayloadLen, stkSet_header, stkGetPayloadLen]

theorem stkIsResetPack_prepare : stkIsResetPack (singlePrepareData transId data payload len) = false := by
  rw [stkIsResetPack, stkGetPackType_prepare]
  rfl

/-- The four bits of the length field hold `len - 1`. -/
theorem stkGetPayloadLen_prepare (h1 : 1 ≤ len.toNat) (h16 : len.toNat ≤ 16) :
    stkGetPayloadLen (singlePrepareData transId data payload len) = len := by
  rw [stkGetPayloadLen, singlePrepareData_header, headerType_single, headerPayloadLen_single, ofBits_toBits, if_pos rfl]
  apply BitVec.eq_of_toNat_eq
  simp only [BitVec.toNat_add, BitVec.toNat_setWidth, BitVec.toNat_sub, BitVec.toNat_ofNat]
  omega

/-- The id field has two bits. -/
theorem transId_field {transId : Byte} (h : transId ≤ transIdMax) : (transId.setWidth 2).setWidth 8 = transId := by
  revert transId
  decide

theorem getElem_prepare {k : Nat} (hk : k < 19) (h1 : 1 ≤ k) (h16 : k ≤ 16) :
    (singlePrepareData transId data payload len)[k] = payload (k - 1) := by
  rw [singlePrepareData, getElem_copyLoop, if_pos ⟨h1, by simp only [stkPPayloadL1, configStkPayloadLen]; omega⟩]

end RoundTrip

/-- **Round trip of single packets.** -/
theorem single_round_trip (tsm : Tsm) (pack : Pack) (payload : Nat → Byte) (len : BitVec 16)
    (hid : tsm.transId ≤ transIdMax) (h1 : 1 ≤ len.toNat) (h16 : len.toNat ≤ configStkPayloadLen) :
    stkTestPackChecksumm (preparedPacket tsm pack payload len) = true ∧
      stkGetPackType (preparedPacket tsm pack payload len) = .typeSingle ∧
      stkIsResetPack (preparedPacket tsm pack payload len) = false ∧
      stkGetTransId (preparedPacket tsm pack payload len) = tsm.transId ∧
      stkGetPayloadLen (preparedPacket tsm pack payload len) = len ∧
      (∀ i < len.toNat, (preparedPacket tsm pack payload len)[1 + i]? = some (payload i)) ∧
      (∀ old, preparedPacket (tsm.setData pack old) pack payload len = preparedPacket tsm pack payload len) ∧
      stkSetPackChecksumm (preparedPacket tsm pack payload len) = preparedPacket tsm pack payload len := by
  have h16' : len.toNat ≤ 16 := h16
  unfold preparedPacket
  simp only [stkLlcSinglePrepare_data]
  refine ⟨stkTest_set _, ?_, ?_, ?_, ?_, ?_, ?_, stkSet_set _⟩
  · rw [stkGetPackType_set, stkGetPackType_prepare]
  · rw [stkIsResetPack_set, stkIsResetPack_prepare]
  · rw [stkGetTransId_set, stkGetTransId_prepare, transId_field hid]
  · rw [stkGetPayloadLen_set, stkGetPayloadLen_prepare _ _ _ _ h1 h16']
  · intro i hi
    have hk : 1 + i < 19 := by omega
    rw [Vector.getElem?_eq_getElem hk, getElem_set_of_lt _ hk (by omega),
      getElem_prepare _ _ _ _ hk (by omega) (by omega), Nat.add_sub_cancel_left]
  · intro old
    exact stkSet_prepare _ _ _ _ _

/-- Five bytes of the payload, id 3. -/
theorem single_round_trip_five :
    stkGetPayloadLen (preparedPacket { Tsm.zeroed with transId := 3 } (.sendBuff 0) (fun i => BitVec.ofNat 8 i) 5) = 5 ∧
      (preparedPacket { Tsm.zeroed with transId := 3 } (.sendBuff 0) (fun i => BitVec.ofNat 8 i) 5)[1 + 4]? =
        some 4 := by
  obtain ⟨-, -, -, -, hlen, hbytes, -, -⟩ := single_round_trip { Tsm.zeroed with transId := 3 } (.sendBuff 0)
    (fun i => BitVec.ofNat 8 i) 5 (by decide) (by decide) (by decide)
  exact ⟨hlen, hbytes 4 (by decide)⟩

/-! ## A payload that ends -/

/-- The copy loop over a buffer of `src.length` bytes: no result when it reads past the end. -/
def copyLoopFrom {n : Nat} (dst : Vector Byte n) (off : Nat) (src : List Byte) : Nat → Option (Vector Byte n)
  | 0 => some dst
  | k + 1 => do
    let dst ← copyLoopFrom dst off src k
    let byte ← src[k]?
    return dst.setIfInBounds (off + k) byte

/-- `stk_llc_single_prepare` on a buffer that ends: the loop runs to `CONFIG_STK_PAYLOAD_LEN`, not to `len`. -/
def singlePrepareFrom (transId : Byte) (data : PackData) (payload : List Byte) (len : BitVec 16) : Option PackData :=
  let header := headerSinglePack L1PackType.typeSingle.toBits (transId.setWidth 2) ((len - 1#16).setWidth 4)
  copyLoopFrom (data.set stkPHeaderL1 header stkPHeaderL1_lt) stkPPayloadL1 payload configStkPayloadLen

def stkLlcSinglePrepareFrom (tsm : Tsm) (pack : Pack) (payload : List Byte) (len : BitVec 16) : Option Tsm := do
  let tsm := prAssert tsm (len.toNat ≤ configStkPayloadLen) .singleTooBig
  let tsm := prAssert tsm (len ≠ 0#16) .singleTooSmall
  let data ← singlePrepareFrom tsm.transId (tsm.data pack) payload len
  return tsm.setData pack data

/-- The packet handed to the air, when the payload is readable as far as it is read. -/
def preparedFrom (tsm : Tsm) (pack : Pack) (payload : List Byte) (len : BitVec 16) : Option PackData :=
  (stkLlcSinglePrepareFrom tsm pack payload len).map fun tsm => stkSetPackChecksumm (tsm.data pack)

theorem copyLoopFrom_short {n : Nat} (dst : Vector Byte n) (off : Nat) (src : List Byte) {k : Nat}
    (h : src.length < k) :
    copyLoopFrom dst off src k = none := by
  induction k with
  | zero => omega
  | succ k ih =>
    unfold copyLoopFrom
    by_cases hk : src.length < k
    · rw [ih hk]
      rfl
    · have hend : src[k]? = none := List.getElem?_eq_none (by omega)
      rw [hend]
      cases copyLoopFrom dst off src k <;> rfl

theorem copyLoopFrom_long {n : Nat} (dst : Vector Byte n) (off : Nat) (src : List Byte) {k : Nat} (h : k ≤ src.length) :
    copyLoopFrom dst off src k = some (copyLoop dst off (fun i => src.getD i 0) k) := by
  induction k with
  | zero => rfl
  | succ k ih =>
    have hk : src[k]? = some (src.getD k 0) := by
      rw [List.getElem?_eq_getElem (by omega), List.getD_eq_getElem?_getD, List.getElem?_eq_getElem (by omega)]
      rfl
    unfold copyLoopFrom
    rw [ih (by omega), hk]
    rfl

/-- A buffer of fewer than 16 bytes is read past its end, whatever `len` is. -/
theorem stkLlcSinglePrepareFrom_short (tsm : Tsm) (pack : Pack) {payload : List Byte} (len : BitVec 16)
    (h : payload.length < configStkPayloadLen) : stkLlcSinglePrepareFrom tsm pack payload len = none := by
  have hnone : ∀ transId data, singlePrepareFrom transId data payload len = none :=
    fun _ _ => copyLoopFrom_short _ _ _ h
  simp only [stkLlcSinglePrepareFrom, hnone, Option.bind_eq_bind, Option.bind_none]

/-- On a buffer of 16 bytes and more, it is the function of the workers. -/
theorem stkLlcSinglePrepareFrom_long (tsm : Tsm) (pack : Pack) {payload : List Byte} (len : BitVec 16)
    (h : configStkPayloadLen ≤ payload.length) :
    stkLlcSinglePrepareFrom tsm pack payload len =
      some (stkLlcSinglePrepare tsm pack (fun i => payload.getD i 0) len) := by
  have hsome : ∀ transId data, singlePrepareFrom transId data payload len =
      some (singlePrepareData transId data (fun i => payload.getD i 0) len) := fun _ _ => copyLoopFrom_long _ _ _ h
  simp only [stkLlcSinglePrepareFrom, hsome, Option.bind_eq_bind, Option.bind_some]
  rfl

theorem preparedFrom_long (tsm : Tsm) (pack : Pack) {payload : List Byte} (len : BitVec 16)
    (h : configStkPayloadLen ≤ payload.length) :
    preparedFrom tsm pack payload len = some (preparedPacket tsm pack (fun i => payload.getD i 0) len) := by
  rw [preparedFrom, stkLlcSinglePrepareFrom_long tsm pack len h]
  rfl

/-- Two payloads give one packet iff they agree on all 16 bytes that are copied. -/
theorem preparedPacket_eq_iff (tsm : Tsm) (pack : Pack) (payload payload' : Nat → Byte) (len : BitVec 16) :
    preparedPacket tsm pack payload len = preparedPacket tsm pack payload' len ↔
      ∀ i < configStkPayloadLen, payload i = payload' i := by
  unfold preparedPacket
  rw [stkLlcSinglePrepare_data, stkLlcSinglePrepare_data]
  constructor
  · intro h i hi
    have hi16 : i < 16 := hi
    have hk : 1 + i < 19 := by omega
    have hget := congrArg (fun d : PackData => d[1 + i]) h
    simp only [getElem_set_of_lt _ hk (by omega), getElem_prepare _ _ _ _ hk (by omega) (by omega),
      Nat.add_sub_cancel_left] at hget
    exact hget
  · intro h
    refine stkSet_congr fun k hk h17 => ?_
    rw [singlePrepareData, singlePrepareData, getElem_copyLoop, getElem_copyLoop]
    by_cases hin : stkPPayloadL1 ≤ k ∧ k < stkPPayloadL1 + configStkPayloadLen
    · rw [if_pos hin, if_pos hin]
      exact h _ (by omega)
    · rw [if_neg hin, if_neg hin]

/-- Agreement on 16 bytes, on lists. -/
theorem take_eq_iff {b b' : List Byte} {n : Nat} (hb : n ≤ b.length) (hb' : n ≤ b'.length) :
    b.take n = b'.take n ↔ ∀ i < n, b.getD i 0 = b'.getD i 0 := by
  constructor
  · intro h i hi
    have hget := congrArg (fun l : List Byte => l.getD i 0) h
    simpa [List.getD_eq_getElem?_getD, List.getElem?_take, hi] using hget
  · intro h
    apply List.ext_getElem
    · simp only [List.length_take]
      omega
    · intro i hi _
      have hn : i < n := by simp only [List.length_take] at hi; omega
      have hget := h i hn
      rw [List.getD_eq_getElem _ _ (by omega), List.getD_eq_getElem _ _ (by omega)] at hget
      rwa [List.getElem_take, List.getElem_take]

/-- **What reaches the air.** Two buffers agree on the `len` bytes declared. The loop stays within these, and one
packet results, iff `len` is the full payload length; when both go on to 16 bytes, one packet results iff they agree on
these. -/
theorem prepare_declared (tsm : Tsm) (pack : Pack) (len : BitVec 16) (b b' : List Byte)
    (h16 : len.toNat ≤ configStkPayloadLen) (hb : len.toNat ≤ b.length) (hb' : len.toNat ≤ b'.length)
    (hagree : b.take len.toNat = b'.take len.toNat) :
    ((stkLlcSinglePrepareFrom tsm pack (b.take len.toNat) len).isSome = true ∧
        (∃ p, preparedFrom tsm pack b len = some p ∧ preparedFrom tsm pack b' len = some p) ↔
      len.toNat = configStkPayloadLen) ∧
    (configStkPayloadLen ≤ b.length → configStkPayloadLen ≤ b'.length →
      (preparedFrom tsm pack b len = preparedFrom tsm pack b' len ↔
        b.take configStkPayloadLen = b'.take configStkPayloadLen)) := by
  have hlong : configStkPayloadLen ≤ b.length → configStkPayloadLen ≤ b'.length →
      (preparedFrom tsm pack b len = preparedFrom tsm pack b' len ↔
        b.take configStkPayloadLen = b'.take configStkPayloadLen) := by
    intro hl hl'
    rw [preparedFrom_long tsm pack len hl, preparedFrom_long tsm pack len hl', Option.some.injEq, preparedPacket_eq_iff,
      take_eq_iff hl hl']
  refine ⟨⟨?_, ?_⟩, hlong⟩
  · rintro ⟨hread, -⟩
    by_contra hne
    have hshort : (b.take len.toNat).length < configStkPayloadLen := by
      rw [List.length_take]
      omega
    rw [stkLlcSinglePrepareFrom_short tsm pack len hshort] at hread
    cases hread
  · intro hlen
    rw [hlen] at hb hb' hagree ⊢
    refine ⟨?_, _, preparedFrom_long tsm pack len hb, ?_⟩
    · rw [stkLlcSinglePrepareFrom_long tsm pack len (by rw [List.length_take]; omega)]
      rfl
    · rw [← (hlong hb hb').mpr hagree, preparedFrom_long tsm pack len hb]

/-- `send_data`, with something else behind its first 16 bytes. -/
theorem prepare_declared_full :
    ∃ p, preparedFrom Tsm.zeroed (.sendBuff 0) sendData 16 = some p ∧
      preparedFrom Tsm.zeroed (.sendBuff 0) (sendData.take 16 ++ [7]) 16 = some p :=
  ((prepare_declared Tsm.zeroed (.sendBuff 0) 16 sendData (sendData.take 16 ++ [7]) (by decide) (by decide) (by decide)
    (by decide)).1.mpr rfl).2

/-- One byte of payload: a buffer of one byte is read past its end, and what follows the byte is transmitted. -/
theorem prepare_overreads :
    stkLlcSinglePrepareFrom Tsm.zeroed (.sendBuff 0) [7] 1 = none ∧
      ¬∃ p, preparedFrom Tsm.zeroed (.sendBuff 0) (7 :: List.replicate 15 0) 1 = some p ∧
        preparedFrom Tsm.zeroed (.sendBuff 0) (7 :: List.replicate 15 1) 1 = some p := by
  refine ⟨stkLlcSinglePrepareFrom_short _ _ _ (by decide), ?_⟩
  rintro ⟨p, h0, h1⟩
  rw [← h1, preparedFrom_long _ _ _ (by decide), preparedFrom_long _ _ _ (by decide), Option.some.injEq,
    preparedPacket_eq_iff] at h0
  exact absurd (h0 1 (by decide)) (by decide)

end LoraBridge
