import LoraBridge.Toggle
import LoraBridge.Effects

/-!
# What `wl_pack_break` corrupts

The bits that `wl_pack_break` flips depend on the draws only (`wlPackBreakFlips`); the first one is never flipped again.
The number it returns counts the flips, in 32 bits (`wlPackBreak_sound`).
-/

set_option autoImplicit false

namespace LoraBridge

open Toggle

/-! ## Bits of a buffer -/

/-- Bit `k % 8` of byte `k / 8`. -/
def wlBit (data : WlData) (k : Fin 2048) : Bool := (data ⟨k.val / 8, by omega⟩).getLsbD (k.val % 8)

/-- The number of bits in which two buffers differ. -/
def bitsDiffer (a b : WlData) : Nat := (Finset.univ.filter fun k => wlBit a k ≠ wlBit b k).card

/-- The bit that `wl_pack_bit_flip` flips: the byte number has 8 bits. -/
def flipPos (bit : BitVec 32) : Fin 2048 := ⟨bit.toNat % 2048, Nat.mod_lt _ (by decide)⟩

theorem getLsbD_one_shiftLeft : ∀ n < 8, ∀ r < 8, (1#8 <<< n).getLsbD r = decide (r = n) := by decide

theorem getLsbD_wlPackBitFlip (bit : BitVec 32) (pack : WlData) (i : Fin 256) {r : Nat} (hr : r < 8) :
    (wlPackBitFlip bit pack i).getLsbD r =
      ((pack i).getLsbD r ^^ decide (i.val = bit.toNat / 8 % 256 ∧ r = bit.toNat % 8)) := by
  have hbyte : ((bit / 8#32).setWidth 8).toFin.val = bit.toNat / 8 % 256 := by simp
  have hbit : ((bit % 8#32).setWidth 8).toNat = bit.toNat % 8 := by
    simp only [BitVec.toNat_setWidth, BitVec.toNat_umod, BitVec.toNat_ofNat, Nat.reducePow, Nat.reduceMod]
    omega
  unfold wlPackBitFlip
  by_cases hi : i = ((bit / 8#32).setWidth 8).toFin
  · subst hi
    rw [Function.update_self, BitVec.getLsbD_xor, hbit, getLsbD_one_shiftLeft _ (by omega) _ hr]
    simp only [hbyte, true_and]
  · have hne : ¬(i.val = bit.toNat / 8 % 256 ∧ r = bit.toNat % 8) :=
      fun h => hi (Fin.ext (h.1.trans hbyte.symm))
    rw [Function.update_of_ne hi, decide_eq_false hne, Bool.xor_false]

theorem wlBit_flip (bit : BitVec 32) (pack : WlData) :
    wlBit (wlPackBitFlip bit pack) = Function.update (wlBit pack) (flipPos bit) (!wlBit pack (flipPos bit)) := by
  funext k
  have hpos : (flipPos bit).val = bit.toNat % 2048 := rfl
  rw [wlBit, getLsbD_wlPackBitFlip bit pack _ (by omega)]
  by_cases hk : k = flipPos bit
  · subst hk
    have hself : (flipPos bit).val / 8 = bit.toNat / 8 % 256 ∧ (flipPos bit).val % 8 = bit.toNat % 8 := by omega
    rw [Function.update_self, decide_eq_true hself, Bool.xor_true]
    rfl
  · have hne : ¬(k.val / 8 = bit.toNat / 8 % 256 ∧ k.val % 8 = bit.toNat % 8) :=
      fun h => hk (Fin.ext (by omega))
    rw [Function.update_of_ne hk, decide_eq_false hne, Bool.xor_false]
    rfl

/-- The buffer after the flips of `fs`. -/
def flipAll (fs : List (BitVec 32)) (pack : WlData) : WlData := fs.foldl (fun pack bit => wlPackBitFlip bit pack) pack

theorem wlBit_flipAll (fs : List (BitVec 32)) (pack : WlData) :
    wlBit (flipAll fs pack) = toggle (wlBit pack) (fs.map flipPos) := by
  induction fs generalizing pack with
  | nil => rfl
  | cons bit fs ih =>
    have hcons : flipAll (bit :: fs) pack = flipAll fs (wlPackBitFlip bit pack) := rfl
    rw [hcons, ih, wlBit_flip]
    rfl

/-- A flip changes a byte of the packet as that byte says, wherever the others come from. -/
theorem packOfData_flip {a b : WlData} (h : packOfData a = packOfData b) (bit : BitVec 32) :
    packOfData (wlPackBitFlip bit a) = packOfData (wlPackBitFlip bit b) := by
  refine Vector.ext fun i hi => ?_
  have hbyte : a (Fin.castLE (by decide) (⟨i, hi⟩ : Fin 19)) = b (Fin.castLE (by decide) (⟨i, hi⟩ : Fin 19)) := by
    have hget := congrArg (fun d : PackData => d[i]) h
    simpa only [packOfData, Vector.getElem_ofFn] using hget
  simp only [packOfData, Vector.getElem_ofFn, wlPackBitFlip, Function.update_apply]
  split_ifs with heq
  · rw [← heq, hbyte]
  · exact hbyte

theorem packOfData_flipAll_congr {a b : WlData} (h : packOfData a = packOfData b) (fs : List (BitVec 32)) :
    packOfData (flipAll fs a) = packOfData (flipAll fs b) := by
  induction fs generalizing a b with
  | nil => exact h
  | cons bit fs ih => exact ih (packOfData_flip h bit)

theorem ne_xor_decide (a : Bool) (p : Prop) [Decidable p] : a ≠ (a ^^ decide p) ↔ p := by
  by_cases h : p
  · cases a <;> simp [h]
  · simp [h]

/-- The bits that differ in the end are those flipped an odd number of times. -/
theorem bitsDiffer_flipAll (fs : List (BitVec 32)) (pack : WlData) :
    bitsDiffer pack (flipAll fs pack) = (oddly (fs.map flipPos)).card := by
  rw [bitsDiffer, wlBit_flipAll]
  refine congrArg Finset.card (Finset.ext fun k => ?_)
  rw [Finset.mem_filter, toggle_apply, and_iff_right (Finset.mem_univ k)]
  exact ne_xor_decide _ _

/-! ## The flips of a call -/

/-- The bits that the loops of `wl_pack_break` flip. -/
def wlPackBreakLoopFlips (cfg : WlConfig) (bitToBreakPrev : BitVec 32) (inner : Bool) :
    List Draw → Option (List (BitVec 32))
  | [] => none
  | draw :: draws =>
    if inner then
      if randPackBit draw = bitToBreakPrev then wlPackBreakLoopFlips cfg bitToBreakPrev true draws
      else (wlPackBreakLoopFlips cfg bitToBreakPrev false draws).map (randPackBit draw :: ·)
    else if bRand draw cfg.errDataMultipScore then wlPackBreakLoopFlips cfg bitToBreakPrev true draws
    else some []

/-- The bits that a call flips, in order; none when it does not return on these draws. -/
def wlPackBreakFlips (cfg : WlConfig) (draws : List Draw) : Option (List (BitVec 32)) :=
  if cfg.errData then
    match draws with
    | [] => none
    | first :: draws =>
      if bRand first cfg.errDataFirstScore then
        match draws with
        | [] => none
        | draw :: draws => (wlPackBreakLoopFlips cfg (randPackBit draw) false draws).map (randPackBit draw :: ·)
      else some []
  else some []

theorem ofNat_succ (n : Nat) : BitVec.ofNat 32 (n + 1) = 1#32 + BitVec.ofNat 32 n := by
  rw [BitVec.ofNat_add, BitVec.add_comm]

theorem wlPackBreakLoop_eq (cfg : WlConfig) (prev : BitVec 32) (inner : Bool) (draws : List Draw) (pack : WlData)
    (ret : BitVec 32) : wlPackBreakLoop cfg prev inner draws pack ret =
      (wlPackBreakLoopFlips cfg prev inner draws).map fun fs => (flipAll fs pack, ret + BitVec.ofNat 32 fs.length) := by
  induction draws generalizing inner pack ret with
  | nil => rfl
  | cons draw draws ih =>
    unfold wlPackBreakLoop wlPackBreakLoopFlips
    cases inner with
    | true =>
      rw [if_pos rfl, if_pos rfl]
      by_cases hprev : randPackBit draw = prev
      · rw [if_pos hprev, if_pos hprev, ih]
      · rw [if_neg hprev, if_neg hprev, ih, Option.map_map]
        refine congrArg (Option.map · _) (funext fun fs => Prod.ext rfl ?_)
        change ret + 1#32 + BitVec.ofNat 32 fs.length = ret + BitVec.ofNat 32 (fs.length + 1)
        rw [ofNat_succ fs.length, BitVec.add_assoc]
    | false =>
      rw [if_neg Bool.false_ne_true, if_neg Bool.false_ne_true]
      by_cases hmore : bRand draw cfg.errDataMultipScore = true
      · rw [if_pos hmore, if_pos hmore, ih]
      · rw [if_neg hmore, if_neg hmore]
        simp [flipAll]

/-- A call flips these bits, and returns their number. -/
theorem wlPackBreak_eq (cfg : WlConfig) (draws : List Draw) (pack : WlData) :
    wlPackBreak cfg draws pack =
      (wlPackBreakFlips cfg draws).map fun fs => (flipAll fs pack, BitVec.ofNat 32 fs.length) := by
  unfold wlPackBreak wlPackBreakFlips
  cases cfg.errData with
  | false => rfl
  | true =>
    match draws with
    | [] => rfl
    | first :: draws =>
      by_cases hfirst : bRand first cfg.errDataFirstScore = true
      · match draws with
        | [] => simp [hfirst]
        | draw :: draws =>
          simp only [hfirst, if_true, wlPackBreakLoop_eq, Option.map_map]
          exact congrArg (Option.map · _) (funext fun fs => Prod.ext rfl (ofNat_succ fs.length).symm)
      · simp [hfirst, flipAll]

theorem randPackBit_toNat (draw : Draw) :
    (randPackBit draw).toNat = draw.val / (randMax / (configWlPackConstLen * 8)) := by
  have hlt := draw.isLt
  simp only [randPackBit, BitVec.toNat_ofNat, randMax, configWlPackConstLen] at hlt ⊢
  omega

/-- A flipped bit is one of the packet, or the first one behind it. -/
theorem randPackBit_le (draw : Draw) : (randPackBit draw).toNat ≤ 152 := by
  have hlt := draw.isLt
  rw [randPackBit_toNat]
  simp only [randMax, configWlPackConstLen] at hlt ⊢
  omega

/-- The loop flips no bit twice with the first: `bit_to_break_prev` stays the first bit. -/
theorem wlPackBreakLoopFlips_mem {cfg : WlConfig} {prev : BitVec 32} {inner : Bool} {draws : List Draw}
    {fs : List (BitVec 32)} (h : wlPackBreakLoopFlips cfg prev inner draws = some fs) :
    ∀ bit ∈ fs, bit ≠ prev ∧ bit.toNat ≤ 152 := by
  induction draws generalizing inner fs with
  | nil => cases h
  | cons draw draws ih =>
    unfold wlPackBreakLoopFlips at h
    split_ifs at h with hin hprev hmore
    · exact ih h
    · obtain ⟨fs', hfs, rfl⟩ := Option.map_eq_some_iff.mp h
      intro bit hbit
      rcases List.mem_cons.mp hbit with rfl | hmem
      · exact ⟨hprev, randPackBit_le draw⟩
      · exact ih hfs bit hmem
    · exact ih h
    · cases h
      intro bit hbit
      cases hbit

/-- The flips of a call: none, or a first bit and others. -/
theorem wlPackBreakFlips_cases {cfg : WlConfig} {draws : List Draw} {fs : List (BitVec 32)}
    (h : wlPackBreakFlips cfg draws = some fs) :
    fs = [] ∨ ∃ first rest, fs = first :: rest ∧ first ∉ rest ∧ ∀ bit ∈ fs, bit.toNat ≤ 152 := by
  unfold wlPackBreakFlips at h
  split at h
  · split at h
    · cases h
    · split at h
      · split at h
        · cases h
        · rename_i draw draws'
          obtain ⟨rest, hrest, rfl⟩ := Option.map_eq_some_iff.mp h
          have hmem := wlPackBreakLoopFlips_mem hrest
          refine Or.inr ⟨_, rest, rfl, fun hfirst => (hmem _ hfirst).1 rfl, ?_⟩
          intro bit hbit
          rcases List.mem_cons.mp hbit with rfl | hbit
          · exact randPackBit_le draw
          · exact (hmem bit hbit).2
      · cases h
        exact Or.inl rfl
  · cases h
    exact Or.inl rfl

/-! ## The count -/

/-- Up to bit 152 the positions determine the bits. -/
theorem flipPos_not_mem {first : BitVec 32} {rest : List (BitVec 32)} (hfirst : first ∉ rest)
    (hbits : ∀ bit ∈ first :: rest, bit.toNat ≤ 152) : flipPos first ∉ rest.map flipPos := by
  intro hmem
  obtain ⟨bit, hbit, heq⟩ := List.mem_map.mp hmem
  have hb := hbits bit (List.mem_cons_of_mem _ hbit)
  have hf := hbits first List.mem_cons_self
  have hval : bit.toNat % 2048 = first.toNat % 2048 := congrArg Fin.val heq
  have hsame : bit = first := BitVec.eq_of_toNat_eq (by omega)
  exact hfirst (hsame ▸ hbit)

/-- `n` flips whose first is not repeated, `d` bits changed. -/
theorem bitsDiffer_flips {fs : List (BitVec 32)} (pack : WlData)
    (h : fs = [] ∨ ∃ first rest, fs = first :: rest ∧ first ∉ rest ∧ ∀ bit ∈ fs, bit.toNat ≤ 152) :
    (bitsDiffer pack (flipAll fs pack) = 0 ↔ fs.length = 0) ∧ bitsDiffer pack (flipAll fs pack) ≤ fs.length ∧
      bitsDiffer pack (flipAll fs pack) % 2 = fs.length % 2 ∧
      (fs.length ≤ 2 → bitsDiffer pack (flipAll fs pack) = fs.length) := by
  have hle := card_oddly_le (fs.map flipPos)
  have hodd := odd_card_oddly (fs.map flipPos)
  rw [List.length_map] at hle hodd
  rw [Nat.odd_iff, Nat.odd_iff] at hodd
  rw [bitsDiffer_flipAll]
  rcases h with rfl | ⟨first, rest, rfl, hfirst, hbits⟩
  · simp
  · have hpos := flipPos_not_mem hfirst hbits
    obtain ⟨hchanged, htwo⟩ := card_oddly_first hpos
    rw [← List.map_cons, List.length_map] at htwo
    rw [← List.map_cons] at hchanged
    simp only [List.length_cons] at hle hodd htwo ⊢
    refine ⟨by omega, hle, by omega, htwo⟩

/-- **The count of `wl_pack_break`.** On draws on which it returns it flips the bits `fs`, and returns their number
modulo `2 ^ 32`. A count that is not zero means a changed buffer, and the parity is right; with fewer than `2 ^ 32`
flips the count is zero just for an unchanged buffer, a bound on the bits changed, and exact up to two. -/
theorem wlPackBreak_sound {cfg : WlConfig} {draws : List Draw} {pack data : WlData} {c : BitVec 32}
    (h : wlPackBreak cfg draws pack = some (data, c)) :
    ∃ fs, wlPackBreakFlips cfg draws = some fs ∧ data = flipAll fs pack ∧ c.toNat = fs.length % 2 ^ 32 ∧
      (bitsDiffer pack data = 0 → c = 0#32) ∧ bitsDiffer pack data % 2 = c.toNat % 2 ∧
      (fs.length < 2 ^ 32 → (bitsDiffer pack data = 0 ↔ c = 0#32) ∧ bitsDiffer pack data ≤ c.toNat ∧
        (c.toNat ≤ 2 → bitsDiffer pack data = c.toNat)) := by
  rw [wlPackBreak_eq, Option.map_eq_some_iff] at h
  obtain ⟨fs, hfs, heq⟩ := h
  obtain ⟨rfl, rfl⟩ := Prod.mk.inj heq
  obtain ⟨hzero, hle, hparity, htwo⟩ := bitsDiffer_flips pack (wlPackBreakFlips_cases hfs)
  have hc : (BitVec.ofNat 32 fs.length).toNat = fs.length % 2 ^ 32 := BitVec.toNat_ofNat ..
  refine ⟨fs, hfs, rfl, hc, fun hsame => ?_, ?_, fun hlt => ?_⟩
  · rw [hzero.mp hsame]
  · rw [hc, hparity]
    omega
  · rw [Nat.mod_eq_of_lt hlt] at hc
    have hcz : BitVec.ofNat 32 fs.length = 0#32 ↔ fs.length = 0 := by
      rw [← BitVec.toNat_inj, hc]
      rfl
    rw [hc, hcz]
    exact ⟨hzero, hle, htwo⟩

/-- Bits are broken on the lowest values of `rand_r` only. -/
def lowScores : WlConfig := ⟨false, 0, true, 1, 1⟩

/-- The first bit, `n` times the second, and no more. -/
def flipDraws (n : Nat) : List Draw := 0 :: 0 :: ((List.replicate n [0, 14128181]).flatten ++ [Fin.last randMax])

theorem flipDraws_flips (n : Nat) : wlPackBreakFlips lowScores (flipDraws n) = some (0 :: List.replicate n 1) := by
  have hloop : ∀ n, wlPackBreakLoopFlips lowScores 0 false
      ((List.replicate n [0, 14128181]).flatten ++ [Fin.last randMax]) = some (List.replicate n 1) := by
    intro n
    induction n with
    | zero => decide
    | succ n ih =>
      have hmore : bRand 0 lowScores.errDataMultipScore = true := by decide
      have hbit : randPackBit 14128181 = 1 := by decide
      have hother : (1 : BitVec 32) ≠ 0 := by decide
      simp only [List.replicate_succ, List.flatten_cons, List.cons_append, List.nil_append, wlPackBreakLoopFlips,
        Bool.false_eq_true, if_false, if_true, hmore, if_neg hother, hbit, ih, Option.map_some]
  have hfirst : bRand 0 lowScores.errDataFirstScore = true := by decide
  have hbit : randPackBit 0 = 0 := by decide
  simp only [wlPackBreakFlips, flipDraws, hfirst, if_true, hbit, hloop, Option.map_some]
  rfl

/-- Two flips. -/
theorem wlPackBreak_sound_two : bitsDiffer (fun _ => 0) (flipAll [0, 1] fun _ => 0) = 2 := by
  have hret : wlPackBreak lowScores (flipDraws 1) (fun _ => 0) = some (flipAll [0, 1] fun _ => 0, 2#32) := by
    rw [wlPackBreak_eq, flipDraws_flips]
    rfl
  obtain ⟨fs, hfs, -, -, -, -, hcount⟩ := wlPackBreak_sound hret
  rw [flipDraws_flips] at hfs
  cases hfs
  exact (hcount (by decide)).2.2 (by decide)

/-- `2 ^ 32` flips: the count is zero, and the packet is changed. -/
theorem wlPackBreak_wraps : ∃ data, wlPackBreak lowScores (flipDraws (2 ^ 32 - 1)) (fun _ => 0) = some (data, 0#32) ∧
    bitsDiffer (fun _ => 0) data ≠ 0 := by
  have hflips := flipDraws_flips (2 ^ 32 - 1)
  have hlen : ((0 : BitVec 32) :: List.replicate (2 ^ 32 - 1) 1).length = 2 ^ 32 := by
    rw [List.length_cons, List.length_replicate, Nat.sub_add_cancel (by decide)]
  refine ⟨flipAll (0 :: List.replicate (2 ^ 32 - 1) 1) fun _ => 0, ?_, ?_⟩
  · rw [wlPackBreak_eq, hflips, Option.map_some, hlen]
    rfl
  · intro hsame
    have hzero := (bitsDiffer_flips (fun _ => 0) (wlPackBreakFlips_cases hflips)).1.mp hsame
    rw [hlen] at hzero
    cases hzero

end LoraBridge
