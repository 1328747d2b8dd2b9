import LoraBridge.Effects
import LoraBridge.Pipeline

/-!
# One direction of the channel

The history of a run says which packets were put into the output buffers, and what became of them. In each direction
the output and the input buffer are a pipeline of two places: every packet put has exactly one fate or is in one of
them (`Lane`). What it has become on the way is decided in the step in which it lands (`Lands`): the values that the
tick has for its side are those of one call of `wl_pack_break`. The shadow worker keeps all this and counts what it
drops (`wlShadowWorker_keeps`).
-/

set_option autoImplicit false

namespace LoraBridge

open Pipeline

/-! ## Reading the history -/

/-- The packets that `id` has put into its output buffer. -/
def sends (id : ConnId) (os : List WlEvent) : List PackData :=
  os.filterMap fun
    | .put i _ d => if i = id then some d else none
    | _ => none

/-- The packets that `id` has passed to `wl_sendPacketTimeout`. -/
def passed (id : ConnId) (is : List WlInput) : List PackData :=
  is.filterMap fun
    | .call i (.send d _) => if i = id then some d else none
    | _ => none

/-- The numbers of those whose fate is settled. -/
def fates (id : ConnId) (os : List WlEvent) : List Nat :=
  os.filterMap fun
    | .overwritten i n => if i = id then some n else none
    | .lost i n => if i = id then some n else none
    | .dropped i n => if i = id then some n else none
    | .returned i n _ => if i = id then some n else none
    | _ => none

/-- Those returned to the other side, with their numbers. -/
def returns (id : ConnId) (os : List WlEvent) : List (Nat × PackData) :=
  os.filterMap fun
    | .returned i n d => if i = id then some (n, d) else none
    | _ => none

/-- The packets that successful receives of `id` have returned. -/
def results (id : ConnId) (os : List WlEvent) : List PackData :=
  os.filterMap fun
    | .ret i (.recv (some d)) => if i = id then some d else none
    | _ => none

def WlEvent.isError : WlEvent → Bool
  | .busy _ => true
  | .empty _ => true
  | .dropped _ _ => true
  | .simultaneous _ _ => true
  | _ => false

def WlEvent.isDiscard : WlEvent → Bool
  | .dropped _ _ => true
  | .overwritten _ _ => true
  | _ => false

/-- How often an error was counted. -/
def errors (os : List WlEvent) : Nat := os.countP WlEvent.isError

/-- How many packets were dropped or overwritten. -/
def discards (os : List WlEvent) : Nat := os.countP WlEvent.isDiscard

section Reading

variable (id : ConnId) (os ps : List WlEvent)

@[simp] theorem sends_append : sends id (os ++ ps) = sends id os ++ sends id ps := List.filterMap_append
@[simp] theorem passed_append (is js : List WlInput) : passed id (is ++ js) = passed id is ++ passed id js :=
  List.filterMap_append
@[simp] theorem fates_append : fates id (os ++ ps) = fates id os ++ fates id ps := List.filterMap_append
@[simp] theorem returns_append : returns id (os ++ ps) = returns id os ++ returns id ps := List.filterMap_append
@[simp] theorem results_append : results id (os ++ ps) = results id os ++ results id ps := List.filterMap_append
@[simp] theorem errors_append : errors (os ++ ps) = errors os + errors ps := List.countP_append
@[simp] theorem discards_append : discards (os ++ ps) = discards os + discards ps := List.countP_append

end Reading

/-- The number of the packet of `id` that is in its output buffer. -/
def WlEmulGlobal.back (g : WlEmulGlobal) (id : ConnId) : Option Nat :=
  if (g.dev id).outputBuff.isSend then none else some (g.dev id).outputBuff.num

/-- The number of the packet of `id` that is in the other side's input buffer. -/
def WlEmulGlobal.front (g : WlEmulGlobal) (id : ConnId) : Option Nat :=
  if (g.dev id.other).inputBuff.isRecieved then some (g.dev id.other).inputBuff.num else none

/-- The values of `rand_r` that the tick has for the packet of `id`. -/
def WlTick.draws (t : WlTick) : ConnId → List Draw
  | .id0 => t.draws₀
  | .id1 => t.draws₁

/-- Packet `n` of `id`, sent as `d`, lands as `d'` in the step of this tick: it passes from the output buffer into the
other side's input buffer. The values for its side do not lose it, and those that are left are read by the call of
`wl_pack_break` that makes `d'` of it. -/
structure Lands (cfg : WlConfig) (t : WlTick) (g g' : WlEmulGlobal) (id : ConnId) (n : Nat) (d d' : PackData) :
    Prop where
  back : g.back id = some n
  front : g'.front id = some n
  sent : packOfData (g.dev id).outputBuff.sendData = d
  broken : ∃ draws data ret, wlIsPacketLost cfg (t.draws id) = some (false, draws) ∧
    wlPackBreak cfg draws (g.dev id).outputBuff.sendData = some (data, ret) ∧ packOfData data = d'
  received : packOfData (g'.dev id.other).inputBuff.recvData = d'

/-! ## One direction -/

variable {R : Nat → PackData → PackData → Prop} {cfg : WlConfig} {id src : ConnId} {g g' : WlEmulGlobal}
  {os o : List WlEvent} {now : Timeval}

/-- If a packet of `id` passes from the output buffer into the other side's input buffer, its number, its bytes as sent
and its bytes as received are related by `R`. -/
def Delivers (R : Nat → PackData → PackData → Prop) (id : ConnId) (g g' : WlEmulGlobal) : Prop :=
  ∀ n, g.front id = none → g.back id = some n → g'.front id = some n →
    R n (packOfData (g.dev id).outputBuff.sendData) (packOfData (g'.dev id.other).inputBuff.recvData)

theorem Delivers.congr {g₁ g₁' : WlEmulGlobal} (h : Delivers R id g g')
    (hout : (g₁.dev id).outputBuff = (g.dev id).outputBuff)
    (hinp : (g₁.dev id.other).inputBuff = (g.dev id.other).inputBuff)
    (hinp' : (g₁'.dev id.other).inputBuff = (g'.dev id.other).inputBuff) : Delivers R id g₁ g₁' := by
  intro n hfront hback hfront'
  rw [WlEmulGlobal.front, hinp] at hfront
  rw [WlEmulGlobal.back, hout] at hback
  rw [WlEmulGlobal.front, hinp'] at hfront'
  rw [hout, hinp']
  exact h n hfront hback hfront'

/-- Nothing passes while the input buffer stays as it is. -/
theorem Delivers.of_inp (hinp : (g'.dev id.other).inputBuff = (g.dev id.other).inputBuff) : Delivers R id g g' := by
  intro n hfront hback hfront'
  rw [WlEmulGlobal.front, hinp] at hfront'
  rw [WlEmulGlobal.front, hfront'] at hfront
  cases hfront

/-- The packets of `id`: where they are, and what they are. `R` relates the packets that have passed to what they
were. -/
structure Lane (R : Nat → PackData → PackData → Prop) (id : ConnId) (g : WlEmulGlobal) (os : List WlEvent) : Prop where
  puts : g.puts id = (sends id os).length
  ledger : Ledger (g.puts id) (fates id os) ((returns id os).map Prod.fst) (g.front id) (g.back id)
  back : ∀ n, g.back id = some n → (sends id os)[n]? = some (packOfData (g.dev id).outputBuff.sendData)
  front : ∀ n, g.front id = some n →
    ∃ d, (sends id os)[n]? = some d ∧ R n d (packOfData (g.dev id.other).inputBuff.recvData)
  returned : ∀ n d', (n, d') ∈ returns id os → ∃ d, (sends id os)[n]? = some d ∧ R n d d'

theorem Lane.mono {R' : Nat → PackData → PackData → Prop} (h : Lane R id g os) (hR : ∀ n d d', R n d d' → R' n d d') :
    Lane R' id g os where
  puts := h.puts
  ledger := h.ledger
  back := h.back
  front n hn := (h.front n hn).imp fun d hd => ⟨hd.1, hR n d _ hd.2⟩
  returned n d' hn := (h.returned n d' hn).imp fun d hd => ⟨hd.1, hR n d d' hd.2⟩

/-- What does not touch the direction. -/
theorem Lane.same (h : Lane R id g os) (hout : (g'.dev id).outputBuff = (g.dev id).outputBuff)
    (hinp : (g'.dev id.other).inputBuff = (g.dev id.other).inputBuff) (hputs : g'.puts id = g.puts id)
    (hsends : sends id o = []) (hfates : fates id o = []) (hreturns : returns id o = []) :
    Lane R id g' (os ++ o) := by
  obtain ⟨hp, hl, hb, hf, hr⟩ := h
  refine ⟨?_, ?_, ?_, ?_, ?_⟩
  · rw [hputs, hp, sends_append, hsends, List.append_nil]
  · rw [hputs, fates_append, hfates, returns_append, hreturns, List.append_nil, List.append_nil,
      WlEmulGlobal.front, WlEmulGlobal.back, hout, hinp]
    exact hl
  · rw [sends_append, hsends, List.append_nil, WlEmulGlobal.back, hout]
    exact hb
  · rw [sends_append, hsends, List.append_nil, WlEmulGlobal.front, hinp]
    exact hf
  · rw [sends_append, hsends, returns_append, hreturns, List.append_nil, List.append_nil]
    exact hr

/-- The direction of `id` after a step that touches it. -/
theorem Lane.next (h : Lane R id g os) {a : Nat} {f b : Option Nat} (hputs : g'.puts id = a)
    (hnew : a = g.puts id + (sends id o).length) (hfront : g'.front id = f) (hback : g'.back id = b)
    (hl : Ledger a (fates id os ++ fates id o) ((returns id os ++ returns id o).map Prod.fst) f b)
    (hb : ∀ n, b = some n → (sends id (os ++ o))[n]? = some (packOfData (g'.dev id).outputBuff.sendData))
    (hf : ∀ n, f = some n →
      ∃ d, (sends id (os ++ o))[n]? = some d ∧ R n d (packOfData (g'.dev id.other).inputBuff.recvData))
    (hr : ∀ n d', (n, d') ∈ returns id o → ∃ d, (sends id os)[n]? = some d ∧ R n d d') :
    Lane R id g' (os ++ o) := by
  have hkeep : ∀ {n : Nat} {d : PackData}, (sends id os)[n]? = some d → (sends id (os ++ o))[n]? = some d := by
    intro n d hd
    obtain ⟨hn, -⟩ := List.getElem?_eq_some_iff.mp hd
    rw [sends_append, List.getElem?_append_left hn, hd]
  subst hputs hfront hback
  refine ⟨?_, by simpa using hl, hb, hf, fun n d' hn => ?_⟩
  · rw [hnew, h.puts, sends_append, List.length_append]
  · rw [returns_append, List.mem_append] at hn
    obtain ⟨d, hd, hlanded⟩ := hn.elim (h.returned n d') (hr n d')
    exact ⟨d, hkeep hd, hlanded⟩

/-- The packet in the output buffer is gone, and does not reach the other side. -/
theorem Lane.discard (h : Lane R id g os) (hsend : (g.dev id).outputBuff.isSend = false)
    (hputs : g'.puts id = g.puts id) (hout : (g'.dev id).outputBuff.isSend = true)
    (hinp : (g'.dev id.other).inputBuff = (g.dev id.other).inputBuff)
    (hfates : fates id o = [(g.dev id).outputBuff.num]) (hsends : sends id o = []) (hreturns : returns id o = []) :
    Lane R id g' (os ++ o) := by
  have hl := h.ledger
  have hback : g.back id = some (g.dev id).outputBuff.num := by simp [WlEmulGlobal.back, hsend]
  have hfront : g'.front id = g.front id := by simp [WlEmulGlobal.front, hinp]
  rw [hback] at hl
  refine h.next hputs (by simp [hsends]) hfront (show g'.back id = none by simp [WlEmulGlobal.back, hout]) ?_ nofun
    ?_ (by simp [hreturns])
  · simpa [hfates, hreturns] using hl.discard
  · rw [hinp, sends_append, hsends, List.append_nil]
    exact h.front

theorem Lane.arrive (h : Lane R id g os) (ha : WlArrive cfg now src g g' o) (hpass : Delivers R id g g') :
    Lane R id g' (os ++ o) := by
  rcases src.eq_or_other id with rfl | rfl
  · have hback : (g.dev id).outputBuff.isSend = false → g.back id = some (g.dev id).outputBuff.num := fun hsend => by
      simp [WlEmulGlobal.back, hsend]
    cases ha with
    | none hsend => exact h.same rfl rfl rfl rfl rfl rfl
    | flying hsend hair => exact h.same rfl rfl rfl rfl rfl rfl
    | lost hsend hair hcfg => exact h.discard hsend rfl (by simp) (by simp) (by simp [fates]) rfl rfl
    | dropped hsend hair hbreak hfull => exact h.discard hsend rfl (by simp) (by simp) (by simp [fates]) rfl rfl
    | delivered hsend hair hbreak hempty =>
      have hl := h.ledger
      have hnum := h.back _ (hback hsend)
      rw [hback hsend, WlEmulGlobal.front, hempty] at hl
      refine h.next (f := some _) (b := none) rfl rfl (by simp [WlEmulGlobal.front]; rfl) (by simp [WlEmulGlobal.back])
        (by simpa [fates, returns] using hl.pass) nofun (fun n hn => ?_) (by simp [returns])
      cases hn
      refine ⟨_, by simpa [sends] using hnum, ?_⟩
      exact hpass _ (by simp [WlEmulGlobal.front, hempty]) (hback hsend) (by simp [WlEmulGlobal.front])
  · cases ha with
    | none hsend => exact h.same rfl rfl rfl rfl rfl rfl
    | flying hsend hair => exact h.same rfl rfl rfl rfl rfl rfl
    | lost hsend hair hcfg =>
      exact h.same (by simp [setOut_out_of_ne]) (by simp) rfl rfl (by simp [fates]) rfl
    | dropped hsend hair hbreak hfull =>
      exact h.same (by simp [setOut_out_of_ne]) (by simp) rfl rfl (by simp [fates]) rfl
    | delivered hsend hair hbreak hempty =>
      exact h.same (by simp [setOut_out_of_ne]) (by simp [setIn_inp_of_ne]) rfl rfl rfl rfl

theorem packOfData_payload (dst : WlData) (payload : PackData) :
    packOfData (wlPackCopy configWlPackConstLen dst (payloadData payload)) = payload := by
  ext i hi
  simp [packOfData, wlPackCopy, payloadData, configWlPackConstLen, List.getD_eq_getElem?_getD]

theorem Lane.put (h : Lane R id g os) (payload : PackData) :
    Lane R id (g.put src payload now) (os ++
      ((if (g.dev src).outputBuff.isSend then [] else [.overwritten src (g.dev src).outputBuff.num]) ++
        [.put src (g.puts src) payload])) := by
  rcases src.eq_or_other id with rfl | rfl
  · have hfront : (g.put id payload now).front id = g.front id := by simp [WlEmulGlobal.front, WlEmulGlobal.put]
    have hback : (g.put id payload now).back id = some (g.puts id) := by simp [WlEmulGlobal.back, WlEmulGlobal.put]
    have hdata : packOfData ((g.put id payload now).dev id).outputBuff.sendData = payload := by
      simp [WlEmulGlobal.put, packOfData_payload]
    have hinp : ((g.put id payload now).dev id.other).inputBuff = (g.dev id.other).inputBuff := by
      simp [WlEmulGlobal.put]
    have hl := h.ledger
    -- what the buffers say holds whether or not a packet was overwritten
    have hput : ∀ {o : List WlEvent}, sends id o = [payload] → returns id o = [] →
        Ledger (g.puts id + 1) (fates id os ++ fates id o) ((returns id os ++ returns id o).map Prod.fst) (g.front id)
          (some (g.puts id)) → Lane R id (g.put id payload now) (os ++ o) := by
      intro o hsends hreturns hledger
      refine h.next (by simp [WlEmulGlobal.put]) (by simp [hsends]) hfront hback hledger (fun n hn => ?_)
        (fun n hn => ?_) (by simp [hreturns])
      · cases hn
        simp [hsends, hdata, h.puts]
      · obtain ⟨d, hd, hlanded⟩ := h.front n hn
        obtain ⟨hlt, -⟩ := List.getElem?_eq_some_iff.mp hd
        exact ⟨d, by rw [sends_append, List.getElem?_append_left hlt, hd], by rw [hinp]; exact hlanded⟩
    cases hsend : (g.dev id).outputBuff.isSend with
    | true =>
      rw [show g.back id = none by simp [WlEmulGlobal.back, hsend]] at hl
      exact hput (by simp [sends]) (by simp [returns]) (by simpa [fates, returns] using hl.put)
    | false =>
      rw [show g.back id = some (g.dev id).outputBuff.num by simp [WlEmulGlobal.back, hsend]] at hl
      exact hput (by simp [sends]) (by simp [returns]) (by simpa [fates, returns] using hl.overwrite)
  · refine h.same (by simp [WlEmulGlobal.put, setOut_out_of_ne]) (by simp [WlEmulGlobal.put])
      (by simp [WlEmulGlobal.put]) ?_ ?_ ?_ <;> split_ifs <;> simp [sends, fates, returns]

theorem Lane.take (h : Lane R id g os) (hfull : (g.dev src).inputBuff.isRecieved = true) :
    Lane R id (g.take src) (os ++
      [.returned src.other (g.dev src).inputBuff.num (packOfData (g.dev src).inputBuff.recvData)]) := by
  rcases src.eq_or_other id with rfl | rfl
  · exact h.same (by simp [WlEmulGlobal.take]) (by simp [WlEmulGlobal.take, setIn_inp_of_ne]) rfl rfl
      (by simp [fates]) (by simp [returns])
  · have hfront : g.front src.other = some (g.dev src).inputBuff.num := by simp [WlEmulGlobal.front, hfull]
    have hl := h.ledger
    have hf := h.front _ hfront
    rw [hfront] at hl
    refine h.next (f := none) rfl rfl (by simp [WlEmulGlobal.front, WlEmulGlobal.take]) rfl
      (by simpa [fates, returns, WlEmulGlobal.back, WlEmulGlobal.take] using hl.take) ?_ nofun (fun n d hn => ?_)
    · simpa [sends, WlEmulGlobal.back, WlEmulGlobal.take] using h.back
    · simp only [returns, List.filterMap_cons, if_true, List.filterMap_nil, List.mem_singleton, Prod.mk.injEq] at hn
      obtain ⟨rfl, rfl⟩ := hn
      simpa using hf

/-! ## Errors -/

theorem WlArrive.keeps (h : WlArrive cfg now src g g' o) :
    g'.err = g.err + BitVec.ofNat 32 (errors o) ∧ discards o = errors o ∧
      (∀ i, (g.dev i).outputBuff.isSend = true → (g'.dev i).outputBuff.isSend = true) ∧
      ∀ i, (g.dev i).inputBuff.isRecieved = true → (g'.dev i).inputBuff.isRecieved = true := by
  have hout : ∀ (b : WlEmulBuffO) i, b.isSend = true → (g.dev i).outputBuff.isSend = true →
      ((g.setOut src b).dev i).outputBuff.isSend = true := by
    intro b i hb hi
    by_cases hne : i = src
    · rw [hne, setOut_out, hb]
    · rw [setOut_out_of_ne _ _ _ hne, hi]
  cases h with
  | none hsend => exact ⟨by simp [errors], rfl, fun _ h => h, fun _ h => h⟩
  | flying hsend hair => exact ⟨by simp [errors], rfl, fun _ h => h, fun _ h => h⟩
  | lost hsend hair hcfg => exact ⟨by simp [errors, WlEvent.isError], rfl, fun i hi => hout _ i rfl hi, by simp⟩
  | dropped hsend hair hbreak hfull =>
    exact ⟨by simp [errors, WlEvent.isError], rfl, fun i hi => by simpa using hout _ i rfl hi, by simp⟩
  | delivered hsend hair hbreak hempty =>
    refine ⟨by simp [errors], rfl, fun i hi => by simpa using hout _ i rfl hi, fun i hi => ?_⟩
    by_cases hne : i = src.other
    · rw [hne, setIn_inp]
    · rw [setIn_inp_of_ne _ _ _ hne, setOut_inp, hi]

theorem chanelCheck_keeps (g : WlEmulGlobal) :
    (wlShadowWorkerChanelCheck g).1.err = g.err + BitVec.ofNat 32 (errors (wlShadowWorkerChanelCheck g).2) ∧
      discards (wlShadowWorkerChanelCheck g).2 = 0 ∧ (wlShadowWorkerChanelCheck g).1.dev = g.dev := by
  rcases chanelCheck_cases g with ⟨-, -, h⟩ | ⟨-, h⟩ <;>
    simp [h, errors, discards, WlEvent.isError, WlEvent.isDiscard]

theorem Lane.check (h : Lane R id g os) :
    Lane R id (wlShadowWorkerChanelCheck g).1 (os ++ (wlShadowWorkerChanelCheck g).2) := by
  rcases chanelCheck_cases g with ⟨-, -, hc⟩ | ⟨-, hc⟩
  · rw [hc]
    exact h.same rfl rfl rfl rfl rfl rfl
  · rw [hc]
    exact h.same rfl rfl rfl rfl rfl rfl

/-- The whole shadow worker. -/
theorem wlShadowWorker_keeps {t : WlTick} (h : wlShadowWorker cfg t g = some (g', o)) :
    (∀ R id, Delivers R id g g' → Lane R id g os → Lane R id g' (os ++ o)) ∧
      g'.err = g.err + BitVec.ofNat 32 (errors o) ∧
      discards o ≤ errors o ∧ (∀ i, (g.dev i).outputBuff.isSend = true → (g'.dev i).outputBuff.isSend = true) ∧
      ∀ i, (g.dev i).inputBuff.isRecieved = true → (g'.dev i).inputBuff.isRecieved = true := by
  obtain ⟨g₀, g₁, o₀, o₁, h₀, h₁, rfl, rfl⟩ := wlShadowWorker_arrive h
  obtain ⟨herr₀, hdis₀, hout₀, hinp₀⟩ := h₀.keeps
  obtain ⟨herr₁, hdis₁, hout₁, hinp₁⟩ := h₁.keeps
  obtain ⟨herr, hdis, hdev⟩ := chanelCheck_keeps g₁
  refine ⟨fun R id hpass hl => ?_, ?_, ?_, fun i hi => ?_, fun i hi => ?_⟩
  · rw [← List.append_assoc, ← List.append_assoc]
    -- each direction passes in its own call, the other call leaves its buffers alone
    cases id with
    | id0 =>
      have hkept : (g₁.dev .id1).inputBuff = (g₀.dev .id1).inputBuff := h₁.inp_of_ne (by decide)
      refine ((hl.arrive h₀ ?_).arrive h₁ (.of_inp hkept)).check
      exact hpass.congr rfl rfl (by rw [hdev]; exact hkept.symm)
    | id1 =>
      have hkept : (g₀.dev .id0).inputBuff = (g.dev .id0).inputBuff := h₀.inp_of_ne (by decide)
      refine ((hl.arrive h₀ (.of_inp hkept)).arrive h₁ ?_).check
      exact hpass.congr (h₀.out_of_ne (by decide)) hkept (by rw [hdev])
  · rw [herr, herr₁, herr₀]
    simp [BitVec.ofNat_add, BitVec.add_assoc]
  · simp only [discards_append, errors_append]
    omega
  · rw [hdev]
    exact hout₁ i (hout₀ i hi)
  · rw [hdev]
    exact hinp₁ i (hinp₀ i hi)

/-- A packet that passes in a call of the shadow worker lands there. -/
theorem wlShadowWorker_lands {t : WlTick} (h : wlShadowWorker cfg t g = some (g', o)) (id : ConnId) :
    Delivers (fun n d d' => Lands cfg t g g' id n d d') id g g' := by
  intro n hfront hback hfront'
  have hempty : (g.dev id.other).inputBuff.isRecieved = false := by
    unfold WlEmulGlobal.front at hfront
    split_ifs at hfront with hfull
    exact eq_false_of_ne_true hfull
  have hfull : (g'.dev id.other).inputBuff.isRecieved = true := by
    unfold WlEmulGlobal.front at hfront'
    split_ifs at hfront' with hfull
    exact hfull
  simp only [wlShadowWorker, Option.bind_eq_bind, Option.bind_eq_some_iff, Prod.exists, Option.pure_def,
    Option.some.injEq, Prod.mk.injEq] at h
  obtain ⟨g₀, o₀, h₀, g₁, o₁, h₁, rfl, -⟩ := h
  have ha₀ : WlArrive cfg t.now₀ .id0 g g₀ o₀ := wlShadowWorkerTarg_arrive h₀
  have ha₁ : WlArrive cfg t.now₁ .id1 g₀ g₁ o₁ := wlShadowWorkerTarg_arrive h₁
  rw [chanelCheck_dev] at hfull ⊢
  refine ⟨hback, hfront', rfl, ?_, by rw [chanelCheck_dev]⟩
  cases id with
  | id0 =>
    have hkept : (g₁.dev .id1).inputBuff = (g₀.dev .id1).inputBuff := ha₁.inp_of_ne (by decide)
    have hfull₀ : (g₀.dev .id1).inputBuff.isRecieved = true := hkept ▸ hfull
    have hfirst : wlShadowWorkerTarg cfg t.now₀ t.draws₀ .id0 (ConnId.id0).other g = some (g₀, o₀) := h₀
    obtain ⟨draws, data, ret, hlost, hbreak, hread⟩ := wlShadowWorkerTarg_delivers hfirst hempty hfull₀
    refine ⟨draws, data, ret, hlost, hbreak, ?_⟩
    simp only [ConnId.other] at hread ⊢
    rw [hkept, hread, wlPackCopy_all]
  | id1 =>
    have hkept : (g₀.dev .id0).inputBuff = (g.dev .id0).inputBuff := ha₀.inp_of_ne (by decide)
    have hempty₀ : (g₀.dev .id0).inputBuff.isRecieved = false := hkept ▸ hempty
    have hsecond : wlShadowWorkerTarg cfg t.now₁ t.draws₁ .id1 (ConnId.id1).other g₀ = some (g₁, o₁) := h₁
    obtain ⟨draws, data, ret, hlost, hbreak, hread⟩ := wlShadowWorkerTarg_delivers hsecond hempty₀ hfull
    rw [ha₀.out_of_ne (by decide)] at hbreak
    refine ⟨draws, data, ret, hlost, hbreak, ?_⟩
    simp only [ConnId.other] at hread ⊢
    rw [hread, wlPackCopy_all]

/-! ## The events of the shadow worker -/

/-- An event of the shadow worker or the checker. -/
def WlEvent.ofWorker : WlEvent → Bool
  | .lost _ _ => true
  | .dropped _ _ => true
  | .simultaneous _ _ => true
  | _ => false

theorem WlArrive.ofWorker (h : WlArrive cfg now src g g' o) : ∀ x ∈ o, x.ofWorker = true := by
  intro x hx
  cases h with
  | lost | dropped =>
    rw [List.mem_singleton.mp hx]
    rfl
  | _ => cases hx

theorem chanelCheck_ofWorker (g : WlEmulGlobal) : ∀ x ∈ (wlShadowWorkerChanelCheck g).2, x.ofWorker = true := by
  intro x hx
  rcases chanelCheck_cases g with ⟨-, -, h⟩ | ⟨-, h⟩
  · rw [h] at hx
    rw [List.mem_singleton.mp hx]
    rfl
  · rw [h] at hx
    cases hx

theorem wlShadowWorker_ofWorker {t : WlTick} (h : wlShadowWorker cfg t g = some (g', o)) :
    ∀ x ∈ o, x.ofWorker = true := by
  obtain ⟨g₀, g₁, o₀, o₁, h₀, h₁, -, rfl⟩ := wlShadowWorker_arrive h
  intro x hx
  rcases List.mem_append.mp hx with hx | hx
  · exact (List.mem_append.mp hx).elim (h₀.ofWorker x) (h₁.ofWorker x)
  · exact chanelCheck_ofWorker g₁ x hx

/-- Neither a put nor a return is among them. -/
theorem filterMap_ofWorker {α : Type} {f : WlEvent → Option α} (ho : ∀ x ∈ o, x.ofWorker = true)
    (hf : ∀ x : WlEvent, x.ofWorker = true → f x = none) : o.filterMap f = [] :=
  List.filterMap_eq_nil_iff.mpr fun x hx => hf x (ho x hx)

theorem sends_ofWorker (ho : ∀ x ∈ o, x.ofWorker = true) (i : ConnId) : sends i o = [] :=
  filterMap_ofWorker ho fun x hx => by cases x <;> first | rfl | cases hx

theorem returns_ofWorker (ho : ∀ x ∈ o, x.ofWorker = true) (i : ConnId) : returns i o = [] ∧ results i o = [] := by
  constructor
  · exact filterMap_ofWorker ho fun x hx => by cases x <;> first | rfl | cases hx
  · exact filterMap_ofWorker ho fun x hx => by cases x <;> first | rfl | cases hx

end LoraBridge
