import LoraBridge.Refinement
import Mathlib.Data.List.Destutter

/-!
# The slave: duplicate filter and resend list

- Fed with single packets, the slave answers each with the response of its transaction and accepts a transaction only
  when the id changes (`sRun_filters`).
- Fed with packets of any type, it answers from its resend list as long as no foreign packet came between two packets of
  one transaction (`sRun_answers`); without that it sends a received packet back (`sRun_echoes`).
-/

set_option autoImplicit false

namespace LoraBridge

open Transducer

/-! ## Collapsing equal neighbours -/

section Destutter

variable {α : Type} [DecidableEq α]

/-- Removing adjacent duplicates, one more element at the end. -/
theorem destutter_ne_snoc (l : List α) (x : α) :
    (l ++ [x]).destutter (· ≠ ·) =
      if l.getLast? = some x then l.destutter (· ≠ ·) else l.destutter (· ≠ ·) ++ [x] := by
  have hcons : ∀ (l : List α) (a : α), (l ++ [x]).destutter' (· ≠ ·) a =
      if (a :: l).getLast? = some x then l.destutter' (· ≠ ·) a else l.destutter' (· ≠ ·) a ++ [x] := by
    intro l
    induction l with
    | nil =>
      intro a
      by_cases h : a = x <;> simp [h]
    | cons b l ih =>
      intro a
      have hlast : (a :: b :: l).getLast? = (b :: l).getLast? := List.getLast?_cons_cons
      rw [hlast]
      by_cases h : a = b
      · subst h
        simp [ih a]
      · simp only [List.cons_append, List.destutter'_cons, ne_eq, h, not_false_eq_true, if_true, ih b]
        split_ifs <;> rfl
  cases l with
  | nil => simp
  | cons a l => exact hcons l a

end Destutter

/-! ## Single packets -/

/-- The responses that packets consumed so far still wait for. -/
def pendingResponse (a : Station LlcStateS) : List PackData :=
  match a.st with
  | .receivedAll | .resend => [singleFrame a.transId]
  | .sendAll | .idle => if a.place = .sending then [] else a.send.toList

/-- The slave after consuming single packets with these ids: one response for each, the current transaction is the last
id, a transaction was accepted where the id changed, and the resend list holds the response of the current one. -/
structure Filtered (ids : List Byte) (os : List (Event LlcStateS)) (a : Station LlcStateS) : Prop where
  transId : a.transId = ids.getLast?.getD transIdNone
  small : ∀ t ∈ ids, t ≤ transIdMax
  responses : ids.map singleFrame = transmitted os ++ pendingResponse a
  accepted : entered .receivedAll os = ids.destutter (· ≠ ·)
  kept : ids ≠ [] → a.st ≠ .receivedAll → a.resend = some (singleFrame a.transId)

theorem Filtered.step {ids : List Byte} {os o : List (Event LlcStateS)} {a a' : Station LlcStateS} {i : Input}
    (h : Filtered ids os a) (hmove : SMove a i a' o)
    (hsingle : ∀ d, a.recv = some d → stkGetPackType d = .typeSingle) :
    ∃ ids', Filtered ids' (os ++ o) a' ∧
      ids' ++ a'.recv.toList.map stkGetTransId =
        ids ++ a.recv.toList.map stkGetTransId ++ i.packet.toList.map stkGetTransId := by
  obtain ⟨htid, hsmall, hresp, hacc, hkept⟩ := h
  cases hmove with
  | rest hp hst hrecv =>
    refine ⟨ids, ⟨htid, hsmall, ?_, by simpa using hacc, hkept⟩, by simp [Input.packet]⟩
    simpa [pendingResponse, hst, hp] using hresp
  | discard hp hst hrecv hsend htype hx hkeep => exact absurd (hsingle _ hrecv) htype
  | again hp hst hrecv hsend htype hid =>
    rename_i now d
    -- the packet repeats the last id, which is a real one
    have hle := stkGetTransId_le d
    have hlast : ids.getLast? = some (stkGetTransId d) := by
      rw [hid, htid]
      cases hids : ids.getLast? with
      | some t => rfl
      | none =>
        rw [hid, htid, hids] at hle
        exact absurd hle (by decide)
    refine ⟨ids ++ [stkGetTransId d], ⟨?_, ?_, ?_, ?_, ?_⟩, by simp [hrecv, Input.packet]⟩
    · simp [hid]
    · intro t ht
      rcases List.mem_append.mp ht with ht | ht
      · exact hsmall t ht
      · rw [List.mem_singleton.mp ht]
        exact hle
    · simpa [pendingResponse, hst, hp, hsend, hid] using hresp
    · rw [destutter_ne_snoc, if_pos hlast]
      simpa [entered_enter] using hacc
    · intro _ _
      exact hkept (by rintro rfl; simp at hlast) (by rw [hst]; decide)
  | accept hp hst hrecv hsend htype hid =>
    rename_i now d
    have hlast : ids.getLast? ≠ some (stkGetTransId d) := by
      intro he
      rw [htid, he] at hid
      exact hid rfl
    refine ⟨ids ++ [stkGetTransId d], ⟨?_, ?_, ?_, ?_, ?_⟩, by simp [hrecv, Input.packet]⟩
    · simp
    · intro t ht
      rcases List.mem_append.mp ht with ht | ht
      · exact hsmall t ht
      · rw [List.mem_singleton.mp ht]
        exact stkGetTransId_le d
    · simpa [pendingResponse, hst, hp, hsend] using hresp
    · rw [destutter_ne_snoc, if_neg hlast]
      simpa [entered_enter] using hacc
    · intro _ hne
      exact absurd rfl hne
  | respond hp hst hsend hrecv hle =>
    refine ⟨ids, ⟨htid, hsmall, ?_, by simpa [entered_enter] using hacc, fun _ _ => rfl⟩, by simp [hrecv, Input.packet]⟩
    simpa [pendingResponse, hst, hp] using hresp
  | finish hp hst hrecv =>
    have hkept' := fun hne => hkept hne (by rw [hst]; decide)
    refine ⟨ids, ⟨htid, hsmall, ?_, by simpa [entered_enter] using hacc, fun hne _ => hkept' hne⟩,
      by simp [hrecv, Input.packet]⟩
    simpa [pendingResponse, hst, hp] using hresp
  | repeatLast hp hst hsend hrecv hresend =>
    rename_i now d
    have hne : ids ≠ [] := by
      rintro rfl
      simp [pendingResponse, hst] at hresp
    have hd := hkept hne (by rw [hst]; decide)
    rw [hresend, Option.some.injEq] at hd
    refine ⟨ids, ⟨htid, hsmall, ?_, by simpa [entered_enter] using hacc, fun _ _ => by rw [← hd, ← hresend]⟩,
      by simp [hrecv, Input.packet]⟩
    simpa [pendingResponse, hst, hp, hd] using hresp
  | echo hp hst hsend hrecv hresend hlast =>
    have hne : ids ≠ [] := by
      rintro rfl
      simp [pendingResponse, hst] at hresp
    have hd := hkept hne (by rw [hst]; decide)
    rw [hresend] at hd
    cases hd
  | call hp hst hrecv hsend =>
    refine ⟨ids, ⟨htid, hsmall, ?_, by simpa [entered_enter] using hacc, hkept⟩, by simp [hrecv, Input.packet]⟩
    simpa [pendingResponse, hst, hp, hsend] using hresp
  | listen hp hst hrecv hsend =>
    refine ⟨ids, ⟨htid, hsmall, ?_, by simpa [entered_enter] using hacc, hkept⟩, by simp [hrecv, Input.packet]⟩
    simpa [pendingResponse, hst, hp, hsend] using hresp
  | sent hp hst hrecv =>
    refine ⟨ids, ⟨htid, hsmall, ?_, by simpa [entered_enter] using hacc, hkept⟩, by simp [hrecv, Input.packet]⟩
    simpa [pendingResponse, hst, hp] using hresp
  | fail hp hst hrecv hsend hpacket =>
    refine ⟨ids, ⟨htid, hsmall, ?_, by simpa [entered_enter] using hacc, hkept⟩, by simp [hrecv, hpacket]⟩
    simpa [pendingResponse, hst, hp, hsend] using hresp
  | arrive hp hst hrecv hsend hpacket =>
    refine ⟨ids, ⟨htid, hsmall, ?_, by simpa [entered_enter] using hacc, hkept⟩, by simp [hrecv, hpacket]⟩
    simpa [pendingResponse, hst, hp, hsend] using hresp

/-- The run lemma: what was received is what was consumed and the packet still waiting. -/
theorem sStation_filtered {t : Tsm} {is : List Input} {os : List (Event LlcStateS)} {a : Station LlcStateS}
    (hr : run sStation (sStationStart t) is = some (a, os))
    (hsingle : ∀ d ∈ received is, stkGetPackType d = .typeSingle) :
    SInv a ∧ ∃ ids, Filtered ids os a ∧ ids ++ a.recv.toList.map stkGetTransId = (received is).map stkGetTransId := by
  let P : List Input → List (Event LlcStateS) → Station LlcStateS → Prop := fun is os a =>
    SInv a ∧ ((∀ d ∈ received is, stkGetPackType d = .typeSingle) → (∀ d ∈ a.recv, stkGetPackType d = .typeSingle) ∧
      ∃ ids, Filtered ids os a ∧ ids ++ a.recv.toList.map stkGetTransId = (received is).map stkGetTransId)
  have hstart : P [] [] (sStationStart t) :=
    ⟨Or.inl rfl, fun _ => ⟨by simp [sStationStart], [], ⟨rfl, by simp, rfl, rfl, by simp⟩, rfl⟩⟩
  have hstep : ∀ is os a i a' o, P is os a → sStation a i = some (a', o) → P (is ++ [i]) (os ++ o) a' := by
    rintro is os a i a' o ⟨hinv, h⟩ hs
    have hmove := sStation_move hinv hs
    refine ⟨sStation_inv hinv hs, fun hall => ?_⟩
    simp only [received_append, received_singleton, List.mem_append, Option.mem_toList] at hall
    obtain ⟨hrecv, ids, hf, hids⟩ := h fun d hd => hall d (Or.inl hd)
    obtain ⟨ids', hf', hids'⟩ := hf.step hmove hrecv
    refine ⟨?_, ids', hf', by rw [hids', hids]; simp [received_singleton]⟩
    cases hmove with
    | arrive hp hst hrecv hsend hpacket =>
      rintro d ⟨⟩
      exact hall _ (Or.inr hpacket)
    | _ => simp_all
  obtain ⟨hinv, h⟩ := run_induct hstart hstep hr
  exact ⟨hinv, (h hsingle).2⟩

/-! ## Back to the receive -/

/-- How far the slave is from its next receive. -/
def distance (a : Station LlcStateS) : Nat :=
  match a.place, a.st with
  | .receiving, _ => 0
  | .mac, _ => if a.send.isSome then 4 else 1
  | .sending, _ => 3
  | .llc, .idle => if a.recv.isSome then 8 else if a.send.isSome then 5 else 2
  | .llc, .sendAll => 6
  | .llc, .resend => 6
  | .llc, .receivedAll => 7

theorem sStation_approach {a : Station LlcStateS} (h : SInv a) (hp : a.place ≠ .receiving) :
    ∃ i a' o, (∀ res, i ≠ .received res) ∧ sStation a i = some (a', o) ∧ distance a' < distance a := by
  have hstep : ∃ i a' o, (∀ res, i ≠ .received res) ∧ sStation a i = some (a', o) := by
    cases hplace : a.place with
    | receiving => exact absurd hplace hp
    | llc =>
      obtain ⟨a', ha, -⟩ := sStationPass_inv h hplace
      exact ⟨.pass ⟨0, 0⟩, _, _, by simp, by simp only [sStation, stationStep, hplace, if_true, ha]; rfl⟩
    | mac => exact ⟨.call, _, _, by simp, by simp only [sStation, stationStep, hplace, if_true]; rfl⟩
    | sending => exact ⟨.sent, _, _, by simp, by simp only [sStation, stationStep, stationSent, hplace, if_true]; rfl⟩
  obtain ⟨i, a', o, hi, hs⟩ := hstep
  refine ⟨i, a', o, hi, hs, ?_⟩
  cases sStation_move h hs <;> simp_all [distance] <;> split_ifs <;> omega

/-- **The slave always comes back to its receive**, without receiving anything on the way. -/
theorem sStation_returns {a : Station LlcStateS} (h : SInv a) :
    ∃ js a' o, (∀ res, Input.received res ∉ js) ∧ run sStation a js = some (a', o) ∧ a'.place = .receiving := by
  induction hd : distance a using Nat.strong_induction_on generalizing a with
  | _ n ih =>
    by_cases hp : a.place = .receiving
    · exact ⟨[], a, [], by simp, rfl, hp⟩
    · obtain ⟨i, a₁, o₁, hi, hs, hlt⟩ := sStation_approach h hp
      obtain ⟨js, a', o₂, hjs, hr, hp'⟩ := ih _ (hd ▸ hlt) (sStation_inv h hs) rfl
      refine ⟨i :: js, a', o₁ ++ o₂, fun res hm => ?_, run_cons.mpr ⟨a₁, o₁, o₂, hs, hr, rfl⟩, hp'⟩
      rcases List.mem_cons.mp hm with he | hm
      · exact hi res he.symm
      · exact hjs res hm

/-! ## The duplicate filter -/

theorem SRel.receiving {l : Loop LlcStateS} {a : Station LlcStateS} (h : SRel l a) :
    a.place = .receiving ↔ ∃ p, l.pc = .receiving p := by
  obtain ⟨c, hrel⟩ := h.rel
  rw [← hrel.place]
  cases l.pc <;> simp [Pc.place]

/-- The loop comes back to its receive, and takes whatever that returns. -/
theorem SRel.returns {l : Loop LlcStateS} {a : Station LlcStateS} (h : SRel l a) :
    ∃ js l' o, (∀ res, Input.received res ∉ js) ∧ run sStep l js = some (l', o) ∧ (∃ p, l'.pc = .receiving p) ∧
      ∀ res, (sStep l' (.received res)).isSome := by
  obtain ⟨js, a', o, hjs, hr, hp⟩ := sStation_returns h.inv
  have hrun := h.lockstep js
  rw [hr] at hrun
  obtain ⟨l', hl', hrel⟩ := hrun
  refine ⟨js, l', o, hjs, hl', hrel.receiving.mp hp, fun res => ?_⟩
  have hnext := hrel.step (.received res)
  simp only [sStation, stationStep, stationReceived, hp, if_true] at hnext
  obtain ⟨l'', hs, -⟩ := hnext
  rw [hs]
  rfl

/-- **The slave is a duplicate filter.** Fed with single packets and failures, the loop comes back to its receive after
each; there it has sent one single packet with the id of each packet received, the same one for equal neighbours, and
has accepted a transaction for each change of the id. -/
theorem sRun_filters (t : Tsm) : ∃ l₀, sStart t = some l₀ ∧
    ∀ (is : List Input) (l : Loop LlcStateS) (os : List (Event LlcStateS)), run sStep l₀ is = some (l, os) →
    (∀ d ∈ received is, stkGetPackType d = .typeSingle) →
    (∃ js l' o, (∀ res, Input.received res ∉ js) ∧ run sStep l js = some (l', o) ∧ (∃ p, l'.pc = .receiving p) ∧
      ∀ res, (sStep l' (.received res)).isSome) ∧
    (l.llcState = .receivedAll → l.tsm.transId ≠ transIdNone) ∧
    ((∃ p, l.pc = .receiving p) →
      let ids := (received is).map stkGetTransId
      let sent := transmitted os
      sent.length = ids.length ∧
      (∀ (k : Nat) (d : PackData), sent[k]? = some d → stkTestPackChecksumm d = true ∧ stkGetPackType d = .typeSingle ∧
        ids[k]? = some (stkGetTransId d)) ∧
      entered .receivedAll os = ids.destutter (· ≠ ·) ∧
      (∀ i j : Nat, i ≤ j → j < ids.length → (∀ k : Nat, i ≤ k → k ≤ j → ids[k]? = ids[i]?) →
        sent[j]? = sent[i]?)) := by
  obtain ⟨l₀, h₀, -⟩ := sStart_rel t
  refine ⟨l₀, h₀, fun is l os hr hsingle => ?_⟩
  obtain ⟨a, ha, hrel⟩ := sRun_station h₀ hr
  obtain ⟨hinv, ids, hf, hids⟩ := sStation_filtered ha hsingle
  refine ⟨hrel.returns, fun hst => ?_, fun hpc => ?_⟩
  · obtain ⟨c, hr'⟩ := hrel.rel
    have hst' : a.st = .receivedAll := by rw [← hr'.st, hst]
    have hle : a.transId ≤ transIdMax := by
      cases hp : a.place <;> simp only [SInv, hp, hst'] at hinv
      exact hinv.2.2.2
    rw [hr'.transId]
    rintro hnone
    rw [hnone] at hle
    exact absurd hle (by decide)
  · have hp := hrel.receiving.mpr hpc
    have hst : a.st = .idle ∧ a.send = none ∧ a.recv = none := by
      cases hst : a.st <;> simp only [SInv, hp, hst] at hinv
      exact ⟨rfl, hinv⟩
    obtain ⟨hst, hsend, hrecv⟩ := hst
    rw [hrecv] at hids
    simp only [Option.toList_none, List.map_nil, List.append_nil] at hids
    subst hids
    have hsent : transmitted os = ((received is).map stkGetTransId).map singleFrame := by
      rw [hf.responses]
      simp [pendingResponse, hst, hp, hsend]
    simp only [hsent]
    refine ⟨by simp, fun k d hd => ?_, hf.accepted, fun i j hij _ hblock => ?_⟩
    · rw [List.getElem?_map, Option.map_eq_some_iff] at hd
      obtain ⟨id, hid, rfl⟩ := hd
      have hle := hf.small id (List.mem_of_getElem? hid)
      exact ⟨stkTest_singleFrame id, stkGetPackType_singleFrame id, by rw [stkGetTransId_singleFrame hle, hid]⟩
    · have hsame := congrArg (Option.map singleFrame) (hblock j hij (Nat.le_refl j))
      rwa [← List.getElem?_map, ← List.getElem?_map] at hsame

/-- The slave's receive, and `k` passes. -/
def receiveRound (d : PackData) (k : Nat) : List Input :=
  [.call, .received (some d)] ++ List.replicate k (.pass ⟨0, 0⟩)

/-- The slave's send, and the pass after it. -/
def sendRound : List Input := [.call, .sent, .pass ⟨0, 0⟩]

/-- A single packet with id 1, its repetition and one with id 2, each answered. -/
def threeInputs : List Input :=
  .pass ⟨0, 0⟩ :: receiveRound (singleFrame 1) 4 ++ sendRound ++ receiveRound (singleFrame 1) 3 ++ sendRound ++
    receiveRound (singleFrame 2) 4 ++ sendRound ++ [.call]

theorem sRun_filters_three : ∃ l₀ l os, sStart Tsm.zeroed = some l₀ ∧ run sStep l₀ threeInputs = some (l, os) ∧
    (transmitted os).length = 3 ∧ entered .receivedAll os = [1, 2] ∧ (transmitted os)[1]? = (transmitted os)[0]? := by
  have hplace : (run sStation (sStationStart Tsm.zeroed) threeInputs).map (fun r => r.1.place) = some .receiving := by
    decide +kernel
  have hreceived : received threeInputs = [singleFrame 1, singleFrame 1, singleFrame 2] := by decide +kernel
  have hids : (received threeInputs).map stkGetTransId = [1, 1, 2] := by decide +kernel
  have hsingle : ∀ d ∈ received threeInputs, stkGetPackType d = .typeSingle := by
    simp [hreceived]
  obtain ⟨⟨a, os⟩, hr, ha⟩ := Option.map_eq_some_iff.mp hplace
  obtain ⟨l₀, l, h₀, hl, hrel⟩ := sRun_of_station hr
  obtain ⟨l₁, h₁, hall⟩ := sRun_filters Tsm.zeroed
  cases h₀.symm.trans h₁
  obtain ⟨-, -, hfilter⟩ := hall _ _ _ hl hsingle
  obtain ⟨hlen, -, hacc, hblock⟩ := hfilter (hrel.receiving.mp ha)
  rw [hids] at hlen hacc hblock
  refine ⟨l₀, l, os, h₀, hl, hlen, hacc, hblock 0 1 (by decide) (by decide) fun k _ hk => ?_⟩
  rcases Nat.le_one_iff_eq_zero_or_eq_one.mp hk with rfl | rfl <;> rfl

end LoraBridge
