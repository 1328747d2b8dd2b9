import LoraBridge.Moves
import LoraBridge.Relation

/-!
# The loops refine the stations

From related states a step of the station is answered by the loop with the same events, whenever the station keeps its
queues apart (`sLockstep`, `mLockstep`): the MAC worker, and the passes of the two LLC workers.
-/

set_option autoImplicit false

namespace LoraBridge

open ListHead Transducer

variable {σ : Type} {c : Lists} {l : Loop σ} {a : Station σ}

/-! ## The MAC worker -/

theorem Rel.last_none (h : Rel c l a) (hp : a.place ≠ .llc) : a.last = none := by
  cases hl : a.last with
  | none => rfl
  | some d =>
    obtain ⟨p, hpc, -⟩ := h.last d hl
    have hpl := h.place
    rw [hpc] at hpl
    exact absurd hpl.symm hp

/-- The end of the MAC worker, when the transmitter has become `t`. -/
theorem Rel.macDone {t : Tsm} (h : Rel c { l with tsm := t, pc := .llc none } { a with place := .llc, last := none }) :
    Rel c (macDone l t) { a with place := .llc, last := none } :=
  { h with linked := ⟨h.linked.mac, h.linked.owner⟩ }

/-- Handing the queued packet to the radio: its bytes are sealed in place. -/
theorem macCall_send (h : Rel c l a) (hpc : l.pc = .mac) {d : PackData} (hsend : a.send = some d) :
    ∃ l', macCall l = some (l', [.tx d]) ∧ Rel c l' { a with place := .sending } := by
  obtain ⟨p, hp, hd⟩ := map_toList_some h.send hsend
  have hhas : stkMacHasPackToSend l.tsm = true := by rw [stkMacHasPackToSend_eq h.linked, hp]; rfl
  have hfresh := h.sendList_fresh (p := p) (by rw [hp]; simp)
  let t : Tsm := l.tsm.setData p (stkSetPackChecksumm (l.tsm.data p))
  have htx : t.data p = d := by
    rw [← hd]
    exact Function.update_self ..
  have hcall : stkMacDoSendCall l.tsm = some (t, d) := by
    simp only [stkMacDoSendCall, hhas, prAssert_true, stkMacGetFirstToSend_eq h.linked hp, Option.bind_eq_bind,
      Option.bind_some]
    exact congrArg (fun x => some (t, x)) htx
  have hsealed : t.sealed = l.tsm.sealed := by
    funext q
    by_cases hq : q = p
    · rw [hq, Tsm.sealed, htx, ← hd]
      exact stkSet_set _
    · exact congrArg stkSetPackChecksumm (Function.update_of_ne hq ..)
  refine ⟨{ l with tsm := t, macState := .macSending, pc := .sending }, ?_, ?_⟩
  · simp only [macCall, hhas, if_true, hcall, Option.bind_eq_bind, Option.bind_some]
    rfl
  · have hlast := h.last_none (by rw [← h.place, hpc]; decide)
    exact { h with
      linked := ⟨h.linked.mac, h.linked.owner⟩
      recvOwned := by rw [h.recvOwned, hpc]; rfl
      place := rfl
      recv := by
        rw [← h.recv]
        refine List.map_congr_left fun q hq => Function.update_of_ne ?_ _ _
        exact fun he => hfresh.2 (he ▸ h.recv_owned hq)
      resend := by rw [← h.resend, ← hsealed]
      send := by rw [← h.send, ← hsealed]
      last := fun _ hd => by rw [hlast] at hd; cases hd }

/-- Taking a pack to receive into. -/
theorem macCall_recv (h : Rel c l a) (hpc : l.pc = .mac) (hsend : a.send = none) :
    ∃ l' c', macCall l = some (l', []) ∧ Rel c' l' { a with place := .receiving } := by
  have hempty := map_toList_none h.send hsend
  have hhas : stkMacHasPackToSend l.tsm = false := by rw [stkMacHasPackToSend_eq h.linked, hempty]; rfl
  have hmac : a.place ≠ .receiving := by rw [← h.place, hpc]; decide
  obtain ⟨p, pool, hpool⟩ := h.recvListPool_cons hmac
  obtain ⟨owner, hget, hf⟩ := stkGetRecvPackholder_spec h.linked hpool
  refine ⟨{ l with
    tsm := { l.tsm with owner := owner, llcRecvOwnedCounter := l.tsm.llcRecvOwnedCounter + 1 }
    macState := .macReceivingCont
    pc := .receiving p }, { c with recvListPool := pool, llcRecvOwned := c.llcRecvOwned ++ [p] }, ?_, ?_⟩
  · simp only [macCall, hhas, Bool.false_eq_true, if_false, hget, Option.bind_eq_bind, Option.bind_some]
    rfl
  · have hlast := h.last_none (by rw [← h.place, hpc]; decide)
    have hperm := h.recvPerm
    rw [hpool] at hperm
    exact { h with
      linked := ⟨h.linked.mac, hf⟩
      recvPerm := by
        refine List.Perm.trans ?_ hperm
        rw [← List.append_assoc]
        exact List.perm_append_singleton p _
      recvOwned := by rw [h.recvOwned, h.holder_nil hmac]; simp [Pc.holder]
      recvCounter := by
        rw [List.length_append, List.length_singleton, BitVec.ofNat_add, ← h.recvCounter]
        rfl
      sendFrom := fun q hq => by rw [hempty] at hq; cases hq
      place := rfl
      last := fun _ hd => by rw [hlast] at hd; cases hd }

/-- The send has returned. -/
theorem macSent_rel (h : Rel c l a) (hpc : l.pc = .sending) {d : PackData} (hsend : a.send = some d) :
    ∃ l' c', macSent l = some (l', []) ∧ Rel c' l' { a with send := none, place := .llc, last := none } := by
  obtain ⟨p, hp, -⟩ := map_toList_some h.send hsend
  obtain ⟨mac, hmark, hf⟩ := stkMacMarkAsSend_spec h.linked hp
  refine ⟨macDone l { l.tsm.logCall (.del p) with mac := mac }, { c with sendList := [] }, ?_,
    Rel.macDone (a := { a with send := none }) ?_⟩
  · simp only [macSent, hpc, hmark, Option.map_some]
  · exact { h with
      linked := ⟨hf, h.linked.owner⟩
      calls := h.logCall ⟨c.mac, .sendList, h.linked.mac, by simp [Lists.mac, hp]⟩
      recvOwned := by rw [h.recvOwned, hpc]; rfl
      sendFrom := fun q hq => by cases hq
      place := rfl
      send := rfl
      last := fun _ hd => by cases hd }

/-- A receive without a packet, or with one whose checksum is wrong: the pack goes back to the pool. -/
theorem macReceived_fail (h : Rel c l a) {p : Pack} (hpc : l.pc = .receiving p) (hrecv : a.recv = none)
    (data : Pack → PackData) (hdata : ∀ q, q ≠ p → data q = l.tsm.data q) :
    ∃ t c', stkPutRecvPackholder { l.tsm with data := data } p = some t ∧
      Rel c' (macDone l t) { a with place := .llc, last := none } := by
  have hempty := map_toList_none h.recv hrecv
  have hown : c.llcRecvOwned = [p] := by rw [h.recvOwned, hempty, hpc]; rfl
  obtain ⟨owner, hput, hf⟩ := stkPutRecvPackholder_spec (t := { l.tsm with data := data }) (c := c) (p := p)
    h.linked.owner (by rw [hown]; simp)
  rw [hown, List.erase_cons_head] at hf
  have hperm := h.recvPerm
  rw [hown] at hperm
  -- the buffer written to is on neither list the station looks at
  have hkeep : ∀ q, q ∉ c.llcRecvOwned → data q = l.tsm.data q := fun q hq =>
    hdata q fun he => hq (by rw [hown, he]; simp)
  refine ⟨_, { c with llcRecvOwned := [], recvListPool := c.recvListPool ++ [p] }, hput, Rel.macDone ?_⟩
  exact { h with
    linked := ⟨h.linked.mac, hf⟩
    recvPerm := by simpa using hperm
    recvOwned := by rw [hempty]; rfl
    recvCounter := by simp [h.recvCounter, hown]
    sendFrom := fun q hq => h.sendFrom_mono q hq
    place := rfl
    recv := by rw [hempty, hrecv]; rfl
    resend := by
      rw [← h.resend]
      refine List.map_congr_left fun q hq => congrArg stkSetPackChecksumm (hkeep q ?_)
      exact h.owner_disjoint .llcResendList .llcRecvOwned (by decide) hq
    send := by
      rw [← h.send]
      exact List.map_congr_left fun q hq => congrArg stkSetPackChecksumm (hkeep q (h.sendList_fresh hq).2)
    last := fun _ hd => by cases hd }

/-- A receive with a good packet. -/
theorem macReceived_commit (h : Rel c l a) {p : Pack} (hpc : l.pc = .receiving p) (hrecv : a.recv = none)
    (d : PackData) :
    ∃ t c', stkMacPackCommit (l.tsm.setData p d) p = some t ∧
      Rel c' (macDone l t) { a with recv := some d, place := .llc, last := none } := by
  have hempty := map_toList_none h.recv hrecv
  have hown : c.llcRecvOwned = [p] := by rw [h.recvOwned, hempty, hpc]; rfl
  have hfresh : p ∉ c.sendList := fun hm => (h.sendList_fresh hm).2 (by rw [hown]; simp)
  obtain ⟨mac, hcommit, hf⟩ := stkMacPackCommit_spec (t := l.tsm.setData p d) (c := c) (p := p)
    ⟨h.linked.mac, h.linked.owner⟩ hfresh (by rw [hempty]; simp)
  rw [hempty] at hcommit hf
  have hkeep : ∀ q, q ∉ c.llcRecvOwned → (l.tsm.setData p d).data q = l.tsm.data q := fun q hq =>
    Function.update_of_ne (fun he => hq (by rw [hown, he]; simp)) ..
  refine ⟨_, { c with recvList := [p] }, hcommit, Rel.macDone (a := { a with recv := some d }) ?_⟩
  exact { h with
    linked := ⟨hf, h.linked.owner⟩
    calls := h.logCall ⟨c.mac, h.linked.mac, hempty, fun k => by cases k <;> simp [Lists.mac, hempty, hfresh]⟩
    recvOwned := by rw [hown]; rfl
    place := rfl
    recv := congrArg (fun x => [x]) (Function.update_self ..)
    resend := by
      rw [← h.resend]
      refine List.map_congr_left fun q hq => congrArg stkSetPackChecksumm (hkeep q ?_)
      exact h.owner_disjoint .llcResendList .llcRecvOwned (by decide) hq
    send := by
      rw [← h.send]
      exact List.map_congr_left fun q hq => congrArg stkSetPackChecksumm (hkeep q (h.sendList_fresh hq).2)
    last := fun _ hd => by cases hd }

/-! ## The passes -/

variable {pk : Option Pack}

/-- A pass of the loop answers the pass of the station. -/
def Passed (l : Loop σ) (r : Option (Tsm × σ × Option Pack)) (a' : Station σ) : Prop :=
  ∃ t st pk c, r = some (t, st, pk) ∧ Rel c { l with tsm := t, llcState := st, pc := .llc pk } a'

/-- A pass that changes nothing. -/
theorem Rel.stay (h : Rel c l a) (hpc : l.pc = .llc pk) {st : σ} (hst : a.st = st) :
    Passed l (some (l.tsm, st, pk)) a := by
  refine ⟨l.tsm, st, pk, c, rfl, ?_⟩
  have hl : { l with llcState := st, pc := .llc pk } = l := by
    rw [← hpc, ← hst, ← h.st]
  rw [hl]
  exact h

/-- `respin` in the idle state: a packet, if there is one, is consumed in every branch. -/
theorem sPass_idle {a a' : Station LlcStateS} {l : Loop LlcStateS} (h : Rel c l a) (hpc : l.pc = .llc pk)
    (hst : a.st = .idle) (hqueue : a.send = none ∨ a.recv = none) (ha : sStationPass a = some a') :
    Passed l (stkSLlcPass l.tsm .idle pk) a' := by
  have hhas := stkLlcHasReceivedPack_eq h.linked
  have htid := h.transId
  obtain ⟨id, macRecvTimeout, st, place, transId, testTransId, retriesNum, recv, last, resend, send, echo, llcTimer,
    stderr⟩ := a
  subst hst htid
  cases recv with
  | none =>
    rw [map_toList_none h.recv rfl] at hhas
    simp only [stkSLlcPass, hhas]
    cases ha
    exact h.stay hpc rfl
  | some d =>
    obtain ⟨p, hp, hd⟩ := map_toList_some h.recv rfl
    have hsend : send = none := by simpa using hqueue
    rw [hp] at hhas
    simp only [sStationPass] at ha
    simp only [stkSLlcPass, hhas, List.isEmpty_cons, Bool.not_false, if_true,
      stkLlcGetFirstReceived_eq (h.linked.first_received hp), Option.bind_eq_bind, Option.bind_some, hd]
    split_ifs at ha ⊢ with hreset hsame htype htype <;> cases ha
    · obtain ⟨t, c', hmark, hrel⟩ := (h.check false .sReset).consume hp hd hpc
      simp only [Option.bind_some, hmark]
      exact ⟨_, _, _, c', rfl, hrel.setSt .idle⟩
    · obtain ⟨t, c', hmark, hrel⟩ := h.consume hp hd hpc
      simp only [Option.bind_some, hmark]
      exact ⟨_, _, _, c', rfl, hrel.setSt .resend⟩
    · obtain ⟨t, c', hmark, hrel⟩ := (h.check false .sRepeatType).consume hp hd hpc
      simp only [Option.bind_some, hmark]
      exact ⟨_, _, _, c', rfl, hrel.setSt .idle⟩
    · obtain ⟨t, c₁, hclear, hdata, hrecv, hrel⟩ := h.clear hsend
      obtain ⟨t', c', hmark, hrel'⟩ := ((hrel.setRetriesNum 0).setTransId (stkGetTransId d)).consume
        (hrecv.trans hp) (d := d) (by rw [← hd, ← hdata]) hpc
      simp only [hclear, Option.bind_some, hmark]
      exact ⟨_, _, _, c', rfl, hrel'.setSt .receivedAll⟩
    · obtain ⟨t, c₁, hclear, hdata, hrecv, hrel⟩ := h.clear hsend
      obtain ⟨t', c', hmark, hrel'⟩ := ((hrel.setRetriesNum 0).check false .sNewType).consume (hrecv.trans hp)
        (d := d) (by rw [← hd, ← hdata]; rfl) hpc
      simp only [hclear, Option.bind_some, hmark]
      exact ⟨_, _, _, c', rfl, hrel'.setSt .idle⟩

/-- Once nothing consumed is remembered, the local variable may point anywhere. -/
theorem Rel.forget (h : Rel c l a) (hpc : l.pc = .llc pk) (hlast : a.last = none) (q : Option Pack) :
    Rel c { l with pc := .llc q } a :=
  { h with
    recvOwned := by rw [h.recvOwned, hpc]; rfl
    place := by rw [← h.place, hpc]; rfl
    last := fun _ hd => by rw [hlast] at hd; cases hd }

/-- A resend takes the pack kept for it, or with an empty list the pack just consumed. -/
theorem Rel.resendLast (h : Rel c l a) (hpc : l.pc = .llc pk) (hsend : a.send = none) {d : PackData}
    (hd : a.resend.or (a.last.map stkSetPackChecksumm) = some d) (x : Assert) :
    ∃ p t c', (stkLlcResendGet l.tsm).or pk = some p ∧
      stkLlcPackCommit (prAssert l.tsm (stkLlcResendGet l.tsm).isSome x) p = some t ∧
      Rel c' { l with tsm := t, pc := .llc (some p) }
        { a.check a.resend.isSome x with send := some d, last := none, echo := a.resend.isNone } := by
  have hpick : ∃ p, (stkLlcResendGet l.tsm).or pk = some p ∧ l.tsm.sealed p = d ∧
      (if a.resend.isNone then p ∈ c.recvListPool else p ∈ c.llcResendList) ∧
        (stkLlcResendGet l.tsm).isSome = a.resend.isSome := by
    rw [stkLlcResendGet_eq h.linked.owner]
    cases hresend : a.resend with
    | some r =>
      obtain ⟨p, hp, hr⟩ := map_toList_some h.resend hresend
      rw [hresend] at hd
      exact ⟨p, by rw [hp]; rfl, hr.trans (Option.some.inj hd), by rw [hp]; simp, by rw [hp]; rfl⟩
    | none =>
      have hempty := map_toList_none h.resend hresend
      rw [hresend, Option.none_or, Option.map_eq_some_iff] at hd
      obtain ⟨r, hlast, rfl⟩ := hd
      obtain ⟨p, hpk, hfree, -, rfl⟩ := h.last r hlast
      rw [hpc, Pc.llc.injEq] at hpk
      exact ⟨p, by rw [hempty, hpk]; rfl, rfl, hfree, by rw [hempty]; rfl⟩
  obtain ⟨p, hp, rfl, hfrom, hsome⟩ := hpick
  rw [hsome]
  have hsealed : (prAssert l.tsm a.resend.isSome x).sealed = l.tsm.sealed := by
    cases a.resend.isSome <;> rfl
  obtain ⟨t, hcommit, hrel⟩ := (h.check a.resend.isSome x).commit (by rw [Station.check_send, hsend]) hfrom
  rw [← hsealed]
  exact ⟨p, t, _, hp, hcommit, hrel.forget hpc rfl (some p)⟩

/-- A pass of the slave. -/
theorem sPass {a : Station LlcStateS} {l : Loop LlcStateS} (h : Rel c l a) (hpc : l.pc = .llc pk) (hinv : SInv a) :
    ∃ a', sStationPass a = some a' ∧ Passed l (stkSLlcPass l.tsm l.llcState pk) a' := by
  have hplace : a.place = .llc := by rw [← h.place, hpc]; rfl
  obtain ⟨a', ha, -⟩ := sStationPass_inv hinv hplace
  refine ⟨a', ha, ?_⟩
  rw [h.st]
  obtain ⟨id, macRecvTimeout, st, place, transId, testTransId, retriesNum, recv, last, resend, send, echo, llcTimer,
    stderr⟩ := a
  subst hplace
  cases st with
  | idle => exact sPass_idle h hpc rfl hinv ha
  | receivedAll =>
    obtain ⟨hsend, -, hresend, -⟩ := hinv
    obtain ⟨p, t₁, t₂, t₃, c', hget, hcommit, hadd, hrel⟩ := h.issue hsend hresend
    cases ha
    refine ⟨t₃, .sendAll, some p, c', ?_, (hrel.setSt .sendAll).forget hpc rfl (some p)⟩
    simp only [stkSLlcPass, hget, Option.bind_eq_bind, Option.bind_some, hcommit, hadd]
    rfl
  | sendAll =>
    cases ha
    exact ⟨l.tsm, .idle, pk, c, rfl, by rw [← hpc]; exact h.setSt .idle⟩
  | resend =>
    obtain ⟨hsend, -, hsome⟩ := hinv
    obtain ⟨d, hd, rfl⟩ := Option.map_eq_some_iff.mp ha
    obtain ⟨p, t, c', hpick, hcommit, hrel⟩ := h.resendLast hpc hsend hd .sResendEmpty
    refine ⟨{ t with retriesNum := t.retriesNum + 1 }, .idle, some p, c', ?_, hrel.retry.setSt .idle⟩
    simp only [stkSLlcPass, hpick, Option.bind_eq_bind, Option.bind_some, hcommit]
    rfl

/-- A pass of the master. -/
theorem mPass {a : Station LlcStateM} {l : Loop LlcStateM} {now : Timeval} (h : Rel c l a) (hpc : l.pc = .llc pk)
    (hinv : MInv a) (hpatient : Patient a (.pass now)) :
    ∃ a', mStationPass a now = some a' ∧ Passed l (stkMLlcPass l.tsm l.llcState pk now) a' := by
  have hplace : a.place = .llc := by rw [← h.place, hpc]; rfl
  obtain ⟨a', ha, -⟩ := mStationPass_inv hinv hplace hpatient
  refine ⟨a', ha, ?_⟩
  have hhas := stkLlcHasReceivedPack_eq h.linked
  have htid := h.transId
  have htimer := h.llcTimer
  have htest := h.testTransId
  rw [h.st]
  obtain ⟨id, macRecvTimeout, st, place, transId, testTransId, retriesNum, recv, last, resend, send, echo, llcTimer,
    stderr⟩ := a
  subst hplace htid htimer htest
  cases st with
  | idle =>
    obtain ⟨hsend, -⟩ := hinv
    obtain ⟨t, c₁, hclear, -, -, hrel₁⟩ := h.clear hsend
    have hrel₂ := (hrel₁.setRetriesNum 0).setTransId (nextTransId l.tsm.transId)
    obtain ⟨p, t₁, t₂, t₃, c', hget, hcommit, hadd, hrel⟩ := hrel₂.issue hsend rfl
    have hprep : stkMPrepTransId { t with retriesNum := 0 } =
        { t with retriesNum := 0, transId := nextTransId l.tsm.transId } := by
      have htid : t.transId = l.tsm.transId := hrel₁.transId
      simp only [stkMPrepTransId, nextTransId, htid]
    cases ha
    refine ⟨{ t₃ with llcTimer := ttTimerStart now llcTimeoutMs }, .sendAll, some p, c', ?_,
      ((hrel.setTimer _).setSt .sendAll).forget hpc rfl (some p)⟩
    simp only [stkMLlcPass, stkMHasPackToSend, if_true, hclear, hprep, hget, Option.bind_eq_bind, Option.bind_some,
      hcommit, hadd]
    rfl
  | sendAll =>
    cases recv with
    | none =>
      rw [map_toList_none h.recv rfl] at hhas
      simp only [mStationPass] at ha
      simp only [stkMLlcPass, hhas, List.isEmpty_nil, Bool.not_true, Bool.false_eq_true, if_false]
      split_ifs at ha ⊢ with hexp <;> cases ha
      · exact ⟨l.tsm, .resend, pk, c, rfl, by rw [← hpc]; exact h.setSt .resend⟩
      · exact h.stay hpc rfl
    | some d =>
      obtain ⟨p, hp, hd⟩ := map_toList_some h.recv rfl
      subst hd
      rw [hp] at hhas
      cases ha
      have hrel₁ := ((h.check (stkGetPackType (l.tsm.data p) = .typeSingle) .mType).check
        (stkGetTransId (l.tsm.data p) = l.tsm.transId) .mTransId).setTestTransId (stkGetTransId (l.tsm.data p))
      obtain ⟨t, c', hmark, hrel⟩ := hrel₁.consume hp (d := l.tsm.data p) (by simp) hpc
      refine ⟨t, .receivedAll, some p, c', ?_, hrel.setSt .receivedAll⟩
      simp only [prAssert_transId] at hmark
      simp only [stkMLlcPass, hhas, List.isEmpty_cons, Bool.not_false, if_true,
        stkLlcGetFirstReceived_eq (h.linked.first_received hp),
        Option.bind_eq_bind, Option.bind_some, prAssert_transId, hmark]
      rfl
  | receivedAll =>
    cases ha
    refine ⟨_, .idle, pk, c, rfl, ?_⟩
    rw [← hpc]
    exact (h.check _ _).setSt .idle
  | resend =>
    obtain ⟨hsend, -, hsome⟩ := hinv
    obtain ⟨d, hd, rfl⟩ := Option.map_eq_some_iff.mp ha
    have hd : resend = some d := hd
    subst hd
    obtain ⟨p, t, c', hpick, hcommit, hrel⟩ := h.resendLast hpc hsend (d := d) rfl .mResendEmpty
    refine ⟨_, .sendAll, some p, c', ?_, (hrel.retry.setTimer (ttTimerStart now llcTimeoutMs)).setSt .sendAll⟩
    simp only [stkMLlcPass, hpick, Option.bind_eq_bind, Option.bind_some, hcommit]
    rfl

/-! ## Steps in lockstep -/

/-- The end of a pass: where the worker stores its state is not looked at. -/
theorem Rel.done [DecidableEq σ] (h : Rel c l a) {r : Option (Tsm × σ × Option Pack)} {a' : Station σ}
    (hr : Passed l r a') (store : Tsm → σ → Tsm)
    (hstore : ∀ t st, ∃ x y, store t st = { t with llcStateS := x, llcStateM := y }) :
    ∃ l' c', r.map (passDone l store) = some (l', (stationPassDone a a').2) ∧
      Rel c' l' (stationPassDone a a').1 := by
  obtain ⟨t, st, pk, c', rfl, hrel⟩ := hr
  have hst : st = a'.st := hrel.st
  have hold : l.llcState = a.st := h.st
  by_cases hne : a'.st ≠ a.st
  · refine ⟨{ l with tsm := t, llcState := st, pc := .llc pk }, c', ?_, ?_⟩
    · have htid : t.transId = a'.transId := hrel.transId
      rw [Option.map_some, passDone, if_pos (by rw [hst, hold]; exact hne), stationPassDone, if_pos hne, hst, htid]
    · rw [stationPassDone, if_pos hne]
      exact hrel
  · refine ⟨{ l with tsm := store t st, pc := .mac }, c', ?_, ?_⟩
    · rw [Option.map_some, passDone, if_neg (by rw [hst, hold]; exact hne), stationPassDone, if_neg hne]
    · rw [stationPassDone, if_neg hne]
      obtain ⟨x, y, hs⟩ := hstore t st
      rw [hs]
      exact { hrel with
        linked := ⟨hrel.linked.mac, hrel.linked.owner⟩
        place := rfl
        st := hold.trans (not_not.mp hne).symm
        last := fun _ hd => by cases hd }

/-- The MAC worker, up to the radio call. -/
theorem macCall_lockstep (h : Rel c l a) (hpc : l.pc = .mac) :
    ∃ l' c', macCall l = some (l', (stationCall a).2) ∧ Rel c' l' (stationCall a).1 := by
  cases hsend : a.send with
  | some d =>
    obtain ⟨l', hcall, hrel⟩ := macCall_send h hpc hsend
    simp only [stationCall, hsend] at hrel ⊢
    exact ⟨l', c, hcall, hrel⟩
  | none =>
    obtain ⟨l', c', hcall, hrel⟩ := macCall_recv h hpc hsend
    simp only [stationCall, hsend] at hrel ⊢
    exact ⟨l', c', hcall, hrel⟩

/-- The MAC worker from the return of a send, when there is a packet being sent. -/
theorem macSent_lockstep (h : Rel c l a) (hsend : a.place = .sending → a.send.isSome) :
    Lockstep (fun l a => ∃ c, Rel c l a) (macSent l) (stationSent a) := by
  have hplace := h.place
  cases hpc : l.pc with
  | sending =>
    rw [hpc] at hplace
    obtain ⟨d, hd⟩ := Option.isSome_iff_exists.mp (hsend hplace.symm)
    obtain ⟨l', c', hret, hrel⟩ := macSent_rel h hpc hd
    have hlast : a.last = none := h.last_none (by rw [← hplace]; exact nofun)
    simp only [hret, stationSent, ← hplace, Pc.place, if_true, hlast]
    exact ⟨l', rfl, c', hrel⟩
  | _ =>
    rw [hpc] at hplace
    simp only [macSent, hpc, stationSent, ← hplace, Pc.place]
    rfl

/-- The MAC worker from the return of a receive, when there is room for a packet. -/
theorem macReceived_lockstep (h : Rel c l a) (hrecv : a.place = .receiving → a.recv = none)
    (res : Option PackData) :
    Lockstep (fun l a => ∃ c, Rel c l a) (macReceived l res) (stationReceived a res) := by
  have hplace := h.place
  cases hpc : l.pc with
  | receiving p =>
    rw [hpc] at hplace
    have hnone := hrecv hplace.symm
    have hlast : a.last = none := h.last_none (by rw [← hplace]; exact nofun)
    simp only [stationReceived, ← hplace, Pc.place, if_true, hlast]
    cases res with
    | none =>
      obtain ⟨t, c', hput, hrel⟩ := macReceived_fail h hpc hnone l.tsm.data (fun q _ => rfl)
      exact ⟨macDone l t, by simp only [macReceived, hpc, stkMacDoReceiveRet, hput]; rfl, c', hrel⟩
    | some d =>
      have htest : stkTestPackChecksumm ((l.tsm.setData p d).data p) = stkTestPackChecksumm d :=
        congrArg stkTestPackChecksumm (Function.update_self ..)
      cases hgood : stkTestPackChecksumm d with
      | false =>
        obtain ⟨t, c', hput, hrel⟩ := macReceived_fail h hpc hnone
          (l.tsm.setData p d).data (fun q hq => Function.update_of_ne hq ..)
        simp only [Input.packet, hgood, Bool.false_eq_true, if_false, Option.none_or]
        refine ⟨macDone l t, ?_, c', hrel⟩
        simp only [macReceived, hpc, stkMacDoReceiveRet, htest, hgood, Bool.not_false, if_true]
        exact congrArg (Option.map fun t => (macDone l t, [])) hput
      | true =>
        obtain ⟨t, c', hcommit, hrel⟩ := macReceived_commit h hpc hnone d
        simp only [Input.packet, hgood, if_true, Option.some_or]
        refine ⟨macDone l t, ?_, c', hrel⟩
        simp only [macReceived, hpc, stkMacDoReceiveRet, htest, hgood, Bool.not_true, Bool.false_eq_true, if_false,
          hcommit]
        rfl
  | _ =>
    rw [hpc] at hplace
    simp only [macReceived, hpc, stationReceived, ← hplace, Pc.place]
    rfl

/-- **The slave's loop steps as its station.** -/
theorem sLockstep {a : Station LlcStateS} {l : Loop LlcStateS} (h : Rel c l a) (hinv : SInv a) (i : Input) :
    Lockstep (fun l a => ∃ c, Rel c l a) (sStep l i) (sStation a i) := by
  have hplace := h.place
  cases i with
  | pass now =>
    cases hpc : l.pc with
    | llc pk =>
      rw [hpc] at hplace
      obtain ⟨a', ha, hpass⟩ := sPass h hpc hinv
      obtain ⟨l', c', hdone, hrel⟩ := h.done hpass (fun tsm st => { tsm with llcStateS := st })
        (fun t st => ⟨st, t.llcStateM, rfl⟩)
      simp only [sStep, hpc, sStation, stationStep, ← hplace, Pc.place, if_true, ha, Option.map_some]
      exact ⟨l', hdone, c', hrel⟩
    | _ =>
      rw [hpc] at hplace
      simp only [sStep, hpc, sStation, stationStep, ← hplace, Pc.place]
      rfl
  | call =>
    cases hpc : l.pc with
    | mac =>
      rw [hpc] at hplace
      obtain ⟨l', c', hcall, hrel⟩ := macCall_lockstep h hpc
      simp only [sStep, hpc, sStation, stationStep, ← hplace, Pc.place, if_true]
      exact ⟨l', hcall, c', hrel⟩
    | _ =>
      rw [hpc] at hplace
      simp only [sStep, hpc, sStation, stationStep, ← hplace, Pc.place]
      rfl
  | sent =>
    refine macSent_lockstep h fun hp => ?_
    cases hst : a.st <;> simp only [SInv, hp, hst] at hinv
    exact hinv.1
  | received res =>
    refine macReceived_lockstep h (fun hp => ?_) res
    cases hst : a.st <;> simp only [SInv, hp, hst] at hinv
    exact hinv.2

/-- **The master's loop steps as its station**, while its timer is not read too early. -/
theorem mLockstep {a : Station LlcStateM} {l : Loop LlcStateM} (h : Rel c l a) (hinv : MInv a) {i : Input}
    (hi : Patient a i) : Lockstep (fun l a => ∃ c, Rel c l a) (mStep l i) (mStation a i) := by
  have hplace := h.place
  cases i with
  | pass now =>
    cases hpc : l.pc with
    | llc pk =>
      rw [hpc] at hplace
      obtain ⟨a', ha, hpass⟩ := mPass h hpc hinv hi
      obtain ⟨l', c', hdone, hrel⟩ := h.done hpass (fun tsm st => { tsm with llcStateM := st })
        (fun t st => ⟨t.llcStateS, st, rfl⟩)
      simp only [mStep, hpc, mStation, stationStep, ← hplace, Pc.place, if_true, ha, Option.map_some]
      exact ⟨l', hdone, c', hrel⟩
    | _ =>
      rw [hpc] at hplace
      simp only [mStep, hpc, mStation, stationStep, ← hplace, Pc.place]
      rfl
  | call =>
    cases hpc : l.pc with
    | mac =>
      rw [hpc] at hplace
      obtain ⟨l', c', hcall, hrel⟩ := macCall_lockstep h hpc
      simp only [mStep, hpc, mStation, stationStep, ← hplace, Pc.place, if_true]
      exact ⟨l', hcall, c', hrel⟩
    | _ =>
      rw [hpc] at hplace
      simp only [mStep, hpc, mStation, stationStep, ← hplace, Pc.place]
      rfl
  | sent =>
    refine macSent_lockstep h fun hp => ?_
    cases hst : a.st <;> simp only [MInv, hp, hst] at hinv
    exact hinv.1
  | received res =>
    refine macReceived_lockstep h (fun hp => ?_) res
    cases hst : a.st <;> simp only [MInv, hp, hst] at hinv
    exact hinv.2.1

end LoraBridge
