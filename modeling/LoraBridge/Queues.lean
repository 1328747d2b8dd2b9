import LoraBridge.Refinement

/-!
# Queue discipline

- The slave writes its queues properly in every run; the master does as long as its timer is not read as expired while a
  pack is still queued (`queues_disciplined`).
- Otherwise the master queues the pack twice (`mRun_queues_twice`), and from then on it is jammed: the send queue looks
  full for ever, the master never receives again, and its owner lists stand still (`Jam.step`).
-/

set_option autoImplicit false

namespace LoraBridge

open ListHead Transducer

/-- Every call that wrote a queue was proper, and no queue holds more than one pack. -/
structure Disciplined (t : Tsm) : Prop where
  calls : ∀ x ∈ t.queueCalls, QueueCall.Proper x
  short : ∃ c, Linked t c ∧ c.sendList.length ≤ 1 ∧ c.recvList.length ≤ 1

theorem Rel.disciplined {σ : Type} {c : Lists} {l : Loop σ} {a : Station σ} (h : Rel c l a) : Disciplined l.tsm := by
  refine ⟨h.calls, c, h.linked, ?_, ?_⟩
  · have hlen := congrArg List.length h.send
    rw [List.length_map] at hlen
    rw [hlen]
    cases a.send <;> simp
  · have hlen := congrArg List.length h.recv
    rw [List.length_map] at hlen
    rw [hlen]
    cases a.recv <;> simp

/-! ## The jammed master -/

/-- The node of the pack points at itself, after a commit; or it is poisoned, after a send. -/
def Knotted (m : MacLinks) (p : Pack) : Prop :=
  (m.next (.item p) = .node (.item p) ∧ m.prev (.item p) = .node (.item p)) ∨
    (m.next (.item p) = .poison1 ∧ m.prev (.item p) = .poison2)

/-- The head of the send queue points at `p` for ever; nothing is received. -/
structure Jam (p : Pack) (l : Loop LlcStateM) : Prop where
  headNext : l.tsm.mac.next (.head .sendList) = .node (.item p)
  headPrev : l.tsm.mac.prev (.head .sendList) = .node (.item p)
  recvNext : l.tsm.mac.next (.head .recvList) = .node (.head .recvList)
  recvPrev : l.tsm.mac.prev (.head .recvList) = .node (.head .recvList)
  kept : stkLlcResendGet l.tsm = some p
  /-- the second commit is still to come, or has been made -/
  twice : l.llcState = .resend ∨ ∃ x ∈ l.tsm.queueCalls, ¬ QueueCall.Proper x
  place : l.llcState = .resend ∧ (∃ pk, l.pc = .llc pk) ∨
    l.llcState = .sendAll ∧ (∀ q, l.pc ≠ .receiving q) ∧ Knotted l.tsm.mac p

/-- The owner side and the transaction are as they were; only a commit's assertion may have failed. -/
structure Still (t t' : Tsm) : Prop where
  owner : t'.owner = t.owner
  sendCounter : t'.llcSendOwnedCounter = t.llcSendOwnedCounter
  recvCounter : t'.llcRecvOwnedCounter = t.llcRecvOwnedCounter
  transId : t'.transId = t.transId
  stderr : ∀ x ∈ t'.stderr, x ∈ t.stderr ∨ x = .llcPackCommit

theorem Still.trans {t₁ t₂ t₃ : Tsm} (h : Still t₁ t₂) (h' : Still t₂ t₃) : Still t₁ t₃ where
  owner := h'.owner.trans h.owner
  sendCounter := h'.sendCounter.trans h.sendCounter
  recvCounter := h'.recvCounter.trans h.recvCounter
  transId := h'.transId.trans h.transId
  stderr x hx := (h'.stderr x hx).elim (h.stderr x) Or.inr

variable {p : Pack} {l l' : Loop LlcStateM} {o : List (Event LlcStateM)}

/-- Out of the resend the second commit has been made. -/
theorem Jam.jammed (h : Jam p l) (hpc : ∀ pk, l.pc ≠ .llc pk) :
    l.llcState = .sendAll ∧ Knotted l.tsm.mac p ∧ ∃ x ∈ l.tsm.queueCalls, ¬ QueueCall.Proper x := by
  obtain ⟨-, pk, hllc⟩ | ⟨hst, -, hknot⟩ := h.place
  · exact absurd hllc (hpc pk)
  · exact ⟨hst, hknot, h.twice.resolve_left (by rw [hst]; exact nofun)⟩

theorem Jam.hasPack (h : Jam p l) : stkMacHasPackToSend l.tsm = true := by
  simp [stkMacHasPackToSend, listEmpty, h.headNext]

theorem Jam.noReceived (h : Jam p l) : stkLlcHasReceivedPack l.tsm = false := by
  simp [stkLlcHasReceivedPack, listEmpty, h.recvNext]

theorem Jam.first (h : Jam p l) : stkMacGetFirstToSend l.tsm = some (l.tsm, p) := by
  simp [stkMacGetFirstToSend, h.hasPack, listFirstEntry, h.headNext, packOf]

/-- The resend of a jammed master: the assertion of the commit fails, the call is not proper, the pack is knotted. -/
theorem Jam.commit (h : Jam p l) :
    ∃ mac, stkLlcPackCommit l.tsm p = some { (prAssert l.tsm false .llcPackCommit).logCall (.commit .sendList p) with
        mac := mac } ∧ Knotted mac p ∧ (∀ k, mac.next (.head k) = l.tsm.mac.next (.head k)) ∧
      (∀ k, mac.prev (.head k) = l.tsm.mac.prev (.head k)) ∧
      ¬ QueueCall.Proper (.commit .sendList p, l.tsm.mac) := by
  obtain ⟨mac, hadd, hnext, hprev, hheads⟩ := addTail_again h.headPrev
  refine ⟨mac, ?_, Or.inl ⟨hnext, hprev⟩, hheads.1, hheads.2, ?_⟩
  · simp only [stkLlcPackCommit, h.hasPack, Bool.not_true, Tsm.logCall_mac, prAssert_mac, hadd, Option.bind_eq_bind,
      Option.bind_some]
    rfl
  · rintro ⟨c, hf, hempty, -⟩
    have hlist := hf.listEmpty .sendList
    rw [hempty] at hlist
    simp [listEmpty, h.headNext] at hlist

/-- What a step of the jammed master leaves alone. -/
theorem Jam.of_heads (h : Jam p l) {t : Tsm} {st : LlcStateM} {pc : Pc} {macState : MacState}
    (hnext : ∀ k, t.mac.next (.head k) = l.tsm.mac.next (.head k))
    (hprev : ∀ k, t.mac.prev (.head k) = l.tsm.mac.prev (.head k)) (howner : t.owner = l.tsm.owner)
    (htwice : st = .resend ∨ ∃ x ∈ t.queueCalls, ¬ QueueCall.Proper x)
    (hplace : st = .resend ∧ (∃ pk, pc = .llc pk) ∨ st = .sendAll ∧ (∀ q, pc ≠ .receiving q) ∧ Knotted t.mac p) :
    Jam p ⟨t, macState, st, pc⟩ where
  headNext := (hnext _).trans h.headNext
  headPrev := (hprev _).trans h.headPrev
  recvNext := (hnext _).trans h.recvNext
  recvPrev := (hprev _).trans h.recvPrev
  kept := by
    have hkept := h.kept
    simp only [stkLlcResendGet] at hkept ⊢
    rw [howner]
    exact hkept
  twice := htwice
  place := hplace

/-- **A jammed master stays jammed**, unless it faults, and its owner lists stand still. -/
theorem Jam.step {i : Input} (h : Jam p l) (hs : mStep l i = some (l', o)) : Jam p l' ∧ Still l.tsm l'.tsm := by
  cases i with
  | pass now =>
    rcases h.place with ⟨hst, pk, hpc⟩ | ⟨hst, hnot, hknot⟩
    · -- the resend
      obtain ⟨mac, hcommit, hknot, hnext, hprev, hbad⟩ := h.commit
      have hpass : stkMLlcPass l.tsm .resend pk now = some ({ (prAssert l.tsm false .llcPackCommit).logCall
          (.commit .sendList p) with
            mac := mac, llcTimer := ttTimerStart now llcTimeoutMs, retriesNum := l.tsm.retriesNum + 1 },
          .sendAll, some p) := by
        simp only [stkMLlcPass, h.kept, Option.isSome_some, prAssert_true, Option.some_or, Option.bind_eq_bind,
          Option.bind_some, hcommit]
        rfl
      simp only [mStep, hpc, hst, hpass, Option.map_some, passDone, ne_eq, reduceCtorEq, not_false_eq_true, if_true,
        Option.some.injEq, Prod.mk.injEq] at hs
      obtain ⟨rfl, -⟩ := hs
      refine ⟨h.of_heads hnext hprev rfl (Or.inr ⟨_, by simp [Tsm.logCall], hbad⟩)
        (Or.inr ⟨rfl, (by simp), hknot⟩), rfl, rfl, rfl, rfl, fun x hx => ?_⟩
      rcases List.mem_append.mp hx with hx | hx
      · exact Or.inl hx
      · exact Or.inr (List.mem_singleton.mp hx)
    · -- nothing is received; the timer may have expired again
      have hbad := h.twice.resolve_left (by rw [hst]; decide)
      cases hpc : l.pc with
      | llc pk =>
        simp only [mStep, hpc, hst, stkMLlcPass, h.noReceived, Bool.false_eq_true, if_false] at hs
        split_ifs at hs with hexp
        · simp only [Option.pure_def, Option.map_some, passDone, ne_eq, hst, reduceCtorEq, not_false_eq_true, if_true,
            Option.some.injEq, Prod.mk.injEq] at hs
          obtain ⟨rfl, -⟩ := hs
          exact ⟨h.of_heads (fun _ => rfl) (fun _ => rfl) rfl (Or.inl rfl) (Or.inl ⟨rfl, pk, rfl⟩), rfl, rfl, rfl, rfl,
            fun x hx => Or.inl hx⟩
        · simp only [Option.pure_def, Option.map_some, passDone, hst, ne_eq, not_true_eq_false, if_false,
            Option.some.injEq, Prod.mk.injEq] at hs
          obtain ⟨rfl, -⟩ := hs
          exact ⟨h.of_heads (fun _ => rfl) (fun _ => rfl) rfl (Or.inr hbad) (Or.inr ⟨rfl, (by simp), hknot⟩), rfl, rfl,
            rfl, rfl, fun x hx => Or.inl hx⟩
      | _ =>
        simp only [mStep, hpc] at hs
        cases hs
  | call =>
    simp only [mStep] at hs
    split_ifs at hs with hpc
    obtain ⟨hst, hknot, hbad⟩ := h.jammed (by rw [hpc]; simp)
    simp only [macCall, h.hasPack, if_true, stkMacDoSendCall, prAssert_true, h.first, Option.bind_eq_bind,
      Option.bind_some, Option.some.injEq, Prod.mk.injEq, Option.pure_def] at hs
    obtain ⟨rfl, -⟩ := hs
    exact ⟨h.of_heads (fun _ => rfl) (fun _ => rfl) rfl (Or.inr hbad) (Or.inr ⟨hst, (by simp), hknot⟩), rfl, rfl, rfl,
      rfl, fun x hx => Or.inl hx⟩
  | sent =>
    cases hpc : l.pc with
    | sending =>
      obtain ⟨hst, hknot, hbad⟩ := h.jammed (by rw [hpc]; simp)
      simp only [mStep, macSent, hpc, stkMacMarkAsSend, h.hasPack, prAssert_true, h.first, Option.bind_eq_bind,
        Option.bind_some, Tsm.logCall_mac] at hs
      rcases hknot with ⟨hnext, hprev⟩ | ⟨hnext, -⟩
      · -- the node is poisoned, and the head goes on pointing at it
        obtain ⟨mac, hdel, hnext', hprev', hheads⟩ := del_self hnext hprev
        simp only [hdel, Option.bind_some, Option.pure_def, Option.map_some, Option.some.injEq, Prod.mk.injEq] at hs
        obtain ⟨rfl, -⟩ := hs
        obtain ⟨x, hx, hbad⟩ := hbad
        exact ⟨h.of_heads hheads.1 hheads.2 rfl (Or.inr ⟨x, List.mem_append_left _ hx, hbad⟩)
          (Or.inr ⟨hst, (by simp), Or.inr ⟨hnext', hprev'⟩⟩), rfl, rfl, rfl, rfl, fun x hx => Or.inl hx⟩
      · rw [del_poisoned hnext] at hs
        cases hs
    | _ =>
      simp only [mStep, macSent, hpc] at hs
      cases hs
  | received res =>
    cases hpc : l.pc with
    | receiving q =>
      obtain ⟨-, pk, hllc⟩ | ⟨-, hnot, -⟩ := h.place
      · rw [hpc] at hllc
        cases hllc
      · exact absurd hpc (hnot q)
    | _ =>
      simp only [mStep, macReceived, hpc] at hs
      cases hs

/-- **Into the jam.** When the timer is read as expired with a pack in the send queue, the master is about to commit
that pack a second time. -/
theorem MRel.jam {a : Station LlcStateM} {i : Input} (h : MRel l a) (hi : ¬ TimerPatient l i)
    (hs : mStep l i = some (l', o)) : l'.tsm = l.tsm ∧ ∃ p, Jam p l' := by
  cases i with
  | pass now =>
    simp only [TimerPatient, Classical.not_imp, Bool.not_eq_false] at hi
    obtain ⟨hst, hrecv, hexp, hhas⟩ := hi
    obtain ⟨c, hrel⟩ := h.rel
    cases hpc : l.pc with
    | llc pk =>
      simp only [mStep, hpc, hst, stkMLlcPass, hrecv, Bool.false_eq_true, if_false, hexp, if_true, Option.pure_def,
        Option.map_some, passDone, ne_eq, reduceCtorEq, not_false_eq_true, Option.some.injEq, Prod.mk.injEq] at hs
      obtain ⟨rfl, -⟩ := hs
      have hplace : a.place = .llc := by rw [← hrel.place, hpc]; rfl
      have hinv := h.inv
      simp only [MInv, hplace, ← hrel.st, hst] at hinv
      -- one pack to send again, and that is the one queued
      obtain ⟨d, hd⟩ := Option.isSome_iff_exists.mp hinv.1
      obtain ⟨p, hp, -⟩ := map_toList_some hrel.resend hd
      rw [hrel.hasPackToSend, Option.isSome_iff_exists] at hhas
      obtain ⟨d', hd'⟩ := hhas
      obtain ⟨q, hq, -⟩ := map_toList_some hrel.send hd'
      have hfrom := hrel.sendFrom q (by rw [hq]; simp)
      rw [h.own, hp] at hfrom
      have hqp : q = p := by simpa using hfrom
      subst hqp
      have hsend := hrel.linked.mac.ring .sendList
      have hnone := hrel.linked.mac.ring .recvList
      rw [hrel.hasReceivedPack, Option.isSome_eq_false_iff, Option.isNone_iff_eq_none] at hrecv
      simp only [Lists.mac, hq, map_toList_none hrel.recv hrecv, List.map_cons, List.map_nil, Seg] at hsend hnone
      refine ⟨rfl, q, hsend.1.1, hsend.2.2, hnone.1, hnone.2, ?_, Or.inl rfl, Or.inl ⟨rfl, pk, rfl⟩⟩
      rw [stkLlcResendGet_eq hrel.linked.owner, hp]
      rfl
    | _ =>
      simp only [mStep, hpc] at hs
      cases hs
  | _ => exact absurd trivial hi

/-- Every run of the master: either the timer was never read too early, or the master is jammed, with the owner lists it
had when that began. -/
theorem mRun_cases {t : Tsm} {l₀ : Loop LlcStateM} {is : List Input} {os : List (Event LlcStateM)}
    (h₀ : mStart t = some l₀) (hr : run mStep l₀ is = some (l, os)) :
    (Along mStep TimerPatient l₀ is ∧ ∃ a, MRel l a) ∨
      (¬ Along mStep TimerPatient l₀ is ∧ (∃ p, Jam p l) ∧ ∃ l₁ a, MRel l₁ a ∧ Still l₁.tsm l.tsm) := by
  let P : List Input → List (Event LlcStateM) → Loop LlcStateM → Prop := fun is os l =>
    run mStep l₀ is = some (l, os) ∧
      ((Along mStep TimerPatient l₀ is ∧ ∃ a, MRel l a) ∨
        (¬ Along mStep TimerPatient l₀ is ∧ (∃ p, Jam p l) ∧ ∃ l₁ a, MRel l₁ a ∧ Still l₁.tsm l.tsm))
  have hstart : P [] [] l₀ := by
    obtain ⟨l', hl', hrel⟩ := mStart_rel t
    cases h₀.symm.trans hl'
    exact ⟨rfl, Or.inl ⟨fun pre i post he => by simp at he, _, hrel⟩⟩
  have hstep : ∀ is os l i l' o, P is os l → mStep l i = some (l', o) → P (is ++ [i]) (os ++ o) l' := by
    rintro is os l i l' o ⟨hr, hcase⟩ hs
    refine ⟨run_snoc.mpr ⟨l, os, o, hr, hs, rfl⟩, ?_⟩
    rcases hcase with ⟨halong, a, hrel⟩ | ⟨hearly, ⟨p, hjam⟩, l₁, a, hrel, hsame⟩
    · by_cases hi : TimerPatient l i
      · obtain ⟨a', -, hrel'⟩ := (hrel.step hi).of_some hs
        exact Or.inl ⟨halong.snoc hr hi, a', hrel'⟩
      · obtain ⟨htsm, hjam⟩ := hrel.jam hi hs
        exact Or.inr ⟨fun h => hi (h.last hr), hjam, l, a, hrel,
          by rw [htsm]; exact ⟨rfl, rfl, rfl, rfl, fun x => Or.inl⟩⟩
    · obtain ⟨hjam', hsame'⟩ := hjam.step hs
      exact Or.inr ⟨fun h => hearly h.front, ⟨p, hjam'⟩, l₁, a, hrel, hsame.trans hsame'⟩
  exact (run_induct hstart hstep hr).2

/-! ## The discipline -/

/-- **Queue discipline.** The slave keeps it in every run; the master in exactly the runs in which its timer is not read
as expired while a pack is in the send queue (seen at the latest when the resend that follows has been made). -/
theorem queues_disciplined (t : Tsm) :
    (∃ l₀, sStart t = some l₀ ∧ ∀ (is : List Input) (l : Loop LlcStateS) (os : List (Event LlcStateS)),
      run sStep l₀ is = some (l, os) → Disciplined l.tsm) ∧
    (∃ l₀, mStart t = some l₀ ∧ ∀ (is : List Input) (l : Loop LlcStateM) (os : List (Event LlcStateM)),
      run mStep l₀ is = some (l, os) →
        (Along mStep TimerPatient l₀ is → Disciplined l.tsm) ∧
        (l.llcState ≠ .resend → Disciplined l.tsm → Along mStep TimerPatient l₀ is)) := by
  constructor
  · obtain ⟨l₀, h₀, -⟩ := sStart_rel t
    refine ⟨l₀, h₀, fun is l os hr => ?_⟩
    obtain ⟨a, -, hrel⟩ := sRun_station h₀ hr
    obtain ⟨c, hc⟩ := hrel.rel
    exact hc.disciplined
  · obtain ⟨l₀, h₀, -⟩ := mStart_rel t
    refine ⟨l₀, h₀, fun is l os hr => ?_⟩
    rcases mRun_cases h₀ hr with ⟨halong, a, hrel⟩ | ⟨hearly, ⟨p, hjam⟩, -⟩
    · obtain ⟨c, hc⟩ := hrel.rel
      exact ⟨fun _ => hc.disciplined, fun _ _ => halong⟩
    · refine ⟨fun halong => absurd halong hearly, fun hst hdisc => ?_⟩
      obtain ⟨x, hx, hbad⟩ := hjam.twice.resolve_left hst
      exact absurd (hdisc.calls x hx) hbad

/-- The master sends, times out, resends and takes the response. -/
def resendInputs : List Input :=
  [.pass ⟨0, 0⟩, .pass ⟨0, 0⟩, .call, .sent, .pass ⟨0, 100000⟩, .call, .received none, .pass ⟨0, 400000⟩,
    .pass ⟨0, 400000⟩, .pass ⟨0, 400000⟩, .call, .sent, .pass ⟨0, 500000⟩, .call, .received (some (singleFrame 1)),
    .pass ⟨0, 600000⟩]

theorem queues_disciplined_resend : ∃ l₀ l os, mStart Tsm.zeroed = some l₀ ∧ run mStep l₀ resendInputs = some (l, os) ∧
    transmitted os = [singleFrame 1, singleFrame 1] ∧ l.llcState = .receivedAll ∧ Disciplined l.tsm := by
  have heval : (mStart Tsm.zeroed).bind (fun l₀ => (run mStep l₀ resendInputs).map fun r =>
      (checkAlong mStep (fun l i => decide (TimerPatient l i)) l₀ resendInputs, r.1.llcState, transmitted r.2)) =
      some (true, .receivedAll, [singleFrame 1, singleFrame 1]) := by decide +kernel
  obtain ⟨l₀, h₀, hrun⟩ := Option.bind_eq_some_iff.mp heval
  obtain ⟨⟨l, os⟩, hr, hfacts⟩ := Option.map_eq_some_iff.mp hrun
  simp only [Prod.mk.injEq] at hfacts
  obtain ⟨l₁, h₁, hall⟩ := (queues_disciplined Tsm.zeroed).2
  cases h₀.symm.trans h₁
  exact ⟨l₀, l, os, h₀, hr, hfacts.2.2, hfacts.2.1, (hall _ _ _ hr).1 (along_of_check hfacts.1)⟩

/-- 300 ms pass between the start of the timer and its check in the next pass. -/
def lateInputs : List Input := [.pass ⟨0, 0⟩, .pass ⟨0, 300000⟩, .pass ⟨0, 300000⟩]

/-- The pack still waits for the radio when it is committed again. -/
theorem mRun_queues_twice : ∃ l₀ l os, mStart Tsm.zeroed = some l₀ ∧ run mStep l₀ lateInputs = some (l, os) ∧
    Assert.llcPackCommit ∈ l.tsm.stderr ∧ ¬ Disciplined l.tsm := by
  have heval : (mStart Tsm.zeroed).bind (fun l₀ => (run mStep l₀ lateInputs).map fun r =>
      (checkAlong mStep (fun l i => decide (TimerPatient l i)) l₀ lateInputs, r.1.llcState, r.1.tsm.stderr)) =
      some (false, .sendAll, [.llcPackCommit]) := by decide +kernel
  obtain ⟨l₀, h₀, hrun⟩ := Option.bind_eq_some_iff.mp heval
  obtain ⟨⟨l, os⟩, hr, hfacts⟩ := Option.map_eq_some_iff.mp hrun
  simp only [Prod.mk.injEq] at hfacts
  refine ⟨l₀, l, os, h₀, hr, by rw [hfacts.2.2]; simp, fun hdisc => ?_⟩
  rcases mRun_cases h₀ hr with ⟨halong, -⟩ | ⟨-, ⟨p, hjam⟩, -⟩
  · rw [check_of_along halong] at hfacts
    exact absurd hfacts.1 (by decide)
  · obtain ⟨x, hx, hbad⟩ := hjam.twice.resolve_left (by rw [hfacts.2.1]; exact nofun)
    exact hbad (hdisc.calls x hx)

end LoraBridge
