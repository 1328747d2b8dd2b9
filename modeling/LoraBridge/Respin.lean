import LoraBridge.Queues

/-!
# The respin loops end

A call of an LLC worker is the passes of its loop from the first `respin` to the return. Both machines run in circles,
so what gets smaller is put together from the packs still queued, the state, and for the master whether its timer was
started in the call. `WorkerReady` is all that a call needs of the memory: pools, a receive queue of any length, and a
send queue that a pack committed twice may have spoilt.
-/

set_option autoImplicit false

namespace LoraBridge

open ListHead Transducer

/-- What a call finds: the owner lists, the receive queue, whose packs are owned by the LLC, and a send pack that is in
the pool or goes back to it when the resend list is cleared. -/
structure WorkerReady (t : Tsm) (c : Lists) : Prop where
  owner : Forest t.owner c.owner
  queue : Apart t.mac .recvList .sendList c.recvList
  received : ∀ p ∈ c.recvList, p ∈ c.llcRecvOwned
  spare : c.sendListPool ++ c.llcResendList ≠ []

/-- The packs `d` of the receive queue have been consumed, and are back in their pool. -/
structure Consumed (c : Lists) (d : List Pack) (c' : Lists) : Prop where
  queue : c.recvList = d ++ c'.recvList
  pool : c'.recvListPool = c.recvListPool ++ d

variable {t t' : Tsm} {c c' c'' : Lists} {p : Pack} {d ps : List Pack}

theorem Consumed.trans (h : Consumed c d c') (h' : Consumed c' ps c'') : Consumed c (d ++ ps) c'' := by
  refine ⟨?_, ?_⟩
  · rw [h.queue, h'.queue, List.append_assoc]
  · rw [h'.pool, h.pool, List.append_assoc]

/-! ## The functions of the worker -/

theorem WorkerReady.congr (h : WorkerReady t c) (hmac : t'.mac = t.mac) (howner : t'.owner = t.owner) :
    WorkerReady t' c := by
  refine ⟨?_, ?_, h.received, h.spare⟩
  · rw [howner]
    exact h.owner
  · rw [hmac]
    exact h.queue

theorem WorkerReady.check (h : WorkerReady t c) (b : Bool) (x : Assert) : WorkerReady (prAssert t b x) c :=
  h.congr (prAssert_mac ..) (prAssert_owner ..)

theorem WorkerReady.hasReceivedPack (h : WorkerReady t c) : stkLlcHasReceivedPack t = !c.recvList.isEmpty :=
  congrArg Bool.not (ring_listEmpty h.queue.ring)

theorem WorkerReady.first_received (h : WorkerReady t c) (hc : c.recvList = p :: ps) :
    listFirstEntry t.mac (.head .recvList) = .node (.item p) := by
  rw [listFirstEntry, seg_next h.queue.ring, hc]
  rfl

/-- A pack of another owner list is not on the receive queue. -/
theorem WorkerReady.not_received (h : WorkerReady t c) {k : OwnerHead} (hk : k ≠ .llcRecvOwned) (hp : p ∈ c.owner k) :
    p ∉ c.recvList := fun hm => hk (h.owner.unique hp (h.received p hm))

/-- Consuming a pack: it goes back to the pool. -/
theorem WorkerReady.consume (h : WorkerReady t c) (hc : c.recvList = p :: ps) :
    ∃ t' c', stkLlcMarkAsReceived t = some t' ∧ t'.data = t.data ∧ WorkerReady t' c' ∧ Consumed c [p] c' ∧
      p ∉ c'.recvList ∧ c'.sendListPool = c.sendListPool ∧ c'.llcResendList = c.llcResendList := by
  have hqueue := h.queue
  rw [hc] at hqueue
  obtain ⟨hp, -⟩ := List.nodup_cons.mp hqueue.nodup
  obtain ⟨mac, hmac, hapart⟩ := hqueue.del (by decide)
  obtain ⟨owner, howner, hf⟩ := stkPutRecvPackholder_spec (t := { t.logCall (.del p) with mac := mac }) (c := c)
    h.owner (h.received p (by rw [hc]; exact List.mem_cons_self))
  let c' : Lists :=
    { c with recvList := ps, llcRecvOwned := c.llcRecvOwned.erase p, recvListPool := c.recvListPool ++ [p] }
  have hmark := (stkLlcMarkAsReceived_eq (h.first_received hc) hmac).trans howner
  refine ⟨_, c', hmark, rfl, ⟨hf, hapart, ?_, h.spare⟩, ⟨hc, rfl⟩, hp, rfl, rfl⟩
  intro q hq
  have hne : q ≠ p := fun he => hp (he ▸ hq)
  exact (List.mem_erase_of_ne hne).mpr (h.received q (by rw [hc]; exact List.mem_cons_of_mem _ hq))

/-- Clearing the resend list leaves a pack in the send pool. -/
theorem WorkerReady.clear (h : WorkerReady t c) :
    ∃ t' c', stkLlcResendClearAll t = some t' ∧ t'.data = t.data ∧ WorkerReady t' c' ∧ c'.recvList = c.recvList ∧
      c'.recvListPool = c.recvListPool ∧ c'.sendListPool ≠ [] := by
  obtain ⟨owner, hclear, hf⟩ := stkLlcResendClearAll_spec h.owner
  let c' : Lists := { c with llcResendList := [], sendListPool := c.sendListPool ++ c.llcResendList }
  refine ⟨_, c', hclear, rfl, ⟨hf, h.queue, h.received, ?_⟩, rfl, rfl, h.spare⟩
  rw [List.append_nil]
  exact h.spare

/-- Committing a pack that is not on the receive queue, wherever else it is. -/
theorem stkLlcPackCommit_apart (h : Apart t.mac .recvList .sendList ps) (hp : p ∉ ps) :
    ∃ mac, stkLlcPackCommit t p = some { (prAssert t (!stkMacHasPackToSend t) .llcPackCommit).logCall
        (.commit .sendList p) with mac := mac } ∧ Apart mac .recvList .sendList ps := by
  obtain ⟨mac, hmac, hapart⟩ := h.addTail (by decide) hp
  exact ⟨mac, by simp [stkLlcPackCommit, hmac], hapart⟩

theorem WorkerReady.commit (h : WorkerReady t c) (hp : p ∉ c.recvList) :
    ∃ t', stkLlcPackCommit t p = some t' ∧ t'.data = t.data ∧ WorkerReady t' c := by
  obtain ⟨mac, hcommit, hapart⟩ := stkLlcPackCommit_apart h.queue hp
  have howner := prAssert_owner t (!stkMacHasPackToSend t) .llcPackCommit
  exact ⟨_, hcommit, prAssert_data .., howner ▸ h.owner, hapart, h.received, h.spare⟩

/-- A resend commits the first pack of the resend list, or the one consumed last. -/
theorem WorkerReady.resend (h : WorkerReady t c) (x : Assert) (pk : Option Pack)
    (hpk : c.llcResendList ≠ [] ∨ ∃ p, pk = some p ∧ p ∉ c.recvList) :
    ∃ q t', (stkLlcResendGet t).or pk = some q ∧
      stkLlcPackCommit (prAssert t (stkLlcResendGet t).isSome x) q = some t' ∧ t'.data = t.data ∧ WorkerReady t' c := by
  have hget := stkLlcResendGet_eq h.owner
  have hpick : ∃ q, (stkLlcResendGet t).or pk = some q ∧ q ∉ c.recvList := by
    cases hlist : c.llcResendList with
    | nil =>
      obtain ⟨p, hp, hout⟩ := hpk.resolve_left (absurd hlist)
      rw [hget, hlist]
      exact ⟨p, hp, hout⟩
    | cons q qs =>
      rw [hget, hlist]
      exact ⟨q, rfl, h.not_received (k := .llcResendList) (by decide) (by simp [Lists.owner, hlist])⟩
  obtain ⟨q, hq, hout⟩ := hpick
  obtain ⟨t', hcommit, hdata, hready⟩ := (h.check (stkLlcResendGet t).isSome x).commit hout
  exact ⟨q, t', hq, hcommit, hdata.trans (prAssert_data ..), hready⟩

/-- Preparing a pack of the send pool, committing it and keeping it for a resend. -/
theorem WorkerReady.issue (h : WorkerReady t c) (hpool : c.sendListPool ≠ []) :
    ∃ p t₁ t₂ t₃ c', stkGetSendPackholder t = some (t₁, p) ∧
      stkLlcPackCommit (stkLlcSinglePrepare t₁ p payload 16) p = some t₂ ∧ stkLlcResendAdd t₂ p = some t₃ ∧
      (∀ q ∈ c.recvList, t₃.data q = t.data q) ∧ WorkerReady t₃ c' ∧ c'.recvList = c.recvList ∧
      c'.recvListPool = c.recvListPool ∧ c'.llcResendList ≠ [] := by
  obtain ⟨p, pool, hpool⟩ := List.exists_cons_of_ne_nil hpool
  have hp : p ∉ c.recvList := h.not_received (k := .sendListPool) (by decide) (by simp [Lists.owner, hpool])
  obtain ⟨owner₁, hget, hf₁⟩ := stkGetSendPackholder_spec h.owner hpool
  let t₁ : Tsm := { t with owner := owner₁, llcSendOwnedCounter := t.llcSendOwnedCounter + 1 }
  let t₂ : Tsm := stkLlcSinglePrepare t₁ p payload 16
  obtain ⟨mac, hcommit, hapart⟩ := stkLlcPackCommit_apart (t := t₂) h.queue hp
  let c₁ : Lists := { c with sendListPool := pool, llcSendOwned := c.llcSendOwned ++ [p] }
  let b : Bool := !stkMacHasPackToSend t₂
  have howner : Forest (prAssert t₂ b .llcPackCommit).owner c₁.owner := by
    rw [prAssert_owner]
    exact hf₁
  obtain ⟨owner₂, hadd, hf₂⟩ := stkLlcResendAdd_spec (p := p)
    (t := { (prAssert t₂ b .llcPackCommit).logCall (.commit .sendList p) with mac := mac }) howner (by simp [c₁])
  let c' : Lists := { c₁ with llcSendOwned := c₁.llcSendOwned.erase p, llcResendList := c.llcResendList ++ [p] }
  refine ⟨p, _, _, _, c', hget, hcommit, hadd, fun q hq => ?_, ⟨hf₂, hapart, h.received, by simp [c']⟩, rfl, rfl,
    by simp [c']⟩
  have hne : q ≠ p := fun he => hp (he ▸ hq)
  have hdata : (prAssert t₂ b .llcPackCommit).data q = t₂.data q := by rw [prAssert_data]
  exact hdata.trans (Function.update_of_ne hne ..)

/-! ## The end of a call -/

/-- The first `n` passes, when the clock reads `clock k` in pass `k`. -/
def passes (clock : Nat → Timeval) (n : Nat) : List Input := firsts (fun k => .pass (clock k)) n

/-- A call has returned in the state `st`: what was consumed is back in the pool, and the next call can come. -/
structure Respun {σ : Type} (c : Lists) (l : Loop σ) (st : σ) (c' : Lists) : Prop where
  pc : l.pc = .mac
  llcState : l.llcState = st
  consumed : ∃ d, Consumed c d c'
  ready : WorkerReady l.tsm c'

variable {pk : Option Pack} {now : Timeval}

/-- A pass that changes the state is followed by another. -/
theorem sStep_respin {l : Loop LlcStateS} {st : LlcStateS} {pk' : Option Pack} (hpc : l.pc = .llc pk)
    (hpass : stkSLlcPass l.tsm l.llcState pk = some (t, st, pk')) (hne : st ≠ l.llcState) :
    sStep l (.pass now) = some ({ l with tsm := t, llcState := st, pc := .llc pk' }, [.enter st t.transId]) := by
  simp only [sStep, hpc, hpass, Option.map_some, passDone, if_pos hne]

/-- A pass that leaves the state as it was is the last. -/
theorem sStep_return {l : Loop LlcStateS} {pk' : Option Pack} (hpc : l.pc = .llc pk)
    (hpass : stkSLlcPass l.tsm l.llcState pk = some (t, l.llcState, pk')) :
    sStep l (.pass now) = some ({ l with tsm := { t with llcStateS := l.llcState }, pc := .mac }, []) := by
  simp only [sStep, hpc, hpass, Option.map_some, passDone, ne_eq, not_true, if_false]

theorem mStep_respin {l : Loop LlcStateM} {st : LlcStateM} {pk' : Option Pack} (hpc : l.pc = .llc pk)
    (hpass : stkMLlcPass l.tsm l.llcState pk now = some (t, st, pk')) (hne : st ≠ l.llcState) :
    mStep l (.pass now) = some ({ l with tsm := t, llcState := st, pc := .llc pk' }, [.enter st t.transId]) := by
  simp only [mStep, hpc, hpass, Option.map_some, passDone, if_pos hne]

theorem mStep_return {l : Loop LlcStateM} {pk' : Option Pack} (hpc : l.pc = .llc pk)
    (hpass : stkMLlcPass l.tsm l.llcState pk now = some (t, l.llcState, pk')) :
    mStep l (.pass now) = some ({ l with tsm := { t with llcStateM := l.llcState }, pc := .mac }, []) := by
  simp only [mStep, hpc, hpass, Option.map_some, passDone, ne_eq, not_true, if_false]

/-! ## The slave -/

/-- A pass of the slave that finds a pack: the pack is consumed, and the worker goes on only if it is a single one. -/
theorem sPass_consume (h : WorkerReady t c) (hc : c.recvList = p :: ps) (pk : Option Pack) :
    ∃ t' st c', stkSLlcPass t .idle pk = some (t', st, some p) ∧ t'.data = t.data ∧ WorkerReady t' c' ∧
      Consumed c [p] c' ∧ p ∉ c'.recvList ∧
      (st = .receivedAll ∧ c'.sendListPool ≠ [] ∨ st = .resend ∨
        st = .idle ∧ stkGetPackType (t.data p) ≠ .typeSingle) := by
  have hhas := h.hasReceivedPack
  rw [hc] at hhas
  have hfirst := stkLlcGetFirstReceived_eq (h.first_received hc)
  simp only [stkSLlcPass, hhas, List.isEmpty_cons, Bool.not_false, if_true, hfirst, Option.bind_eq_bind,
    Option.bind_some]
  split_ifs with hreset hsame htype htype
  · obtain ⟨t', c', hmark, hdata, hready, hcons, hp, -⟩ := (h.check false .sReset).consume hc
    simp only [Option.bind_some, hmark]
    refine ⟨t', .idle, c', rfl, hdata, hready, hcons, hp, Or.inr (Or.inr ⟨rfl, fun htype => ?_⟩)⟩
    rw [stkIsResetPack_single htype] at hreset
    cases hreset
  · obtain ⟨t', c', hmark, hdata, hready, hcons, hp, -⟩ := h.consume hc
    simp only [Option.bind_some, hmark]
    exact ⟨t', .resend, c', rfl, hdata, hready, hcons, hp, Or.inr (Or.inl rfl)⟩
  · obtain ⟨t', c', hmark, hdata, hready, hcons, hp, -⟩ := (h.check false .sRepeatType).consume hc
    simp only [Option.bind_some, hmark]
    exact ⟨t', .idle, c', rfl, hdata, hready, hcons, hp, Or.inr (Or.inr ⟨rfl, htype⟩)⟩
  · obtain ⟨t₁, c₁, hclear, hdata₁, hready₁, hrecv, hpool, hspare⟩ := h.clear
    have hready₂ : WorkerReady { t₁ with retriesNum := 0, transId := stkGetTransId (t.data p) } c₁ :=
      hready₁.congr rfl rfl
    obtain ⟨t', c', hmark, hdata, hready, hcons, hp, hsend, -⟩ := hready₂.consume (hrecv.trans hc)
    simp only [hclear, Option.bind_some, hmark]
    exact ⟨t', .receivedAll, c', rfl, hdata.trans hdata₁, hready, ⟨hrecv ▸ hcons.queue, hpool ▸ hcons.pool⟩, hp,
      Or.inl ⟨rfl, hsend ▸ hspare⟩⟩
  · obtain ⟨t₁, c₁, hclear, hdata₁, hready₁, hrecv, hpool, -⟩ := h.clear
    have hready₂ : WorkerReady { t₁ with retriesNum := 0 } c₁ := hready₁.congr rfl rfl
    obtain ⟨t', c', hmark, hdata, hready, hcons, hp, -⟩ := (hready₂.check false .sNewType).consume (hrecv.trans hc)
    simp only [hclear, Option.bind_some, hmark]
    exact ⟨t', .idle, c', rfl, hdata.trans hdata₁, hready, ⟨hrecv ▸ hcons.queue, hpool ▸ hcons.pool⟩, hp,
      Or.inr (Or.inr ⟨rfl, htype⟩)⟩

/-- Where a call of the slave's worker stands that has found the lists `c₀` and the packets `data`, `m` passes at most
before its last one. -/
structure SCall (data : Pack → PackData) (c₀ : Lists) (m : Nat) (pk : Option Pack) (c : Lists) (l : Loop LlcStateS) :
    Prop where
  pc : l.pc = .llc pk
  ready : WorkerReady l.tsm c
  consumed : ∃ d, Consumed c₀ d c
  data : ∀ p ∈ c.recvList, l.tsm.data p = data p
  measure :
    match l.llcState with
    | .idle => m = 3 * c.recvList.length
    | .sendAll => m = 3 * c.recvList.length + 1
    | .receivedAll => m = 3 * c.recvList.length + 2 ∧ c.sendListPool ≠ []
    | .resend => m = 3 * c.recvList.length + 1 ∧ ∃ p, pk = some p ∧ p ∉ c.recvList

/-- A call of the slave's worker is over. -/
structure SDone (data : Pack → PackData) (c₀ c : Lists) (l : Loop LlcStateS) : Prop where
  respun : Respun c₀ l .idle c
  empty : (∀ p ∈ c₀.recvList, stkGetPackType (data p) = .typeSingle) ∨ c₀.recvList.length ≤ 1 → c.recvList = []

variable {data : Pack → PackData} {c₀ : Lists} {m : Nat}

/-- **A pass of the slave** ends the call or lowers the measure. -/
theorem SCall.step {l : Loop LlcStateS} (h : SCall data c₀ m pk c l) (now : Timeval) :
    ∃ l' o, sStep l (.pass now) = some (l', o) ∧
      ((∃ c', SDone data c₀ c' l') ∨ ∃ m' < m, ∃ pk' c', SCall data c₀ m' pk' c' l') := by
  obtain ⟨tsm, macState, st, pc⟩ := l
  obtain ⟨hpc, hready, ⟨d, hcons⟩, hdata, hmeasure⟩ := h
  dsimp only at hpc hready hdata hmeasure
  cases st with
  | idle =>
    cases hc : c.recvList with
    | nil =>
      have hpass : stkSLlcPass tsm .idle pk = some (tsm, .idle, pk) := by
        simp [stkSLlcPass, hready.hasReceivedPack, hc]
      exact ⟨_, _, sStep_return hpc hpass, Or.inl ⟨c, ⟨rfl, rfl, ⟨d, hcons⟩, hready.congr rfl rfl⟩, fun _ => hc⟩⟩
    | cons p ps =>
      obtain ⟨t', st', c', hpass, hsame, hready', hcons', hp, hst⟩ := sPass_consume hready hc pk
      have hps : c.recvList.length = c'.recvList.length + 1 := by
        rw [hcons'.queue, List.length_append, List.length_singleton, Nat.add_comm]
      have hdata' : ∀ q ∈ c'.recvList, t'.data q = data q := by
        intro q hq
        rw [hsame]
        exact hdata q (by rw [hcons'.queue]; exact List.mem_append_right _ hq)
      rcases hst with ⟨rfl, hspare⟩ | rfl | ⟨rfl, htype⟩
      · exact ⟨_, _, sStep_respin hpc hpass (by simp),
          Or.inr ⟨_, by omega, some p, c', rfl, hready', ⟨_, hcons.trans hcons'⟩, hdata', rfl, hspare⟩⟩
      · exact ⟨_, _, sStep_respin hpc hpass (by simp),
          Or.inr ⟨_, by omega, some p, c', rfl, hready', ⟨_, hcons.trans hcons'⟩, hdata', rfl, p, rfl, hp⟩⟩
      · refine ⟨_, _, sStep_return hpc hpass, Or.inl ⟨c', ⟨rfl, rfl, ⟨_, hcons.trans hcons'⟩, hready'.congr rfl rfl⟩,
          fun hall => ?_⟩⟩
        have hqueue := (hcons.trans hcons').queue
        rcases hall with hsingle | hone
        · -- a pack that is not single was on the queue
          have hmem : p ∈ c₀.recvList := by rw [hqueue]; simp
          rw [hdata p (by rw [hc]; exact List.mem_cons_self)] at htype
          exact absurd (hsingle p hmem) htype
        · rw [hqueue] at hone
          simp only [List.length_append, List.length_singleton] at hone
          exact List.eq_nil_of_length_eq_zero (by omega)
  | receivedAll =>
    obtain ⟨rfl, hspare⟩ := hmeasure
    obtain ⟨p, t₁, t₂, t₃, c', hget, hcommit, hadd, hsame, hready', hrecv, hpool, -⟩ := hready.issue hspare
    have hpass : stkSLlcPass tsm .receivedAll pk = some (t₃, .sendAll, some p) := by
      simp only [stkSLlcPass, hget, Option.bind_eq_bind, Option.bind_some, hcommit, hadd]
      rfl
    refine ⟨_, _, sStep_respin hpc hpass (by simp), Or.inr ⟨3 * c'.recvList.length + 1, ?_, some p, c', rfl, hready',
      ⟨d, ?_, ?_⟩, fun q hq => ?_, rfl⟩⟩
    · rw [hrecv]
      omega
    · rw [hrecv]
      exact hcons.queue
    · rw [hpool]
      exact hcons.pool
    · rw [hrecv] at hq
      exact (hsame q hq).trans (hdata q hq)
  | sendAll =>
    exact ⟨_, _, sStep_respin hpc rfl (by simp), Or.inr ⟨_, by omega, pk, c, rfl, hready, ⟨d, hcons⟩, hdata, rfl⟩⟩
  | resend =>
    obtain ⟨rfl, hpk⟩ := hmeasure
    obtain ⟨q, t', hpick, hcommit, hsame, hready'⟩ := hready.resend .sResendEmpty pk (Or.inr hpk)
    have hpass : stkSLlcPass tsm .resend pk = some ({ t' with retriesNum := t'.retriesNum + 1 }, .idle, some q) := by
      simp only [stkSLlcPass, hpick, Option.bind_eq_bind, Option.bind_some, hcommit]
      rfl
    exact ⟨_, _, sStep_respin hpc hpass (by simp), Or.inr ⟨3 * c.recvList.length, by omega, some q, c, rfl,
      hready'.congr rfl rfl, ⟨d, hcons⟩, fun p hp => (congrFun hsame p).trans (hdata p hp), rfl⟩⟩

/-! ## The master -/

/-- Where a call of the master's worker stands. A timer that was started in the call is not read as expired, so it is
not started again before the next pack. -/
structure MCall (c₀ : Lists) (m : Nat) (os : List (Event LlcStateM)) (pk : Option Pack) (c : Lists)
    (l : Loop LlcStateM) : Prop where
  pc : l.pc = .llc pk
  ready : WorkerReady l.tsm c
  consumed : ∃ d, Consumed c₀ d c
  measure :
    match l.llcState with
    | .idle => m = 3 * c.recvList.length + 2
    | .receivedAll => m = 3 * c.recvList.length + 3
    | .sendAll => m = 3 * c.recvList.length + (if entered .sendAll os = [] then 3 else 1) ∧ c.llcResendList ≠ []
    | .resend => m = 3 * c.recvList.length + 2 ∧ c.llcResendList ≠ []

/-- A call of the master's worker is over. -/
structure MDone (c₀ c : Lists) (l : Loop LlcStateM) : Prop where
  respun : Respun c₀ l .sendAll c
  empty : c.recvList = []
  resend : c.llcResendList ≠ []

/-- A pass of the master that finds a pack. -/
theorem mPass_consume (h : WorkerReady t c) (hc : c.recvList = p :: ps) (pk : Option Pack) (now : Timeval) :
    ∃ t' c', stkMLlcPass t .sendAll pk now = some (t', .receivedAll, some p) ∧ WorkerReady t' c' ∧
      Consumed c [p] c' := by
  have hhas := h.hasReceivedPack
  rw [hc] at hhas
  have hfirst := stkLlcGetFirstReceived_eq (h.first_received hc)
  let t₁ := prAssert t (stkGetPackType (t.data p) = .typeSingle) .mType
  let t₂ := prAssert t₁ (stkGetTransId (t.data p) = t₁.transId) .mTransId
  have hcheck : WorkerReady { t₂ with testTransId := stkGetTransId (t.data p) } c :=
    ((h.check _ _).check _ _).congr rfl rfl
  obtain ⟨t', c', hmark, -, hready, hcons, -⟩ := hcheck.consume hc
  refine ⟨t', c', ?_, hready, hcons⟩
  simp only [stkMLlcPass, hhas, List.isEmpty_cons, Bool.not_false, if_true, hfirst, Option.bind_eq_bind,
    Option.bind_some]
  rw [hmark]
  rfl

/-- A pass of the master from idle. -/
theorem mPass_issue (h : WorkerReady t c) (pk : Option Pack) (now : Timeval) :
    ∃ t' p c', stkMLlcPass t .idle pk now = some (t', .sendAll, some p) ∧ WorkerReady t' c' ∧
      c'.recvList = c.recvList ∧ c'.recvListPool = c.recvListPool ∧ c'.llcResendList ≠ [] := by
  obtain ⟨t₁, c₁, hclear, -, hready₁, hrecv₁, hpool₁, hspare⟩ := h.clear
  have hready₂ : WorkerReady (stkMPrepTransId { t₁ with retriesNum := 0 }) c₁ := hready₁.congr rfl rfl
  obtain ⟨p, t₂, t₃, t₄, c', hget, hcommit, hadd, -, hready, hrecv, hpool, hresend⟩ := hready₂.issue hspare
  refine ⟨{ t₄ with llcTimer := ttTimerStart now llcTimeoutMs }, p, c', ?_, hready.congr rfl rfl, hrecv.trans hrecv₁,
    hpool.trans hpool₁, hresend⟩
  simp only [stkMLlcPass, stkMHasPackToSend, if_true, hclear, hget, hcommit, hadd, Option.bind_eq_bind,
    Option.bind_some]
  rfl

/-- The events of a pass that enters `SEND_ALL`: from there on the timer was started in the call. -/
theorem entered_sendAll (os : List (Event LlcStateM)) (transId : Byte) :
    entered .sendAll (os ++ [.enter .sendAll transId]) ≠ [] := by
  simp [entered_enter]

/-- **A pass of the master** ends the call or lowers the measure. -/
theorem MCall.step {l : Loop LlcStateM} {os : List (Event LlcStateM)} (h : MCall c₀ m os pk c l)
    (hfresh : entered .sendAll os ≠ [] → l.llcState = .sendAll → stkLlcHasReceivedPack l.tsm = false →
      ttTimerIsTimeouted l.tsm.llcTimer now = false) :
    ∃ l' o, mStep l (.pass now) = some (l', o) ∧
      ((∃ c', MDone c₀ c' l') ∨ ∃ m' < m, ∃ pk' c', MCall c₀ m' (os ++ o) pk' c' l') := by
  obtain ⟨tsm, macState, st, pc⟩ := l
  obtain ⟨hpc, hready, ⟨d, hcons⟩, hmeasure⟩ := h
  dsimp only at hpc hready hmeasure hfresh
  cases st with
  | idle =>
    obtain ⟨t', p, c', hpass, hready', hrecv, hpool, hresend⟩ := mPass_issue hready pk now
    refine ⟨_, _, mStep_respin hpc hpass (by simp), Or.inr ⟨3 * c'.recvList.length + 1, ?_, some p, c', rfl, hready',
      ⟨d, ?_, ?_⟩, ?_, hresend⟩⟩
    · rw [hrecv]
      omega
    · rw [hrecv]
      exact hcons.queue
    · rw [hpool]
      exact hcons.pool
    · rw [if_neg (entered_sendAll os _)]
  | receivedAll =>
    exact ⟨_, _, mStep_respin hpc rfl (by simp), Or.inr ⟨3 * c.recvList.length + 2, by omega, pk, c, rfl,
      hready.check _ _, ⟨d, hcons⟩, rfl⟩⟩
  | sendAll =>
    obtain ⟨hm, hresend⟩ := hmeasure
    cases hc : c.recvList with
    | nil =>
      have hhas : stkLlcHasReceivedPack tsm = false := by
        rw [hready.hasReceivedPack, hc]
        rfl
      by_cases hexp : ttTimerIsTimeouted tsm.llcTimer now = true
      · -- the timer is from an earlier call
        have hstale : entered .sendAll os = [] := by
          by_contra hne
          rw [hfresh hne rfl hhas] at hexp
          cases hexp
        have hpass : stkMLlcPass tsm .sendAll pk now = some (tsm, .resend, pk) := by
          simp [stkMLlcPass, hhas, hexp]
        rw [if_pos hstale] at hm
        exact ⟨_, _, mStep_respin hpc hpass (by simp), Or.inr ⟨3 * c.recvList.length + 2, by omega, pk, c, rfl, hready,
          ⟨d, hcons⟩, rfl, hresend⟩⟩
      · have hpass : stkMLlcPass tsm .sendAll pk now = some (tsm, .sendAll, pk) := by
          simp [stkMLlcPass, hhas, hexp]
        exact ⟨_, _, mStep_return hpc hpass, Or.inl ⟨c, ⟨rfl, rfl, ⟨d, hcons⟩, hready.congr rfl rfl⟩, hc, hresend⟩⟩
    | cons p ps =>
      obtain ⟨t', c', hpass, hready', hcons'⟩ := mPass_consume hready hc pk now
      have hps : c.recvList.length = c'.recvList.length + 1 := by
        rw [hcons'.queue, List.length_append, List.length_singleton, Nat.add_comm]
      exact ⟨_, _, mStep_respin hpc hpass (by simp), Or.inr ⟨3 * c'.recvList.length + 3, by split_ifs at hm <;> omega,
        some p, c', rfl, hready', ⟨_, hcons.trans hcons'⟩, rfl⟩⟩
  | resend =>
    obtain ⟨rfl, hresend⟩ := hmeasure
    obtain ⟨q, t', hpick, hcommit, -, hready'⟩ := hready.resend .mResendEmpty pk (Or.inl hresend)
    have hpass : stkMLlcPass tsm .resend pk now = some ({ t' with
        llcTimer := ttTimerStart now llcTimeoutMs, retriesNum := t'.retriesNum + 1 }, .sendAll, some q) := by
      simp only [stkMLlcPass, hpick, Option.bind_eq_bind, Option.bind_some, hcommit]
      rfl
    refine ⟨_, _, mStep_respin hpc hpass (by simp), Or.inr ⟨3 * c.recvList.length + 1, by omega, some q, c, rfl,
      hready'.congr rfl rfl, ⟨d, hcons⟩, ?_, hresend⟩⟩
    rw [if_neg (entered_sendAll os _)]

/-! ## Calls -/

/-- In the call from `l`, a timer that was started in it is not read as expired. -/
def TimerFresh (clock : Nat → Timeval) (l : Loop LlcStateM) : Prop :=
  ∀ n l₁ os, run mStep l (passes clock n) = some (l₁, os) → entered .sendAll os ≠ [] → (∃ pk, l₁.pc = .llc pk) →
    l₁.llcState = .sendAll → stkLlcHasReceivedPack l₁.tsm = false → ttTimerIsTimeouted l₁.tsm.llcTimer (clock n) = false

theorem sCall_ends {l : Loop LlcStateS} (clock : Nat → Timeval) (hst : l.llcState = .idle) (hpc : l.pc = .llc none)
    (hready : WorkerReady l.tsm c) :
    ∃ n l' os c', n ≤ 3 * c.recvList.length + 1 ∧ run sStep l (passes clock n) = some (l', os) ∧
      SDone l.tsm.data c c' l' := by
  have hstart : SCall l.tsm.data c (3 * c.recvList.length) none c l :=
    ⟨hpc, hready, ⟨[], rfl, (List.append_nil _).symm⟩, fun _ _ => rfl, by rw [hst]⟩
  obtain ⟨n, l', os, hn, hr, c', hdone⟩ := run_reaches sStep (fun k => .pass (clock k))
    (fun m _ l₁ => ∃ pk c₁, SCall l.tsm.data c m pk c₁ l₁) (fun _ l₁ => ∃ c', SDone l.tsm.data c c' l₁)
    ⟨none, c, hstart⟩ (fun m n os l₁ _ ⟨pk, c₁, h⟩ => h.step (clock n))
  exact ⟨n, l', os, c', hn, hr, hdone⟩

theorem mCall_ends {l : Loop LlcStateM} (clock : Nat → Timeval)
    (hst : l.llcState = .idle ∨ l.llcState = .sendAll ∧ c.llcResendList ≠ []) (hpc : l.pc = .llc none)
    (hready : WorkerReady l.tsm c) (hfresh : TimerFresh clock l) :
    ∃ n l' os c', n ≤ 3 * c.recvList.length + 4 ∧ run mStep l (passes clock n) = some (l', os) ∧ MDone c c' l' := by
  have hstart : ∃ m ≤ 3 * c.recvList.length + 3, MCall c m [] none c l := by
    rcases hst with hst | ⟨hst, hresend⟩
    · exact ⟨3 * c.recvList.length + 2, by omega, hpc, hready, ⟨[], rfl, (List.append_nil _).symm⟩, by rw [hst]⟩
    · refine ⟨3 * c.recvList.length + 3, Nat.le_refl _, hpc, hready, ⟨[], rfl, (List.append_nil _).symm⟩, ?_⟩
      rw [hst]
      exact ⟨rfl, hresend⟩
  obtain ⟨m, hm, hstart⟩ := hstart
  obtain ⟨n, l', os, hn, hr, c', hdone⟩ := run_reaches mStep (fun k => .pass (clock k))
    (fun m os l₁ => ∃ pk c₁, MCall c m os pk c₁ l₁) (fun _ l₁ => ∃ c', MDone c c' l₁) ⟨none, c, hstart⟩
    (fun m n os l₁ hr ⟨pk, c₁, h⟩ => h.step fun hne => hfresh n l₁ os hr hne ⟨pk, h.pc⟩)
  exact ⟨n, l', os, c', by omega, hr, hdone⟩

/-! ## The timer in a call -/

@[simp] theorem prAssert_llcTimer (t : Tsm) (b : Bool) (x : Assert) : (prAssert t b x).llcTimer = t.llcTimer := by
  cases b <;> rfl

theorem stkLlcGetFirstReceived_timer (h : stkLlcGetFirstReceived t = some (t', p)) : t'.llcTimer = t.llcTimer := by
  simp only [stkLlcGetFirstReceived, Option.bind_eq_bind, Option.bind_eq_some_iff, Option.pure_def, Option.some.injEq,
    Prod.mk.injEq] at h
  obtain ⟨_, -, rfl, -⟩ := h
  exact prAssert_llcTimer ..

theorem stkLlcMarkAsReceived_timer (h : stkLlcMarkAsReceived t = some t') : t'.llcTimer = t.llcTimer := by
  simp only [stkLlcMarkAsReceived, stkPutRecvPackholder, Option.bind_eq_bind, Option.bind_eq_some_iff, Option.pure_def,
    Option.some.injEq, Prod.exists] at h
  obtain ⟨t₁, p, hfirst, mac, -, owner, -, rfl⟩ := h
  exact (stkLlcGetFirstReceived_timer hfirst).trans (prAssert_llcTimer ..)

/-- A pass starts the timer just when it enters `SEND_ALL`, and else leaves it alone. -/
theorem mStep_timer {l l' : Loop LlcStateM} {o : List (Event LlcStateM)} (hs : mStep l (.pass now) = some (l', o)) :
    entered .sendAll o ≠ [] ∧ l'.tsm.llcTimer = ttTimerStart now llcTimeoutMs ∨
      entered .sendAll o = [] ∧ l'.tsm.llcTimer = l.tsm.llcTimer := by
  obtain ⟨tsm, macState, st, pc⟩ := l
  cases pc with
  | llc pk =>
    simp only [mStep, Option.map_eq_some_iff] at hs
    obtain ⟨⟨t', st', pk'⟩, hpass, hdone⟩ := hs
    cases st with
    | idle =>
      simp only [stkMLlcPass, stkMHasPackToSend, if_true, Option.bind_eq_bind, Option.bind_eq_some_iff, Option.pure_def,
        Option.some.injEq, Prod.exists] at hpass
      obtain ⟨t₁, -, t₂, p, -, t₃, -, t₄, -, hlast⟩ := hpass
      cases hlast
      cases hdone
      exact Or.inl ⟨by simp [entered_enter], rfl⟩
    | receivedAll =>
      cases hpass
      cases hdone
      exact Or.inr ⟨by simp [entered_enter], prAssert_llcTimer ..⟩
    | sendAll =>
      simp only [stkMLlcPass] at hpass
      split_ifs at hpass with hhas hexp
      · simp only [Option.bind_eq_bind, Option.bind_eq_some_iff, Option.pure_def, Option.some.injEq,
          Prod.exists] at hpass
        obtain ⟨t₁, p, hfirst, t₂, hmark, hlast⟩ := hpass
        cases hlast
        cases hdone
        refine Or.inr ⟨by simp [entered_enter], (stkLlcMarkAsReceived_timer hmark).trans ?_⟩
        simp [stkLlcGetFirstReceived_timer hfirst]
      · cases hpass
        cases hdone
        exact Or.inr ⟨by simp [entered_enter], rfl⟩
      · cases hpass
        cases hdone
        exact Or.inr ⟨rfl, rfl⟩
    | resend =>
      simp only [stkMLlcPass, Option.bind_eq_bind, Option.bind_eq_some_iff, Option.pure_def, Option.some.injEq] at hpass
      obtain ⟨p, -, t₁, -, hlast⟩ := hpass
      cases hlast
      cases hdone
      exact Or.inl ⟨by simp [entered_enter], rfl⟩
  | _ =>
    simp only [mStep] at hs
    cases hs

/-- A timer started in the call was started at one of its passes. -/
theorem mRun_timer {l : Loop LlcStateM} (clock : Nat → Timeval) :
    ∀ {n : Nat} {l₁ : Loop LlcStateM} {os : List (Event LlcStateM)}, run mStep l (passes clock n) = some (l₁, os) →
      entered .sendAll os ≠ [] → ∃ k < n, l₁.tsm.llcTimer = ttTimerStart (clock k) llcTimeoutMs
  | 0, l₁, os, hr, hne => by
    cases hr
    exact absurd rfl hne
  | n + 1, l₁, os, hr, hne => by
    rw [passes, firsts_succ] at hr
    obtain ⟨l₂, os₂, o, hr₂, hs, rfl⟩ := run_snoc.mp hr
    rcases mStep_timer hs with ⟨-, htimer⟩ | ⟨hnone, htimer⟩
    · exact ⟨n, Nat.lt_succ_self n, htimer⟩
    · rw [entered_append, hnone, List.append_nil] at hne
      obtain ⟨k, hk, hstart⟩ := mRun_timer clock hr₂ hne
      exact ⟨k, Nat.lt_succ_of_lt hk, htimer.trans hstart⟩

/-- A call that takes less than the timeout reads no timer of its own as expired. -/
theorem TimerFresh.of_clock {clock : Nat → Timeval} (hnormal : ∀ k, (clock k).Normal)
    (hclock : ∀ k n, (clock n).micros < (clock k).micros + 300000) (l : Loop LlcStateM) : TimerFresh clock l := by
  intro n l₁ os hr hne _ _ _
  obtain ⟨k, -, hstart⟩ := mRun_timer clock hr hne
  rw [hstart, Bool.eq_false_iff, ne_eq, ttTimerIsTimeouted_iff (hnormal k) (hnormal n), Int.not_le]
  exact hclock k n

/-! ## The states of the loops -/

theorem Rel.ready {σ : Type} {l : Loop σ} {a : Station σ} (h : Rel c l a) : WorkerReady l.tsm c where
  owner := h.linked.owner
  queue := h.linked.mac.apart (by decide)
  received _ hp := h.recv_owned hp
  spare hnil := by
    have hlen := h.sendPerm.length_eq
    rw [hnil] at hlen
    cases hlen

/-- Every call of the slave's worker in a run of its loop finds what it needs. -/
theorem sRun_ready {l₀ l : Loop LlcStateS} {is : List Input} {os : List (Event LlcStateS)} (h₀ : sStart t = some l₀)
    (hr : run sStep l₀ is = some (l, os)) : ∃ c, WorkerReady l.tsm c := by
  obtain ⟨a, -, hrel⟩ := sRun_station h₀ hr
  obtain ⟨c, hc⟩ := hrel.rel
  exact ⟨c, hc.ready⟩

/-- So does every call of the master's, also once the send queue is jammed. -/
theorem mRun_ready {l₀ l : Loop LlcStateM} {is : List Input} {os : List (Event LlcStateM)} (h₀ : mStart t = some l₀)
    (hr : run mStep l₀ is = some (l, os)) : ∃ c, WorkerReady l.tsm c := by
  rcases mRun_cases h₀ hr with ⟨-, a, hrel⟩ | ⟨-, ⟨p, hjam⟩, l₁, a, hrel, hstill⟩
  · obtain ⟨c, hc⟩ := hrel.rel
    exact ⟨c, hc.ready⟩
  · obtain ⟨c, hc⟩ := hrel.rel
    refine ⟨{ c with recvList := [] }, ?_, ⟨⟨hjam.recvNext, hjam.recvPrev⟩, List.nodup_nil, _, hjam.headPrev, by simp⟩,
      fun q hq => absurd hq List.not_mem_nil, hc.ready.spare⟩
    rw [hstill.owner]
    exact hc.linked.owner

/-! ## Two packets waiting -/

/-- What a MAC that delivers chains would do with a packet. -/
theorem Linked.deliver (h : Linked t c) (hc : c.recvListPool = p :: ps) (hs : p ∉ c.sendList) (hr : p ∉ c.recvList)
    (d : PackData) :
    ∃ t₁ t', stkGetRecvPackholder t = some (t₁, p) ∧ stkMacPackCommit (t₁.setData p d) p = some t' ∧
      t'.data = Function.update t.data p d ∧ Linked t' { c with
        recvListPool := ps, llcRecvOwned := c.llcRecvOwned ++ [p], recvList := c.recvList ++ [p] } := by
  obtain ⟨owner, hget, hf⟩ := stkGetRecvPackholder_spec h hc
  let t₁ : Tsm := { t with owner := owner, llcRecvOwnedCounter := t.llcRecvOwnedCounter + 1 }
  obtain ⟨mac, hcommit, hm⟩ := stkMacPackCommit_spec (t := t₁.setData p d)
    (c := { c with recvListPool := ps, llcRecvOwned := c.llcRecvOwned ++ [p] }) ⟨h.mac, hf⟩ hs hr
  refine ⟨t₁, _, hget, hcommit, prAssert_data .., hm, ?_⟩
  have howner := prAssert_owner (t₁.setData p d) c.recvList.isEmpty .macPackCommit
  exact howner ▸ hf

/-- A transmitter just initialised, with two packets waiting. -/
def twoWaiting : Option Tsm := do
  let tsm ← stkCTsmInit Tsm.zeroed
  let (tsm, pack) ← stkGetRecvPackholder tsm
  let tsm ← stkMacPackCommit (tsm.setData pack (singleFrame 1)) pack
  let (tsm, pack) ← stkGetRecvPackholder tsm
  stkMacPackCommit (tsm.setData pack (singleFrame 2)) pack

theorem twoWaiting_ready : ∃ t c, twoWaiting = some t ∧ WorkerReady t c ∧ c.recvList = [.recvBuff 0, .recvBuff 1] ∧
    ∀ p ∈ c.recvList, stkGetPackType (t.data p) = .typeSingle := by
  obtain ⟨t₀, hinit, h₀⟩ : ∃ t₀, stkCTsmInit Tsm.zeroed = some t₀ ∧ Linked t₀ Lists.start := by
    obtain ⟨mac, owner, hinit, hm, ho⟩ := stkCTsmInit_spec Tsm.zeroed
    exact ⟨_, hinit, hm, ho⟩
  obtain ⟨t₁, t₂, hget₁, hcommit₁, hdata₁, h₁⟩ := h₀.deliver (p := .recvBuff 0) rfl List.not_mem_nil List.not_mem_nil
    (singleFrame 1)
  obtain ⟨t₃, t₄, hget₂, hcommit₂, hdata₂, h₂⟩ := h₁.deliver (p := .recvBuff 1) rfl List.not_mem_nil (by decide)
    (singleFrame 2)
  have hwaiting : twoWaiting = some t₄ := by
    simp only [twoWaiting, hinit, hget₁, hcommit₁, hget₂, hcommit₂, Option.bind_eq_bind, Option.bind_some]
  refine ⟨t₄, _, hwaiting, ⟨h₂.owner, h₂.mac.apart (by decide), fun p hp => hp, nofun⟩, rfl, fun p hp => ?_⟩
  rw [hdata₂, hdata₁]
  simp only [Lists.start, List.nil_append, List.cons_append, List.mem_cons, List.not_mem_nil, or_false] at hp
  rcases hp with rfl | rfl
  · rw [Function.update_of_ne (by decide), Function.update_self]
    exact stkGetPackType_singleFrame 1
  · rw [Function.update_self]
    exact stkGetPackType_singleFrame 2

/-- **The respin loops end.** With any receive queue a call of the slave's worker from idle returns in idle, with what
it consumed back in the pool and nothing left if all packs were single or there was one at most; one of the master's,
from idle or waiting with a pack to send again, returns waiting with nothing left, unless its own timer runs out in the
call. -/
theorem respins_end (c : Lists) (clock : Nat → Timeval) :
    (∀ l : Loop LlcStateS, l.pc = .llc none → l.llcState = .idle → WorkerReady l.tsm c →
        ∃ n l' os c', n ≤ 3 * c.recvList.length + 1 ∧ run sStep l (passes clock n) = some (l', os) ∧
          Respun c l' .idle c' ∧
          ((∀ p ∈ c.recvList, stkGetPackType (l.tsm.data p) = .typeSingle) ∨ c.recvList.length ≤ 1 →
            c'.recvList = [])) ∧
    ∀ l : Loop LlcStateM, l.pc = .llc none → l.llcState = .idle ∨ l.llcState = .sendAll ∧ c.llcResendList ≠ [] →
      WorkerReady l.tsm c → TimerFresh clock l →
        ∃ n l' os c', n ≤ 3 * c.recvList.length + 4 ∧ run mStep l (passes clock n) = some (l', os) ∧
          Respun c l' .sendAll c' ∧ c'.recvList = [] ∧ c'.llcResendList ≠ [] := by
  constructor
  · intro l hpc hst hready
    obtain ⟨n, l', os, c', hn, hr, hdone⟩ := sCall_ends clock hst hpc hready
    exact ⟨n, l', os, c', hn, hr, hdone.respun, hdone.empty⟩
  · intro l hpc hst hready hfresh
    obtain ⟨n, l', os, c', hn, hr, hdone⟩ := mCall_ends clock hst hpc hready hfresh
    exact ⟨n, l', os, c', hn, hr, hdone.respun, hdone.empty, hdone.resend⟩

/-- Both workers consume them. -/
theorem respins_end_two : ∃ t, twoWaiting = some t ∧
    (∃ n l' os c', n ≤ 7 ∧
      run sStep ⟨t, .macReceivingCont, .idle, .llc none⟩ (passes (fun _ => ⟨0, 0⟩) n) = some (l', os) ∧
      l'.pc = .mac ∧ l'.llcState = .idle ∧ WorkerReady l'.tsm c' ∧ c'.recvList = []) ∧
    ∃ n l' os c', n ≤ 10 ∧
      run mStep ⟨t, .macReceivingCont, .idle, .llc none⟩ (passes (fun _ => ⟨0, 0⟩) n) = some (l', os) ∧
      l'.pc = .mac ∧ l'.llcState = .sendAll ∧ WorkerReady l'.tsm c' ∧ c'.recvList = [] := by
  obtain ⟨t, c, hwaiting, hready, hrecv, hsingle⟩ := twoWaiting_ready
  have hlen : c.recvList.length = 2 := by rw [hrecv]; rfl
  refine ⟨t, hwaiting, ?_, ?_⟩
  · obtain ⟨n, l', os, c', hn, hr, hrespun, hempty⟩ := (respins_end c fun _ => ⟨0, 0⟩).1
      ⟨t, .macReceivingCont, .idle, .llc none⟩ rfl rfl hready
    exact ⟨n, l', os, c', by omega, hr, hrespun.pc, hrespun.llcState, hrespun.ready, hempty (Or.inl hsingle)⟩
  · have hfresh : TimerFresh (fun _ => ⟨0, 0⟩) ⟨t, .macReceivingCont, .idle, .llc none⟩ :=
      TimerFresh.of_clock (fun _ => by decide) (fun _ _ => by decide) _
    obtain ⟨n, l', os, c', hn, hr, hrespun, hempty, -⟩ := (respins_end c fun _ => ⟨0, 0⟩).2 _ rfl (Or.inl rfl)
      hready hfresh
    exact ⟨n, l', os, c', by omega, hr, hrespun.pc, hrespun.llcState, hrespun.ready, hempty⟩

end LoraBridge
