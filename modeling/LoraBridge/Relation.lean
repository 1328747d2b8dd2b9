import LoraBridge.Linked
import LoraBridge.Station

/-!
# The packets behind the lists

`Rel c l a`: the links of the loop `l` hold the lists `c`, every pack is on one owner list of its own side, the counters
count, and behind the lists stand the packets of the station `a`. Each operation of the transmitter that a worker makes
is an operation on the packets: clearing the resend list, consuming, queueing, preparing.
-/

set_option autoImplicit false

namespace LoraBridge

open ListHead

def Pc.place : Pc → Place
  | .llc _ => .llc
  | .mac => .mac
  | .sending => .sending
  | .receiving _ => .receiving

/-- The pack a receive is filling. -/
def Pc.holder : Pc → List Pack
  | .receiving p => [p]
  | _ => []

/-- The packet in a pack, sealed. -/
def Tsm.sealed (t : Tsm) (p : Pack) : PackData := stkSetPackChecksumm (t.data p)

structure Rel {σ : Type} (c : Lists) (l : Loop σ) (a : Station σ) : Prop where
  linked : Linked l.tsm c
  /-- every send pack is on one of the three send lists, once; likewise the receive packs -/
  sendPerm : (c.sendListPool ++ c.llcResendList).Perm sendPacks
  recvPerm : (c.recvListPool ++ c.llcRecvOwned).Perm recvPacks
  sendOwned : c.llcSendOwned = []
  recvOwned : c.llcRecvOwned = c.recvList ++ l.pc.holder
  sendCounter : l.tsm.llcSendOwnedCounter = BitVec.ofNat 8 c.llcResendList.length
  recvCounter : l.tsm.llcRecvOwnedCounter = BitVec.ofNat 8 c.llcRecvOwned.length
  /-- a queued pack is the one to send again, or for an echo a free receive pack -/
  sendFrom : ∀ p ∈ c.sendList, if a.echo then p ∈ c.recvListPool else p ∈ c.llcResendList
  id : l.tsm.id = a.id
  macRecvTimeout : l.tsm.macRecvTimeout = a.macRecvTimeout
  place : l.pc.place = a.place
  st : l.llcState = a.st
  transId : l.tsm.transId = a.transId
  testTransId : l.tsm.testTransId = a.testTransId
  retriesNum : l.tsm.retriesNum = a.retriesNum
  llcTimer : l.tsm.llcTimer = a.llcTimer
  stderr : l.tsm.stderr = a.stderr
  /-- so far every queue was written as it should be -/
  calls : ∀ x ∈ l.tsm.queueCalls, QueueCall.Proper x
  recv : c.recvList.map l.tsm.data = a.recv.toList
  resend : c.llcResendList.map l.tsm.sealed = a.resend.toList
  send : c.sendList.map l.tsm.sealed = a.send.toList
  last : ∀ d, a.last = some d → ∃ p, l.pc = .llc (some p) ∧ p ∈ c.recvListPool ∧ p ∉ c.sendList ∧ l.tsm.data p = d

variable {σ : Type} {c : Lists} {l : Loop σ} {a : Station σ}

/-! ## What the relation says about packs -/

theorem Rel.mem_sendPacks (h : Rel c l a) {p : Pack} (hp : p ∈ c.sendListPool ∨ p ∈ c.llcResendList) :
    ∃ i, p = .sendBuff i := by
  have hm := h.sendPerm.subset (List.mem_append.mpr hp)
  simp only [sendPacks, List.mem_map, List.mem_finRange, true_and] at hm
  obtain ⟨i, rfl⟩ := hm
  exact ⟨i, rfl⟩

theorem Rel.mem_recvPacks (h : Rel c l a) {p : Pack} (hp : p ∈ c.recvListPool ∨ p ∈ c.llcRecvOwned) :
    ∃ i, p = .recvBuff i := by
  have hm := h.recvPerm.subset (List.mem_append.mpr hp)
  simp only [recvPacks, List.mem_map, List.mem_finRange, true_and] at hm
  obtain ⟨i, rfl⟩ := hm
  exact ⟨i, rfl⟩

theorem Rel.resend_length (h : Rel c l a) : c.llcResendList.length ≤ 1 := by
  have hl := congrArg List.length h.resend
  rw [List.length_map] at hl
  rw [hl]
  cases a.resend <;> simp

/-- The send pool is not empty. -/
theorem Rel.sendListPool_cons (h : Rel c l a) : ∃ p l', c.sendListPool = p :: l' := by
  have hl := h.sendPerm.length_eq
  have hr := h.resend_length
  simp only [List.length_append, sendPacks, List.length_map, List.length_finRange] at hl
  cases hc : c.sendListPool with
  | nil => rw [hc] at hl; simp at hl; omega
  | cons p l' => exact ⟨p, l', rfl⟩

/-- The receive pool is not empty. -/
theorem Rel.recvListPool_cons (h : Rel c l a) (hp : a.place ≠ .receiving) : ∃ p l', c.recvListPool = p :: l' := by
  have hl := h.recvPerm.length_eq
  have ho := congrArg List.length h.recvOwned
  have hr := congrArg List.length h.recv
  have hh : l.pc.holder = [] := by
    have hpl := h.place
    cases hpc : l.pc <;> simp_all [Pc.place, Pc.holder]
  rw [hh] at ho
  simp only [List.length_append, List.length_map, List.length_nil, recvPacks, List.length_finRange] at hl ho hr
  have hle : a.recv.toList.length ≤ 1 := by cases a.recv <;> simp
  cases hc : c.recvListPool with
  | nil => rw [hc] at hl; simp at hl; omega
  | cons p l' => exact ⟨p, l', rfl⟩

/-- A pack on no list of the station's, or the only one. -/
theorem map_toList_none {f : Pack → PackData} {ps : List Pack} {o : Option PackData} (h : ps.map f = o.toList)
    (ho : o = none) : ps = [] := by
  subst ho
  exact List.map_eq_nil_iff.mp h

theorem map_toList_some {f : Pack → PackData} {ps : List Pack} {o : Option PackData} {d : PackData}
    (h : ps.map f = o.toList) (ho : o = some d) : ∃ p, ps = [p] ∧ f p = d := by
  subst ho
  exact List.map_eq_singleton_iff.mp h

theorem Rel.holder_nil (h : Rel c l a) (hp : a.place ≠ .receiving) : l.pc.holder = [] := by
  have hpl := h.place
  cases hpc : l.pc with
  | receiving p => rw [hpc] at hpl; exact absurd hpl.symm hp
  | _ => rfl

theorem Rel.recv_owned (h : Rel c l a) {p : Pack} (hp : p ∈ c.recvList) : p ∈ c.llcRecvOwned := by
  rw [h.recvOwned]
  exact List.mem_append_left _ hp

theorem Rel.owner_disjoint (h : Rel c l a) (k k' : OwnerHead) (hne : k ≠ k') {p : Pack} (hp : p ∈ c.owner k) :
    p ∉ c.owner k' := fun hm => hne (h.linked.owner.unique hp hm)

/-- A queued pack is neither in the send pool nor held for the receiver. -/
theorem Rel.sendList_fresh (h : Rel c l a) {p : Pack} (hp : p ∈ c.sendList) :
    p ∉ c.sendListPool ∧ p ∉ c.llcRecvOwned := by
  have hfrom := h.sendFrom p hp
  split_ifs at hfrom with hecho
  · exact ⟨h.owner_disjoint .recvListPool .sendListPool (by decide) hfrom,
      h.owner_disjoint .recvListPool .llcRecvOwned (by decide) hfrom⟩
  · exact ⟨h.owner_disjoint .llcResendList .sendListPool (by decide) hfrom,
      h.owner_disjoint .llcResendList .llcRecvOwned (by decide) hfrom⟩

/-- Packs added to the receive pool change nothing for the queue. -/
theorem Rel.sendFrom_mono (h : Rel c l a) {ps : List Pack} (p : Pack) (hp : p ∈ c.sendList) :
    if a.echo then p ∈ c.recvListPool ++ ps else p ∈ c.llcResendList := by
  have hfrom := h.sendFrom p hp
  split_ifs at hfrom ⊢
  · exact List.mem_append_left _ hfrom
  · exact hfrom

/-- One more proper call. -/
theorem Rel.logCall (h : Rel c l a) {x : QueueCall} (hx : QueueCall.Proper (x, l.tsm.mac)) :
    ∀ y ∈ (l.tsm.logCall x).queueCalls, QueueCall.Proper y := by
  intro y hy
  rcases List.mem_append.mp hy with hy | hy
  · exact h.calls y hy
  · rw [List.mem_singleton.mp hy]
    exact hx

/-! ## Scalars -/

theorem Rel.setTransId (h : Rel c l a) (x : Byte) :
    Rel c { l with tsm := { l.tsm with transId := x } } { a with transId := x } :=
  { h with linked := ⟨h.linked.mac, h.linked.owner⟩, transId := rfl }

theorem Rel.setTestTransId (h : Rel c l a) (x : Byte) :
    Rel c { l with tsm := { l.tsm with testTransId := x } } { a with testTransId := x } :=
  { h with linked := ⟨h.linked.mac, h.linked.owner⟩, testTransId := rfl }

theorem Rel.setRetriesNum (h : Rel c l a) (x : Byte) :
    Rel c { l with tsm := { l.tsm with retriesNum := x } } { a with retriesNum := x } :=
  { h with linked := ⟨h.linked.mac, h.linked.owner⟩, retriesNum := rfl }

theorem Rel.retry (h : Rel c l a) :
    Rel c { l with tsm := { l.tsm with retriesNum := l.tsm.retriesNum + 1 } }
      { a with retriesNum := a.retriesNum + 1 } := by
  rw [h.retriesNum]
  exact h.setRetriesNum _

theorem Rel.setTimer (h : Rel c l a) (x : TtTimer) :
    Rel c { l with tsm := { l.tsm with llcTimer := x } } { a with llcTimer := x } :=
  { h with linked := ⟨h.linked.mac, h.linked.owner⟩, llcTimer := rfl }

theorem Rel.setSt (h : Rel c l a) (st : σ) : Rel c { l with llcState := st } { a with st := st } :=
  { h with linked := ⟨h.linked.mac, h.linked.owner⟩, st := rfl }

theorem Rel.check (h : Rel c l a) (b : Bool) (x : Assert) :
    Rel c { l with tsm := prAssert l.tsm b x } (a.check b x) := by
  cases b with
  | true => exact h
  | false =>
    exact { h with
      linked := ⟨h.linked.mac, h.linked.owner⟩
      stderr := congrArg (· ++ [x]) h.stderr }

/-! ## Queue and pool operations -/

/-- Clearing the resend list, when nothing waits for the radio. -/
theorem Rel.clear (h : Rel c l a) (hsend : a.send = none) :
    ∃ t' c', stkLlcResendClearAll l.tsm = some t' ∧ t'.data = l.tsm.data ∧ c'.recvList = c.recvList ∧
      Rel c' { l with tsm := t' } { a with resend := none } := by
  have hempty := map_toList_none h.send hsend
  obtain ⟨owner, hclear, hf⟩ := stkLlcResendClearAll_spec h.linked.owner
  refine ⟨_, { c with llcResendList := [], sendListPool := c.sendListPool ++ c.llcResendList }, hclear, rfl, rfl, ?_⟩
  exact { h with
    linked := ⟨h.linked.mac, hf⟩
    sendPerm := by simpa using h.sendPerm
    sendCounter := by simp [h.sendCounter]
    sendFrom := fun p hp => by rw [hempty] at hp; cases hp
    resend := rfl }

/-- Consuming the received packet: its pack goes back to the pool, and the local variable still points at it. -/
theorem Rel.consume (h : Rel c l a) {p : Pack} (hp : c.recvList = [p]) {d : PackData} (hd : l.tsm.data p = d)
    {pk : Option Pack} (hpc : l.pc = .llc pk) :
    ∃ t' c', stkLlcMarkAsReceived l.tsm = some t' ∧
      Rel c' { l with tsm := t', pc := .llc (some p) } { a with recv := none, last := some d } := by
  have hown : c.llcRecvOwned = [p] := by rw [h.recvOwned, hp, hpc]; rfl
  obtain ⟨mac, owner, hmark, hfm, hfo⟩ := stkLlcMarkAsReceived_spec h.linked hp (by rw [hown]; simp)
  refine ⟨_, { c with recvList := [], llcRecvOwned := [], recvListPool := c.recvListPool ++ [p] }, hmark, ?_⟩
  have hperm := h.recvPerm
  rw [hown] at hperm
  rw [hown, List.erase_cons_head] at hfo
  have hfresh : p ∉ c.sendList := fun hm => (h.sendList_fresh hm).2 (by rw [hown]; simp)
  exact { h with
    linked := ⟨hfm, hfo⟩
    calls := h.logCall ⟨c.mac, .recvList, h.linked.mac, by simp [Lists.mac, hp]⟩
    recvPerm := by simpa using hperm
    recvOwned := rfl
    recvCounter := by simp [h.recvCounter, hown]
    sendFrom := fun q hq => h.sendFrom_mono q hq
    place := by rw [← h.place, hpc]; rfl
    recv := rfl
    last := fun d' hd' => ⟨p, rfl, by simp, hfresh, hd.trans (Option.some.inj hd')⟩ }

/-- Queueing a pack of the resend list, or a free receive pack. -/
theorem Rel.commit (h : Rel c l a) (hsend : a.send = none) {p : Pack} {echo : Bool}
    (hfrom : if echo then p ∈ c.recvListPool else p ∈ c.llcResendList) :
    ∃ t', stkLlcPackCommit l.tsm p = some t' ∧ Rel { c with sendList := [p] } { l with tsm := t' }
      { a with send := some (l.tsm.sealed p), last := none, echo := echo } := by
  have hempty := map_toList_none h.send hsend
  have hrecv : p ∉ c.recvList := by
    intro hm
    split_ifs at hfrom
    · exact h.owner_disjoint .recvListPool .llcRecvOwned (by decide) hfrom (h.recv_owned hm)
    · exact h.owner_disjoint .llcResendList .llcRecvOwned (by decide) hfrom (h.recv_owned hm)
  obtain ⟨mac, hcommit, hf⟩ := stkLlcPackCommit_spec h.linked (by rw [hempty]; simp) hrecv
  rw [hempty] at hcommit hf
  refine ⟨_, hcommit, ?_⟩
  exact { h with
    linked := ⟨hf, h.linked.owner⟩
    calls := h.logCall ⟨c.mac, h.linked.mac, hempty, fun k => by cases k <;> simp [Lists.mac, hempty, hrecv]⟩
    sendFrom := fun q hq => by rw [List.mem_singleton.mp hq]; exact hfrom
    send := rfl
    last := fun _ hd => by cases hd }

/-- Preparing a packet in a pack of the pool, queueing it and keeping it for a resend. -/
theorem Rel.issue (h : Rel c l a) (hsend : a.send = none) (hresend : a.resend = none) :
    ∃ p t₁ t₂ t₃ c', stkGetSendPackholder l.tsm = some (t₁, p) ∧
      stkLlcPackCommit (stkLlcSinglePrepare t₁ p payload 16) p = some t₂ ∧ stkLlcResendAdd t₂ p = some t₃ ∧
      Rel c' { l with tsm := t₃ }
        { a with
          resend := some (singleFrame a.transId), send := some (singleFrame a.transId), last := none
          echo := false } := by
  have hempty := map_toList_none h.send hsend
  have hnone := map_toList_none h.resend hresend
  obtain ⟨p, pool, hpool⟩ := h.sendListPool_cons
  have hp : p ∈ c.sendListPool := by rw [hpool]; simp
  have hrecv : p ∉ c.recvList := fun hm =>
    h.owner_disjoint .sendListPool .llcRecvOwned (by decide) hp (h.recv_owned hm)
  obtain ⟨owner₁, hget, hf₁⟩ := stkGetSendPackholder_spec h.linked.owner hpool
  obtain ⟨mac, hcommit, hf₂⟩ := stkLlcPackCommit_spec (p := p)
    (t := stkLlcSinglePrepare { l.tsm with
      owner := owner₁, llcSendOwnedCounter := l.tsm.llcSendOwnedCounter + 1 } p payload 16)
    (c := { c with sendListPool := pool, llcSendOwned := c.llcSendOwned ++ [p] })
    ⟨h.linked.mac, hf₁⟩ (by rw [hempty]; simp) hrecv
  rw [hempty] at hcommit hf₂
  rw [h.sendOwned] at hf₁
  obtain ⟨owner₂, hadd, hf₃⟩ := stkLlcResendAdd_spec (p := p)
    (t := { (prAssert (stkLlcSinglePrepare { l.tsm with
      owner := owner₁, llcSendOwnedCounter := l.tsm.llcSendOwnedCounter + 1 } p payload 16)
        ([] : List Pack).isEmpty .llcPackCommit).logCall (.commit .sendList p) with mac := mac })
    (c := { c with sendListPool := pool, llcSendOwned := [p], sendList := [p] }) hf₁ (by simp)
  rw [List.erase_cons_head, hnone, List.nil_append] at hf₃
  refine ⟨p, _, _, _, { c with sendListPool := pool, llcResendList := [p], sendList := [p] }, hget, hcommit, hadd, ?_⟩
  have hperm := h.sendPerm
  rw [hpool, hnone, List.append_nil] at hperm
  -- the bytes written go to no pack the station knows
  have hsealed : stkSetPackChecksumm (singlePrepareData l.tsm.transId (l.tsm.data p) payload 16) =
      singleFrame a.transId := by
    rw [h.transId]
    exact stkSet_prepare _ _ _ _ _
  have hwritten : stkSetPackChecksumm (Function.update l.tsm.data p
      (singlePrepareData l.tsm.transId (l.tsm.data p) payload 16) p) = singleFrame a.transId := by
    rw [Function.update_self, hsealed]
  exact { h with
    linked := ⟨hf₂, by rw [h.sendOwned]; exact hf₃⟩
    calls := h.logCall ⟨c.mac, h.linked.mac, hempty, fun k => by cases k <;> simp [Lists.mac, hempty, hrecv]⟩
    sendPerm := (List.perm_append_singleton p pool).trans hperm
    sendCounter := by
      have hc := h.sendCounter
      rw [hnone] at hc
      show l.tsm.llcSendOwnedCounter + 1 = _
      rw [hc]
      rfl
    sendFrom := fun q hq => hq
    recv := by
      rw [← h.recv]
      refine List.map_congr_left fun q hq => Function.update_of_ne ?_ _ _
      exact fun he => hrecv (he ▸ hq)
    resend := congrArg (fun x => [x]) hwritten
    send := congrArg (fun x => [x]) hwritten
    last := fun _ hd => by cases hd }

end LoraBridge
