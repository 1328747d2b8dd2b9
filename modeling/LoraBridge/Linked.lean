import LoraBridge.Transmitter

/-!
# The lists behind the links

`Lists` is the content of the seven lists of a transmitter, and `Linked t c` says that the links of `t` hold the lists
`c`. On linked lists every function of the transmitter has a result, and its effect is an operation on `c`: one lemma
each, and no proof above this module looks at a pointer.
-/

set_option autoImplicit false

namespace LoraBridge

open ListHead

structure Lists where
  sendList : List Pack
  recvList : List Pack
  sendListPool : List Pack
  recvListPool : List Pack
  llcSendOwned : List Pack
  llcRecvOwned : List Pack
  llcResendList : List Pack

def Lists.mac (c : Lists) : MacHead → List Pack
  | .sendList => c.sendList
  | .recvList => c.recvList

def Lists.owner (c : Lists) : OwnerHead → List Pack
  | .sendListPool => c.sendListPool
  | .recvListPool => c.recvListPool
  | .llcSendOwned => c.llcSendOwned
  | .llcRecvOwned => c.llcRecvOwned
  | .llcResendList => c.llcResendList

/-- The links of the transmitter hold the lists `c`. -/
structure Linked (t : Tsm) (c : Lists) : Prop where
  mac : Forest t.mac c.mac
  owner : Forest t.owner c.owner

/-- A commit found its queue empty and the pack on no queue; a `list_del` found the pack on a queue. -/
def QueueCall.Proper : QueueCall × MacLinks → Prop
  | (.commit k p, m) => ∃ c : MacHead → List Pack, Forest m c ∧ c k = [] ∧ ∀ k', p ∉ c k'
  | (.del p, m) => ∃ (c : MacHead → List Pack) (k : MacHead), Forest m c ∧ p ∈ c k

variable {t : Tsm} {c : Lists} {p : Pack} {l : List Pack}

/-! ## One list replaced -/

section Update

variable (c : Lists) (l : List Pack)

@[simp] theorem Lists.update_sendList :
    Function.update c.mac .sendList l = ({ c with sendList := l } : Lists).mac := by
  funext k
  cases k <;> rfl

@[simp] theorem Lists.update_recvList :
    Function.update c.mac .recvList l = ({ c with recvList := l } : Lists).mac := by
  funext k
  cases k <;> rfl

@[simp] theorem Lists.update_sendListPool :
    Function.update c.owner .sendListPool l = ({ c with sendListPool := l } : Lists).owner := by
  funext k
  cases k <;> rfl

@[simp] theorem Lists.update_recvListPool :
    Function.update c.owner .recvListPool l = ({ c with recvListPool := l } : Lists).owner := by
  funext k
  cases k <;> rfl

@[simp] theorem Lists.update_llcSendOwned :
    Function.update c.owner .llcSendOwned l = ({ c with llcSendOwned := l } : Lists).owner := by
  funext k
  cases k <;> rfl

@[simp] theorem Lists.update_llcRecvOwned :
    Function.update c.owner .llcRecvOwned l = ({ c with llcRecvOwned := l } : Lists).owner := by
  funext k
  cases k <;> rfl

@[simp] theorem Lists.update_llcResendList :
    Function.update c.owner .llcResendList l = ({ c with llcResendList := l } : Lists).owner := by
  funext k
  cases k <;> rfl

end Update

def sendPacks : List Pack := (List.finRange 10).map .sendBuff
def recvPacks : List Pack := (List.finRange 10).map .recvBuff

/-- A list without repetition is no longer than the two pools. -/
theorem pack_nodup_length (hl : l.Nodup) : l.length ≤ 2 * stkPacketPoolSize := by
  have hall : l ⊆ sendPacks ++ recvPacks := by
    rintro (i | i) - <;> simp [sendPacks, recvPacks]
  exact (List.subperm_of_subset hl hall).length_le

/-! ## Assertions -/

@[simp] theorem prAssert_true (t : Tsm) (a : Assert) : prAssert t true a = t := rfl

@[simp] theorem prAssert_mac (t : Tsm) (b : Bool) (a : Assert) : (prAssert t b a).mac = t.mac := by
  cases b <;> rfl

@[simp] theorem prAssert_owner (t : Tsm) (b : Bool) (a : Assert) : (prAssert t b a).owner = t.owner := by
  cases b <;> rfl

@[simp] theorem prAssert_data (t : Tsm) (b : Bool) (a : Assert) : (prAssert t b a).data = t.data := by
  cases b <;> rfl

@[simp] theorem prAssert_transId (t : Tsm) (b : Bool) (a : Assert) : (prAssert t b a).transId = t.transId := by
  cases b <;> rfl

@[simp] theorem Tsm.logCall_mac (t : Tsm) (x : QueueCall) : (t.logCall x).mac = t.mac := rfl

/-! ## The queues -/

theorem stkMacHasPackToSend_eq (h : Linked t c) : stkMacHasPackToSend t = !c.sendList.isEmpty :=
  congrArg Bool.not (h.mac.listEmpty .sendList)

theorem stkLlcHasReceivedPack_eq (h : Linked t c) : stkLlcHasReceivedPack t = !c.recvList.isEmpty :=
  congrArg Bool.not (h.mac.listEmpty .recvList)

theorem stkMacGetFirstToSend_eq (h : Linked t c) (hc : c.sendList = p :: l) :
    stkMacGetFirstToSend t = some (t, p) := by
  have hf : listFirstEntry t.mac (.head .sendList) = .node (.item p) := h.mac.first hc
  simp [stkMacGetFirstToSend, stkMacHasPackToSend_eq h, hc, hf, packOf]

theorem Linked.first_received (h : Linked t c) (hc : c.recvList = p :: l) :
    listFirstEntry t.mac (.head .recvList) = .node (.item p) := h.mac.first hc

theorem stkLlcHasReceivedPack_first (hfirst : listFirstEntry t.mac (.head .recvList) = .node (.item p)) :
    stkLlcHasReceivedPack t = true := by
  rw [listFirstEntry] at hfirst
  simp [stkLlcHasReceivedPack, listEmpty, hfirst]

theorem stkLlcGetFirstReceived_eq (hfirst : listFirstEntry t.mac (.head .recvList) = .node (.item p)) :
    stkLlcGetFirstReceived t = some (t, p) := by
  simp [stkLlcGetFirstReceived, stkLlcHasReceivedPack_first hfirst, hfirst, packOf]

theorem stkMacMarkAsSend_spec (h : Linked t c) (hc : c.sendList = p :: l) :
    ∃ mac, stkMacMarkAsSend t = some { t.logCall (.del p) with mac := mac } ∧
      Forest mac ({ c with sendList := l } : Lists).mac := by
  have hp : p ∈ c.mac .sendList := by simp [Lists.mac, hc]
  obtain ⟨mac, hmac, hf⟩ := h.mac.del hp
  refine ⟨mac, ?_, ?_⟩
  · simp [stkMacMarkAsSend, stkMacHasPackToSend_eq h, hc, stkMacGetFirstToSend_eq h hc, hmac]
  · simpa [Lists.mac, hc] using hf

/-- Committing a pack that is on no queue. -/
theorem stkLlcPackCommit_spec (h : Linked t c) (hs : p ∉ c.sendList) (hr : p ∉ c.recvList) :
    ∃ mac, stkLlcPackCommit t p =
        some { (prAssert t c.sendList.isEmpty .llcPackCommit).logCall (.commit .sendList p) with mac := mac } ∧
      Forest mac ({ c with sendList := c.sendList ++ [p] } : Lists).mac := by
  obtain ⟨mac, hmac, hf⟩ := h.mac.addTail (i := p) .sendList (fun k => by cases k <;> assumption)
  refine ⟨mac, ?_, ?_⟩
  · simp [stkLlcPackCommit, stkMacHasPackToSend_eq h, hmac]
  · simpa [Lists.mac] using hf

theorem stkMacPackCommit_spec (h : Linked t c) (hs : p ∉ c.sendList) (hr : p ∉ c.recvList) :
    ∃ mac, stkMacPackCommit t p =
        some { (prAssert t c.recvList.isEmpty .macPackCommit).logCall (.commit .recvList p) with mac := mac } ∧
      Forest mac ({ c with recvList := c.recvList ++ [p] } : Lists).mac := by
  obtain ⟨mac, hmac, hf⟩ := h.mac.addTail (i := p) .recvList (fun k => by cases k <;> assumption)
  refine ⟨mac, ?_, ?_⟩
  · simp [stkMacPackCommit, stkLlcHasReceivedPack_eq h, hmac]
  · simpa [Lists.mac] using hf

/-! ## The pools -/

theorem stkPutRecvPackholder_spec (h : Forest t.owner c.owner) (hp : p ∈ c.llcRecvOwned) :
    ∃ owner, stkPutRecvPackholder t p =
        some { t with owner := owner, llcRecvOwnedCounter := t.llcRecvOwnedCounter - 1 } ∧
      Forest owner ({ c with llcRecvOwned := c.llcRecvOwned.erase p, recvListPool := c.recvListPool ++ [p] } :
        Lists).owner := by
  obtain ⟨owner, howner, hf⟩ := h.moveTail (h := .llcRecvOwned) hp .recvListPool
  refine ⟨owner, by simp [stkPutRecvPackholder, howner], ?_⟩
  simpa [Lists.owner] using hf

/-- Marking a pack as received, once `list_del` has a result. -/
theorem stkLlcMarkAsReceived_eq {mac : MacLinks} (hfirst : listFirstEntry t.mac (.head .recvList) = .node (.item p))
    (hmac : listDel t.mac (.item p) = some mac) :
    stkLlcMarkAsReceived t = stkPutRecvPackholder { t.logCall (.del p) with mac := mac } p := by
  simp only [stkLlcMarkAsReceived, stkLlcHasReceivedPack_first hfirst, prAssert_true, stkLlcGetFirstReceived_eq hfirst,
    Option.bind_eq_bind, Option.bind_some, Tsm.logCall_mac, hmac]

theorem stkLlcMarkAsReceived_spec (h : Linked t c) (hc : c.recvList = p :: l) (hp : p ∈ c.llcRecvOwned) :
    ∃ mac owner, stkLlcMarkAsReceived t = some { t.logCall (.del p) with
        mac := mac, owner := owner, llcRecvOwnedCounter := t.llcRecvOwnedCounter - 1 } ∧
      Forest mac ({ c with recvList := l } : Lists).mac ∧
      Forest owner ({ c with llcRecvOwned := c.llcRecvOwned.erase p, recvListPool := c.recvListPool ++ [p] } :
        Lists).owner := by
  have hpr : p ∈ c.mac .recvList := by simp [Lists.mac, hc]
  obtain ⟨mac, hmac, hf⟩ := h.mac.del hpr
  obtain ⟨owner, howner, hfo⟩ := stkPutRecvPackholder_spec (t := { t.logCall (.del p) with mac := mac })
    (c := { c with recvList := l }) h.owner hp
  refine ⟨mac, owner, ?_, by simpa [Lists.mac, hc] using hf, hfo⟩
  rw [stkLlcMarkAsReceived_eq (h.first_received hc) hmac, howner]
  rfl

theorem stkGetRecvPackholder_spec (h : Linked t c) (hc : c.recvListPool = p :: l) :
    ∃ owner, stkGetRecvPackholder t =
        some ({ t with owner := owner, llcRecvOwnedCounter := t.llcRecvOwnedCounter + 1 }, p) ∧
      Forest owner ({ c with recvListPool := l, llcRecvOwned := c.llcRecvOwned ++ [p] } : Lists).owner := by
  have hp : p ∈ c.owner .recvListPool := by simp [Lists.owner, hc]
  have hfst : listFirstEntry t.owner (.head .recvListPool) = .node (.item p) := h.owner.first hc
  have hne : listEmpty t.owner (.head .recvListPool) = false := by
    rw [h.owner.listEmpty]
    simp [Lists.owner, hc]
  obtain ⟨owner, howner, hf⟩ := h.owner.moveTail hp .llcRecvOwned
  refine ⟨owner, by simp [stkGetRecvPackholder, hne, hfst, packOf, howner], ?_⟩
  simpa [Lists.owner, hc] using hf

theorem stkGetSendPackholder_spec (h : Forest t.owner c.owner) (hc : c.sendListPool = p :: l) :
    ∃ owner, stkGetSendPackholder t =
        some ({ t with owner := owner, llcSendOwnedCounter := t.llcSendOwnedCounter + 1 }, p) ∧
      Forest owner ({ c with sendListPool := l, llcSendOwned := c.llcSendOwned ++ [p] } : Lists).owner := by
  have hp : p ∈ c.owner .sendListPool := by simp [Lists.owner, hc]
  have hfst : listFirstEntry t.owner (.head .sendListPool) = .node (.item p) := h.first hc
  have hne : listEmpty t.owner (.head .sendListPool) = false := by
    rw [h.listEmpty]
    simp [Lists.owner, hc]
  obtain ⟨owner, howner, hf⟩ := h.moveTail hp .llcSendOwned
  refine ⟨owner, by simp [stkGetSendPackholder, hne, hfst, packOf, howner], ?_⟩
  simpa [Lists.owner, hc] using hf

/-! ## The resend list -/

theorem stkLlcResendGet_eq (h : Forest t.owner c.owner) : stkLlcResendGet t = c.llcResendList.head? := by
  have hempty := h.listEmpty .llcResendList
  cases hc : c.llcResendList with
  | nil => simp [stkLlcResendGet, hempty, Lists.owner, hc]
  | cons p l =>
    have hfst : listFirstEntry t.owner (.head .llcResendList) = .node (.item p) := h.first hc
    simp [stkLlcResendGet, hempty, Lists.owner, hc, hfst, packOf]

theorem stkLlcResendAdd_spec (h : Forest t.owner c.owner) (hp : p ∈ c.llcSendOwned) :
    ∃ owner, stkLlcResendAdd t p = some { t with owner := owner } ∧
      Forest owner ({ c with llcSendOwned := c.llcSendOwned.erase p, llcResendList := c.llcResendList ++ [p] } :
        Lists).owner := by
  obtain ⟨owner, howner, hf⟩ := h.moveTail (h := .llcSendOwned) hp .llcResendList
  refine ⟨owner, by simp [stkLlcResendAdd, howner], ?_⟩
  simpa [Lists.owner] using hf

/-- The loop moves every pack of the resend list to the pool. -/
theorem stkLlcResendClearAll_spec (h : Forest t.owner c.owner) :
    ∃ owner, stkLlcResendClearAll t = some { t with
        owner := owner, llcSendOwnedCounter := t.llcSendOwnedCounter - BitVec.ofNat 8 c.llcResendList.length } ∧
      Forest owner ({ c with llcResendList := [], sendListPool := c.sendListPool ++ c.llcResendList } :
        Lists).owner := by
  -- `s` when `l` is left: the packs `d` before it are in the pool already
  let P : List Pack → Tsm → Prop := fun l s => ∃ d owner, c.llcResendList = d ++ l ∧
    s = { t with owner := owner, llcSendOwnedCounter := t.llcSendOwnedCounter - BitVec.ofNat 8 d.length } ∧
    Forest owner ({ c with llcResendList := l, sendListPool := c.sendListPool ++ d } : Lists).owner
  have hP : ∀ l s, P l s → ∃ c, Forest s.owner c ∧ c .llcResendList = l := by
    rintro l s ⟨d, owner, -, rfl, hf⟩
    exact ⟨_, hf, rfl⟩
  have hbody : ∀ i l s, P (i :: l) s → ∃ s', resendClearBody s (.item i) = some s' ∧ P l s' := by
    rintro i l s ⟨d, owner, hd, rfl, hf⟩
    obtain ⟨owner', howner, hf'⟩ := hf.moveTail (i := i) (h := .llcResendList) (by simp [Lists.owner]) .sendListPool
    refine ⟨_, by simp only [resendClearBody, howner]; rfl, d ++ [i], owner', by simp [hd], ?_, ?_⟩
    · have hcount : t.llcSendOwnedCounter - BitVec.ofNat 8 (d ++ [i]).length =
          t.llcSendOwnedCounter - BitVec.ofNat 8 d.length - 1 := by
        rw [List.length_append, List.length_singleton, BitVec.ofNat_add]
        bv_omega
      rw [hcount]
    · simpa [Lists.owner] using hf'
  obtain ⟨s', hs', d, owner, hd, rfl, hf⟩ := forEachSafe_consume P hP hbody c.llcResendList
    (2 * stkPacketPoolSize + 1) t ⟨[], t.owner, by simp, by simp, by simpa using h⟩
    (Nat.lt_succ_of_le (pack_nodup_length (h.nodup .llcResendList))) _ rfl
  have hfst : listFirstEntry t.owner (.head .llcResendList) =
      .node ((c.llcResendList.map .item).headD (.head .llcResendList)) := seg_next (h.ring .llcResendList)
  rw [List.append_nil] at hd
  subst hd
  refine ⟨initListHead owner (.head .llcResendList), ?_, ?_⟩
  · simp only [stkLlcResendClearAll, hfst, Ptr.deref_node, Option.bind_eq_bind, Option.bind_some, hs']
    rfl
  · -- the list is empty already, so its head points at itself
    have hself : initListHead owner (.head .llcResendList) = owner := by
      have hring := hf.ring .llcResendList
      simp only [Lists.owner, List.map_nil, Seg] at hring
      have hnext := Function.update_eq_self (.head .llcResendList) owner.next
      have hprev := Function.update_eq_self (.head .llcResendList) owner.prev
      rw [hring.1] at hnext
      rw [hring.2] at hprev
      simp only [initListHead, Links.setNext, Links.setPrev, hnext, hprev]
    rw [hself]
    exact hf

/-! ## Initialisation -/

/-- The pools are full and the other lists empty. -/
def Lists.start : Lists := ⟨[], [], sendPacks, recvPacks, [], [], []⟩

/-- Putting a whole buffer into its pool. -/
theorem addPool_spec {owner : OwnerLinks} {c : OwnerHead → List Pack} (buff : Fin 10 → Pack) (pool : OwnerHead)
    (hf : Forest owner c) (hbuff : Function.Injective buff) (hnew : ∀ i k, buff i ∉ c k) :
    ∃ owner', addPool owner buff pool = some owner' ∧
      Forest owner' (Function.update c pool (c pool ++ (List.finRange 10).map buff)) := by
  have hfold : ∀ (is : List (Fin 10)) (owner : OwnerLinks) (c : OwnerHead → List Pack), Forest owner c → is.Nodup →
      (∀ i ∈ is, ∀ k, buff i ∉ c k) →
      ∃ owner', is.foldlM (fun owner i => listAddTail owner (.item (buff i)) (.head pool)) owner = some owner' ∧
        Forest owner' (Function.update c pool (c pool ++ is.map buff)) := by
    intro is
    induction is with
    | nil =>
      intro owner c hf _ _
      exact ⟨owner, rfl, by simpa using hf⟩
    | cons i is ih =>
      intro owner c hf hnd hnew
      rw [List.nodup_cons] at hnd
      obtain ⟨owner₁, hadd, hf₁⟩ := hf.addTail (i := buff i) pool (hnew i (by simp))
      have hnew₁ : ∀ j ∈ is, ∀ k, buff j ∉ Function.update c pool (c pool ++ [buff i]) k := by
        intro j hj k
        have hne : buff j ≠ buff i := fun he => hnd.1 (hbuff he ▸ hj)
        have hc := hnew j (List.mem_cons_of_mem _ hj)
        by_cases hk : k = pool
        · subst hk
          simp [hc k, hne]
        · rw [Function.update_of_ne hk]
          exact hc k
      obtain ⟨owner', hrest, hf'⟩ := ih owner₁ _ hf₁ hnd.2 hnew₁
      refine ⟨owner', ?_, by simpa using hf'⟩
      simp only [List.foldlM_cons, hadd, Option.bind_eq_bind, Option.bind_some, hrest]
  exact hfold _ owner c hf (List.nodup_finRange 10) (fun i _ k => hnew i k)

theorem stkCTsmInit_spec (t : Tsm) :
    ∃ mac owner, stkCTsmInit t = some { t with
        mac := mac, owner := owner, llcSendOwnedCounter := 0, llcRecvOwnedCounter := 0, retriesNum := 0
        stderr := [], queueCalls := [] } ∧
      Forest mac Lists.start.mac ∧ Forest owner Lists.start.owner := by
  have hmac : Forest (initListHead (initListHead t.mac (.head .sendList)) (.head .recvList))
      (fun _ : MacHead => ([] : List Pack)) := by
    refine Forest.of_empty fun h => ?_
    cases h <;> simp [initListHead, Links.setNext, Links.setPrev]
  have hempty : Forest (initListHead (initListHead (initListHead (initListHead (initListHead t.owner
      (.head .llcResendList)) (.head .llcSendOwned)) (.head .llcRecvOwned)) (.head .sendListPool))
      (.head .recvListPool)) (fun _ : OwnerHead => ([] : List Pack)) := by
    refine Forest.of_empty fun h => ?_
    cases h <;> simp [initListHead, Links.setNext, Links.setPrev]
  obtain ⟨owner₁, hadd₁, hf₁⟩ := addPool_spec .sendBuff .sendListPool hempty
    (fun i j h => Pack.sendBuff.inj h) (by simp)
  obtain ⟨owner₂, hadd₂, hf₂⟩ := addPool_spec .recvBuff .recvListPool hf₁
    (fun i j h => Pack.recvBuff.inj h) (fun i k => by
      by_cases hk : k = .sendListPool
      · subst hk
        simp
      · simp [Function.update_of_ne hk])
  have hstart : Lists.start.mac = fun _ => [] := by
    funext k
    cases k <;> rfl
  have hpools : Lists.start.owner = Function.update (Function.update (fun _ : OwnerHead => ([] : List Pack))
      .sendListPool ([] ++ (List.finRange 10).map .sendBuff)) .recvListPool
      (Function.update (fun _ : OwnerHead => ([] : List Pack)) .sendListPool
        ([] ++ (List.finRange 10).map .sendBuff) .recvListPool ++ (List.finRange 10).map .recvBuff) := by
    funext k
    cases k <;> rfl
  refine ⟨initListHead (initListHead t.mac (.head .sendList)) (.head .recvList), owner₂, ?_, by rwa [hstart],
    by rwa [hpools]⟩
  simp only [stkCTsmInit, stkCInitPools, hadd₁, hadd₂, Option.bind_eq_bind, Option.bind_some]
  rfl

end LoraBridge
