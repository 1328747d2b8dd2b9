import LoraBridge.Wire
import LoraBridge.Channel

/-!
# The packets of a transaction

A run of the master is cut at the events that enter its idle state: each closes a transaction (`logOf`). As long as the
timer is not read as expired while the packet still waits for the radio, all packets that the `n`-th transaction hands
to the radio are one, and it hands over at least one before it ends (`mRun_transactions`).
-/

set_option autoImplicit false

namespace LoraBridge

open Transducer

/-- The packets handed to the radio: in each transaction that has ended, and since then. -/
structure TxLog where
  done : List (List PackData)
  cur : List PackData
  deriving DecidableEq

def TxLog.add (log : TxLog) : Event LlcStateM → TxLog
  | .tx d => { log with cur := log.cur ++ [d] }
  | .enter .idle _ => ⟨log.done ++ [log.cur], []⟩
  | .enter _ _ => log

def logOf (os : List (Event LlcStateM)) : TxLog := os.foldl TxLog.add ⟨[], []⟩

theorem logOf_append (os o : List (Event LlcStateM)) : logOf (os ++ o) = o.foldl TxLog.add (logOf os) :=
  List.foldl_append

/-- A sealed single packet of the full length, with the id of transaction `n` and its payload. -/
structure TransactionPacket (n : Nat) (d : PackData) : Prop where
  sealed : stkTestPackChecksumm d = true
  single : stkGetPackType d = .typeSingle
  id : (stkGetTransId d).toNat = n % 4
  len : (stkGetPayloadLen d).toNat = configStkPayloadLen
  payload : ∀ i < configStkPayloadLen, d[1 + i]? = some (payload i)

theorem transIdOf_toNat (n : Nat) : (transIdOf n).toNat = n % 4 := by
  rw [transIdOf, BitVec.toNat_ofNat]
  omega

theorem frame_packet (n : Nat) : TransactionPacket n (frame n) where
  sealed := stkTest_singleFrame _
  single := stkGetPackType_frame n
  id := by rw [stkGetTransId_frame, transIdOf_toNat]
  len := by
    rw [frame, singleFrame, stkGetPayloadLen_set, stkGetPayloadLen_prepare _ _ _ _ (by decide) (by decide)]
    rfl
  payload i hi := by
    have hi16 : i < 16 := hi
    have hk : 1 + i < 19 := by omega
    rw [frame, singleFrame, Vector.getElem?_eq_getElem hk, getElem_set_of_lt _ hk (by omega),
      getElem_prepare _ _ _ _ hk (by omega) (by omega), Nat.add_sub_cancel_left]

/-- The packets of neighbouring transactions carry different ids. -/
theorem TransactionPacket.id_ne {n : Nat} {d d' : PackData} (h : TransactionPacket n d)
    (h' : TransactionPacket (n + 1) d') : stkGetTransId d ≠ stkGetTransId d' := by
  intro he
  have hid := h.id
  have hid' := h'.id
  rw [he] at hid
  omega

/-! ## One step -/

/-- The log of a run and the station it has reached. -/
structure Logged (log : TxLog) (a : Station LlcStateM) : Prop where
  transId : a.transId = transIdOf (if a.st = .idle then log.done.length else log.done.length + 1)
  resend : a.st ≠ .idle → ∀ d, a.resend = some d → d = frame (log.done.length + 1)
  send : ∀ d, a.send = some d → d = frame (log.done.length + 1)
  cur : ∀ d ∈ log.cur, d = frame (log.done.length + 1)
  /-- nothing waits for the radio before the first transmission -/
  sent : a.st ≠ .idle → a.send = none ∨ a.place = .sending → log.cur ≠ []
  done : ∀ k ds, log.done[k]? = some ds → ds ≠ [] ∧ ∀ d ∈ ds, d = frame (k + 1)

variable {log : TxLog} {a a' : Station LlcStateM} {i : Input} {o : List (Event LlcStateM)}

theorem Logged.transId_le (h : Logged log a) : a.transId ≤ transIdMax := by
  rw [h.transId]
  exact transIdOf_le _

/-- A step that hands nothing over, within the transaction. -/
theorem Logged.quiet (h : Logged log a) (hst : a'.st ≠ .idle) (hst' : a.st ≠ .idle) (htid : a'.transId = a.transId)
    (hresend : a'.resend = a.resend) (hsend : ∀ d, a'.send = some d → a.send = some d ∨ a.resend = some d)
    (hsent : a'.send = none ∨ a'.place = .sending → a.send = none ∨ a.place = .sending) : Logged log a' where
  transId := by rw [htid, h.transId, if_neg hst, if_neg hst']
  resend _ d hd := h.resend hst' d (hresend ▸ hd)
  send d hd := (hsend d hd).elim (h.send d) (h.resend hst' d)
  cur := h.cur
  sent _ hs := h.sent hst' (hsent hs)
  done := h.done

theorem Logged.step (h : Logged log a) (hmove : MMove a i a' o) : Logged (o.foldl TxLog.add log) a' := by
  cases hmove with
  | start hp hst hsend hrecv =>
    have htid : nextTransId a.transId = transIdOf (log.done.length + 1) := by
      rw [h.transId, if_pos hst, nextTransId_transIdOf]
    have hframe : ∀ d, some (singleFrame (nextTransId a.transId)) = some d → d = frame (log.done.length + 1) := by
      intro d hd
      rw [← Option.some.inj hd, htid, frame]
    change Logged log _
    refine ⟨?_, fun _ => hframe, hframe, h.cur, ?_, h.done⟩
    · rw [if_neg nofun]
      exact htid
    · rintro - (hnone | hsending)
      · exact absurd hnone nofun
      · exact absurd (hp.symm.trans hsending) nofun
  | response hp hst hrecv hsend hresend =>
    exact h.quiet nofun (by simp [hst]) (by simp) (by simp) (fun d hd => Or.inl (by simpa using hd))
      (fun _ => Or.inl hsend)
  | timeout hp hst hrecv hsend hresend hexp =>
    exact h.quiet nofun (by simp [hst]) rfl rfl (fun d hd => Or.inl hd) (fun hs => hs)
  | wait hp hst hrecv hresend hexp =>
    refine h.quiet (by simp [hst]) (by simp [hst]) rfl rfl (fun d hd => Or.inl hd) ?_
    rintro (hnone | hsending)
    · exact Or.inl hnone
    · cases hsending
  | complete hp hst hsend hrecv =>
    have hne : a.st ≠ .idle := by simp [hst]
    have hcur := h.sent hne (Or.inl hsend)
    refine ⟨?_, fun hidle => absurd rfl hidle, ?_, nofun, fun hidle => absurd rfl hidle, ?_⟩
    · simpa [TxLog.add, hst] using h.transId
    · intro d hd
      simp [hsend] at hd
    · -- the transaction that ends is the next one of the list
      intro k ds hds
      simp only [List.foldl_cons, List.foldl_nil, TxLog.add, List.getElem?_append] at hds
      split_ifs at hds with hk
      · exact h.done k ds hds
      · rw [List.getElem?_singleton] at hds
        split_ifs at hds with hk0
        obtain rfl := Option.some.inj hds
        have hlen : k = log.done.length := by omega
        subst hlen
        exact ⟨hcur, h.cur⟩
  | retry hp hst hsend hrecv hresend =>
    refine h.quiet nofun (by simp [hst]) rfl rfl (fun d hd => Or.inr (hresend.trans hd)) (fun _ => Or.inl hsend)
  | @call d hp hst hrecv hresend hsend =>
    have hne : a.st ≠ .idle := by simp [hst]
    refine ⟨h.transId, h.resend, h.send, ?_, fun _ _ => by simp [TxLog.add], h.done⟩
    intro d' hd'
    rcases List.mem_append.mp hd' with hmem | hlast
    · exact h.cur d' hmem
    · rw [List.mem_singleton.mp hlast]
      exact h.send d hsend
  | listen hp hst hrecv hresend hsend =>
    exact h.quiet (by simp [hst]) (by simp [hst]) rfl rfl (fun d hd => Or.inl hd) (fun _ => Or.inl hsend)
  | sent hp hst hrecv hresend =>
    exact h.quiet (by simp [hst]) (by simp [hst]) rfl rfl nofun (fun _ => Or.inr hp)
  | fail hp hst hrecv hsend hresend hpacket =>
    exact h.quiet (by simp [hst]) (by simp [hst]) rfl rfl (fun d hd => Or.inl hd) (fun _ => Or.inl hsend)
  | arrive hp hst hrecv hsend hresend hpacket =>
    exact h.quiet (by simp [hst]) (by simp [hst]) rfl rfl (fun d hd => Or.inl hd) (fun _ => Or.inl hsend)

/-! ## Runs -/

theorem mRun_logged {t : Tsm} {l₀ l : Loop LlcStateM} {is : List Input} {os : List (Event LlcStateM)}
    (h₀ : mStart t = some l₀) (hr : run mStep l₀ is = some (l, os)) (hpatient : Along mStep TimerPatient l₀ is) :
    ∃ a, MRel l a ∧ Logged (logOf os) a := by
  let P : List Input → List (Event LlcStateM) → Loop LlcStateM → Prop :=
    fun _ os l => ∃ a, MRel l a ∧ Logged (logOf os) a
  have hstart : P [] [] l₀ := by
    obtain ⟨l', hl', hrel⟩ := mStart_rel t
    cases h₀.symm.trans hl'
    exact ⟨_, hrel, rfl, fun hidle => absurd rfl hidle, nofun, nofun, fun hidle => absurd rfl hidle, nofun⟩
  have hstep : ∀ is os l i l' o, P is os l → TimerPatient l i → mStep l i = some (l', o) →
      P (is ++ [i]) (os ++ o) l' := by
    rintro is os l i l' o ⟨a, hrel, hlog⟩ hi hs
    obtain ⟨c, hc⟩ := hrel.rel
    obtain ⟨a', ha, hrel'⟩ := (hrel.step hi).of_some hs
    refine ⟨a', hrel', ?_⟩
    rw [logOf_append]
    exact hlog.step (mStation_move hrel.inv (hi.station hc) ha)
  exact run_induct_along hstart hstep hr hpatient

/-- **The packets of a transaction.** In a run whose timer is not read as expired while a packet waits for the radio,
all packets handed over in the `n`-th transaction are `frame n`, in a transaction that has ended there is at least one,
and `trans_id` stays in its range. -/
theorem mRun_transactions (t : Tsm) : ∃ l₀, mStart t = some l₀ ∧
    ∀ (is : List Input) (l : Loop LlcStateM) (os : List (Event LlcStateM)), run mStep l₀ is = some (l, os) →
      Along mStep TimerPatient l₀ is →
      (∀ n ds, (logOf os).done[n]? = some ds → ds ≠ [] ∧ ∀ d ∈ ds, d = frame (n + 1)) ∧
      (∀ d ∈ (logOf os).cur, d = frame ((logOf os).done.length + 1)) ∧
      (transIdStart ≤ l.tsm.transId ∧ l.tsm.transId ≤ transIdMax) ∧
      ∀ n, TransactionPacket n (frame n) ∧ stkGetTransId (frame n) ≠ stkGetTransId (frame (n + 1)) := by
  obtain ⟨l₀, h₀, -⟩ := mStart_rel t
  refine ⟨l₀, h₀, fun is l os hr hpatient => ?_⟩
  obtain ⟨a, hrel, hlog⟩ := mRun_logged h₀ hr hpatient
  obtain ⟨c, hc⟩ := hrel.rel
  refine ⟨hlog.done, hlog.cur, ⟨BitVec.le_def.mpr (Nat.zero_le _), ?_⟩,
    fun n => ⟨frame_packet n, (frame_packet n).id_ne (frame_packet _)⟩⟩
  rw [hc.transId]
  exact hlog.transId_le

/-- The first transaction needs two transmissions, then the second begins. -/
def twoTransactions : List Input :=
  resendInputs ++ [.pass ⟨0, 600000⟩, .pass ⟨0, 600000⟩, .pass ⟨0, 600000⟩, .call]

theorem mRun_transactions_resend : ∃ l₀ l os, mStart Tsm.zeroed = some l₀ ∧
    run mStep l₀ twoTransactions = some (l, os) ∧ logOf os = ⟨[[frame 1, frame 1]], [frame 2]⟩ ∧
    ∀ d ∈ (logOf os).cur, d = frame ((logOf os).done.length + 1) := by
  have heval : (mStart Tsm.zeroed).bind (fun l₀ => (run mStep l₀ twoTransactions).map fun r =>
      (checkAlong mStep (fun l i => decide (TimerPatient l i)) l₀ twoTransactions, logOf r.2)) =
      some (true, ⟨[[frame 1, frame 1]], [frame 2]⟩) := by decide +kernel
  obtain ⟨l₀, h₀, hrun⟩ := Option.bind_eq_some_iff.mp heval
  obtain ⟨⟨l, os⟩, hr, hfacts⟩ := Option.map_eq_some_iff.mp hrun
  simp only [Prod.mk.injEq] at hfacts
  obtain ⟨l₁, h₁, hall⟩ := mRun_transactions Tsm.zeroed
  cases h₀.symm.trans h₁
  exact ⟨l₀, l, os, h₀, hr, hfacts.2, (hall _ _ _ hr (along_of_check hfacts.1)).2.1⟩

end LoraBridge
