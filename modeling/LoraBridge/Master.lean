import LoraBridge.Queues

/-!
# The master and its responses

The assertions on a response only print, so the master takes whatever packet it receives for the response to its current
transaction: the `k`-th packet it receives ends transaction `k`. It takes its own responses only exactly when the `k`-th
packet received is a single packet with id `k` modulo four (`mRun_responses`).
-/

set_option autoImplicit false

namespace LoraBridge

open ListHead Transducer

/-- The first packet of the receive queue. -/
def Tsm.waiting (t : Tsm) : Option PackData :=
  if stkLlcHasReceivedPack t then (packOf (listFirstEntry t.mac (.head .recvList))).map t.data else none

/-- A response to the transaction. -/
def Genuine (transId : Byte) (d : PackData) : Prop := stkGetPackType d = .typeSingle ∧ stkGetTransId d = transId

/-- What a step of the master may do with a packet: only a response of its own ends the transaction, and a new one
starts only after that, from idle; a foreign packet is consumed, and the master goes on waiting with the same pack to
resend. -/
structure ResponseOk (l : Loop LlcStateM) (i : Input) (l' : Loop LlcStateM) : Prop where
  ends : l'.llcState = .receivedAll → l.llcState = .sendAll ∧ ∃ d, l.tsm.waiting = some d ∧ Genuine l.tsm.transId d
  completes : l'.llcState = .idle → l.llcState = .receivedAll
  starts : l'.tsm.transId ≠ l.tsm.transId → l.llcState = .idle
  foreign : ∀ now d, i = .pass now → l.llcState = .sendAll → l.tsm.waiting = some d → ¬ Genuine l.tsm.transId d →
    l'.llcState = .sendAll ∧ l'.tsm.transId = l.tsm.transId ∧ l'.tsm.waiting = none ∧
      ∃ p, stkLlcResendGet l.tsm = some p ∧ stkLlcResendGet l'.tsm = some p

variable {l l' : Loop LlcStateM} {a a' : Station LlcStateM} {i : Input} {is : List Input}
  {o os : List (Event LlcStateM)} {p : Pack}

theorem MRel.waiting (h : MRel l a) : l.tsm.waiting = a.recv := by
  obtain ⟨c, hrel⟩ := h.rel
  simp only [Tsm.waiting, hrel.hasReceivedPack]
  cases hrecv : a.recv with
  | none => rfl
  | some d =>
    obtain ⟨p, hp, hd⟩ := map_toList_some hrel.recv hrecv
    have hfirst : listFirstEntry l.tsm.mac (.head .recvList) = .node (.item p) := hrel.linked.mac.first hp
    simp [hfirst, packOf, hd]

theorem Jam.waiting (h : Jam p l) : l.tsm.waiting = none := by
  simp [Tsm.waiting, h.noReceived]

/-- A step answers properly exactly when the packet it consumes, if any, is a response. -/
theorem MMove.responseOk (hmove : MMove a i a' o) (h : MRel l a) (h' : MRel l' a') :
    ResponseOk l i l' ↔ ∀ now d, i = .pass now → a.st = .sendAll → a.recv = some d → Genuine a.transId d := by
  obtain ⟨c, hrel⟩ := h.rel
  obtain ⟨c', hrel'⟩ := h'.rel
  constructor
  · intro hok now d hi hst hrecv
    by_contra hforeign
    have hstay := hok.foreign now d hi (hrel.st.trans hst) (h.waiting.trans hrecv) (by rwa [hrel.transId])
    have hst' := hrel'.st.symm.trans hstay.1
    subst hi
    cases hmove <;> simp_all
  · intro hgen
    refine ⟨fun hst' => ?_, fun hst' => ?_, fun htid => ?_, fun now d hi hst hwait hforeign => ?_⟩
    · rw [hrel'.st] at hst'
      rw [h.waiting, hrel.st, hrel.transId]
      cases hmove <;> simp_all
    · rw [hrel'.st] at hst'
      rw [hrel.st]
      cases hmove <;> simp_all
    · rw [hrel'.transId, hrel.transId] at htid
      rw [hrel.st]
      cases hmove <;> simp_all
    · rw [h.waiting] at hwait
      rw [hrel.st] at hst
      rw [hrel.transId] at hforeign
      exact absurd (hgen now d hi hst hwait) hforeign

/-- A step into the jam, or within it, takes no packet. -/
theorem Jam.responseOk (h' : Jam p l') (hwait : l.tsm.waiting = none) (htid : l'.tsm.transId = l.tsm.transId) :
    ResponseOk l i l' := by
  have hst : l'.llcState ≠ .receivedAll ∧ l'.llcState ≠ .idle := by
    rcases h'.place with ⟨hst, -⟩ | ⟨hst, -⟩ <;> rw [hst] <;> exact ⟨nofun, nofun⟩
  refine ⟨fun he => absurd he hst.1, fun he => absurd he hst.2, fun he => absurd htid he, fun now d _ _ hd => ?_⟩
  rw [hwait] at hd
  cases hd

/-! ## Counting packets -/

/-- The id of transaction `n`. -/
def transIdOf (n : Nat) : Byte := BitVec.ofNat 8 (n % 4)

theorem nextTransId_transIdOf (n : Nat) : nextTransId (transIdOf n) = transIdOf (n + 1) := by
  have h : ∀ k < 4, nextTransId (BitVec.ofNat 8 k) = BitVec.ofNat 8 ((k + 1) % 4) := by decide
  rw [transIdOf, transIdOf, h _ (Nat.mod_lt _ (by decide)), Nat.mod_add_mod]

/-- After `n` packets consumed the master is in transaction `n`, or in the next one. -/
structure Counted (n : Nat) (is : List Input) (a : Station LlcStateM) : Prop where
  transId : a.transId = transIdOf (if a.st = .sendAll ∨ a.st = .resend then n + 1 else n)
  length : (received is).length = n + a.recv.toList.length
  recv : ∀ d, a.recv = some d → (received is)[n]? = some d

/-- A step that neither takes nor receives a packet, in the same transaction. -/
theorem Counted.quiet {n : Nat} (h : Counted n is a) (htid : a'.transId = a.transId)
    (hst : (a'.st = .sendAll ∨ a'.st = .resend) ↔ (a.st = .sendAll ∨ a.st = .resend)) (hrecv : a'.recv = a.recv)
    (hpacket : i.packet = none) : Counted n (is ++ [i]) a' := by
  have hsame : received (is ++ [i]) = received is := by simp [received_singleton, hpacket]
  refine ⟨?_, ?_, ?_⟩
  · rw [htid, h.transId]
    simp only [hst]
  · rw [hsame, hrecv, h.length]
  · rw [hsame, hrecv]
    exact h.recv

theorem Counted.step {n : Nat} (h : Counted n is a) (hmove : MMove a i a' o) :
    Counted (n + if a'.st = .receivedAll then 1 else 0) (is ++ [i]) a' := by
  have hquiet : ∀ {i : Input} {a' : Station LlcStateM}, a'.transId = a.transId →
      ((a'.st = .sendAll ∨ a'.st = .resend) ↔ (a.st = .sendAll ∨ a.st = .resend)) → a'.recv = a.recv →
      i.packet = none → a'.st ≠ .receivedAll →
      Counted (n + if a'.st = .receivedAll then 1 else 0) (is ++ [i]) a' := by
    intro i a' htid hst hrecv hpacket hne
    rw [if_neg hne, Nat.add_zero]
    exact h.quiet htid hst hrecv hpacket
  cases hmove with
  | start hp hst hsend hrecv =>
    have htid : a.transId = transIdOf n := by simpa [hst] using h.transId
    have hlen : (received is).length = n := by simpa [hrecv] using h.length
    exact ⟨by simp [htid, nextTransId_transIdOf], by simp [received_singleton, Input.packet, hlen, hrecv],
      by simp [hrecv]⟩
  | response hp hst hrecv hsend hresend =>
    have hlen : (received is).length = n + 1 := by simpa [hrecv] using h.length
    exact ⟨by simpa [hst] using h.transId, by simp [received_singleton, Input.packet, hlen], by simp⟩
  | timeout hp hst hrecv hsend hresend hexp => exact hquiet rfl (by simp [hst]) rfl rfl (by simp)
  | wait hp hst hrecv hresend hexp => exact hquiet rfl (by simp [hst]) rfl rfl (by simp [hst])
  | complete hp hst hsend hrecv => exact hquiet (by simp) (by simp [hst]) (by simp) rfl (by simp)
  | retry hp hst hsend hrecv hresend => exact hquiet rfl (by simp [hst]) rfl rfl (by simp)
  | call hp hst hrecv hresend hsend => exact hquiet rfl (by simp [hst]) rfl rfl (by simp [hst])
  | listen hp hst hrecv hresend hsend => exact hquiet rfl (by simp [hst]) rfl rfl (by simp [hst])
  | sent hp hst hrecv hresend => exact hquiet rfl (by simp [hst]) rfl rfl (by simp [hst])
  | fail hp hst hrecv hsend hresend hpacket => exact hquiet rfl (by simp [hst]) rfl hpacket (by simp [hst])
  | @arrive res d hp hst hrecv hsend hresend hpacket =>
    have hlen : (received is).length = n := by simpa [hrecv] using h.length
    exact ⟨by simpa [hst] using h.transId, by simp [received_singleton, hpacket, hlen, hst],
      by simp [received_singleton, hpacket, hlen, hst]⟩

/-! ## Runs -/

/-- Every step of the run treats its packet as `ResponseOk` says. -/
def ResponsesOk (l₀ : Loop LlcStateM) (is : List Input) : Prop :=
  Along mStep (fun l i => ∀ l' o, mStep l i = some (l', o) → ResponseOk l i l') l₀ is

/-- The first `n` packets are responses, each to the transaction of its number. -/
def InTurn (n : Nat) (ds : List PackData) : Prop := ∀ k d, k < n → ds[k]? = some d → Genuine (transIdOf (k + 1)) d

theorem InTurn.append {n : Nat} {ds ds' : List PackData} (hn : n ≤ ds.length) : InTurn n (ds ++ ds') ↔ InTurn n ds := by
  have hget : ∀ k, k < n → (ds ++ ds')[k]? = ds[k]? := fun k hk => List.getElem?_append_left (by omega)
  constructor
  · intro h k d hk hd
    exact h k d hk (by rwa [hget k hk])
  · intro h k d hk hd
    exact h k d hk (by rwa [← hget k hk])

theorem InTurn.succ {n : Nat} {ds : List PackData} {d : PackData} (hd : ds[n]? = some d) :
    InTurn (n + 1) ds ↔ InTurn n ds ∧ Genuine (transIdOf (n + 1)) d := by
  constructor
  · intro h
    exact ⟨fun k d' hk => h k d' (by omega), h n d (by omega) hd⟩
  · rintro ⟨h, hgen⟩ k d' hk hd'
    rcases Nat.lt_succ_iff_lt_or_eq.mp hk with hk | rfl
    · exact h k d' hk hd'
    · cases hd.symm.trans hd'
      exact hgen

theorem ResponsesOk.snoc {l₀ : Loop LlcStateM} (hr : run mStep l₀ is = some (l, os)) (hs : mStep l i = some (l', o)) :
    ResponsesOk l₀ (is ++ [i]) ↔ ResponsesOk l₀ is ∧ ResponseOk l i l' := by
  constructor
  · intro h
    exact ⟨Along.front h, Along.last h hr l' o hs⟩
  · rintro ⟨h, hok⟩
    refine Along.snoc h hr fun l'' o' hs' => ?_
    cases hs.symm.trans hs'
    exact hok

theorem Jam.packet (h : Jam p l) (hs : mStep l i = some (l', o)) : i.packet = none := by
  cases i with
  | received res =>
    cases hpc : l.pc with
    | receiving q =>
      rcases h.place with ⟨-, pk, hllc⟩ | ⟨-, hnot, -⟩
      · rw [hpc] at hllc
        cases hllc
      · exact absurd hpc (hnot q)
    | _ =>
      simp only [mStep, macReceived, hpc] at hs
      cases hs
  | _ => rfl

/-- Where a run stands that has consumed `n` packets. -/
inductive Standing (n : Nat) (is : List Input) (l : Loop LlcStateM) : Prop
  | steady {a : Station LlcStateM} : MRel l a → Counted n is a → Standing n is l
  | jammed {p : Pack} : Jam p l → (received is).length = n → Standing n is l

/-- The packet that a pass consumes. -/
theorem MMove.consumes (hmove : MMove a i a' o) :
    (a'.st = .receivedAll ↔ ∃ now d, i = .pass now ∧ a.st = .sendAll ∧ a.recv = some d) := by
  cases hmove <;> simp_all

/-- One step: the packet it consumes decides whether it is taken properly. -/
theorem Standing.step {n : Nat} (h : Standing n is l) (hs : mStep l i = some (l', o)) :
    ∃ n', Standing n' (is ++ [i]) l' ∧
      (InTurn n' (received (is ++ [i])) ↔ InTurn n (received is) ∧ ResponseOk l i l') := by
  rw [received_append, received_singleton]
  cases h with
  | @steady a hrel hcount =>
    have hn : n ≤ (received is).length := by rw [hcount.length]; omega
    by_cases hi : TimerPatient l i
    · obtain ⟨c, hc⟩ := hrel.rel
      obtain ⟨a', ha, hrel'⟩ := (hrel.step hi).of_some hs
      have hmove := mStation_move hrel.inv (hi.station hc) ha
      refine ⟨_, .steady hrel' (hcount.step hmove), ?_⟩
      rw [hmove.responseOk hrel hrel']
      by_cases hst' : a'.st = .receivedAll
      · obtain ⟨now, d, rfl, hst, hrecv⟩ := hmove.consumes.mp hst'
        have hd := hcount.recv d hrecv
        have htid : a.transId = transIdOf (n + 1) := by simpa [hst] using hcount.transId
        have hpacket : (Input.pass now).packet = none := rfl
        rw [if_pos hst', hpacket, Option.toList_none, List.append_nil, InTurn.succ hd, htid]
        refine and_congr_right fun _ => ⟨fun hgen now' d' _ _ hd' => ?_, fun hall => hall now d rfl hst hrecv⟩
        cases hrecv.symm.trans hd'
        exact hgen
      · rw [if_neg hst', Nat.add_zero, InTurn.append hn]
        refine ⟨fun hin => ⟨hin, fun now d hi hst hrecv => ?_⟩, fun hin => hin.1⟩
        exact absurd (hmove.consumes.mpr ⟨now, d, hi, hst, hrecv⟩) hst'
    · -- the timer is read too early: nothing was received
      obtain ⟨htsm, p, hjam⟩ := hrel.jam hi hs
      have hrecv : a.recv = none := by rw [← hrel.waiting, Tsm.waiting, ← htsm, hjam.noReceived]; rfl
      have hpacket : i.packet = none := by
        cases i with
        | pass now => rfl
        | _ => exact absurd trivial hi
      have hlen : (received is).length = n := by simpa [hrecv] using hcount.length
      refine ⟨n, .jammed hjam (by simp [received_append, received_singleton, hpacket, hlen]), ?_⟩
      rw [InTurn.append hn]
      exact ⟨fun hin => ⟨hin, hjam.responseOk (hrel.waiting.trans hrecv) (by rw [htsm])⟩, fun hin => hin.1⟩
  | jammed hjam hlen =>
    obtain ⟨hjam', hstill⟩ := hjam.step hs
    have hpacket := hjam.packet hs
    refine ⟨n, .jammed hjam' (by simp [received_append, received_singleton, hpacket, hlen]), ?_⟩
    rw [hpacket, Option.toList_none, List.append_nil]
    exact ⟨fun h => ⟨h, hjam'.responseOk hjam.waiting hstill.transId⟩, fun h => h.1⟩

/-- Where every run stands, and what that says about its packets. -/
theorem mRun_standing {t : Tsm} {l₀ : Loop LlcStateM} (h₀ : mStart t = some l₀) (hr : run mStep l₀ is = some (l, os)) :
    ∃ n, Standing n is l ∧ (InTurn n (received is) ↔ ResponsesOk l₀ is) := by
  let P : List Input → List (Event LlcStateM) → Loop LlcStateM → Prop := fun is os l =>
    run mStep l₀ is = some (l, os) ∧ ∃ n, Standing n is l ∧ (InTurn n (received is) ↔ ResponsesOk l₀ is)
  have hstart : P [] [] l₀ := by
    obtain ⟨l', hl', hrel⟩ := mStart_rel t
    cases h₀.symm.trans hl'
    refine ⟨rfl, 0, .steady hrel ⟨rfl, rfl, nofun⟩, ?_⟩
    refine ⟨fun _ pre i post he => ?_, fun _ k d hk => absurd hk (Nat.not_lt_zero k)⟩
    simp at he
  have hstep : ∀ is os l i l' o, P is os l → mStep l i = some (l', o) → P (is ++ [i]) (os ++ o) l' := by
    rintro is os l i l' o ⟨hr, n, hstand, hturn⟩ hs
    obtain ⟨n', hstand', hturn'⟩ := hstand.step hs
    refine ⟨run_snoc.mpr ⟨l, os, o, hr, hs, rfl⟩, n', hstand', ?_⟩
    rw [hturn', hturn, ResponsesOk.snoc hr hs]
  exact (run_induct hstart hstep hr).2

/-- With no packet waiting, every packet received has been consumed. -/
theorem Standing.consumed {n : Nat} (h : Standing n is l) : n ≤ (received is).length ∧
    (l.tsm.waiting = none → (received is).length = n) := by
  cases h with
  | steady hrel hcount =>
    refine ⟨by rw [hcount.length]; omega, fun hwait => ?_⟩
    rw [hrel.waiting] at hwait
    simpa [hwait] using hcount.length
  | jammed hjam hlen => exact ⟨hlen.ge, fun _ => hlen⟩

/-- **The master's responses.** In every run the master takes its own responses only, as long as the `k`-th packet it
receives is a single packet with id `k` modulo four; and once all it received are consumed, only then. -/
theorem mRun_responses (t : Tsm) : ∃ l₀, mStart t = some l₀ ∧
    ∀ (is : List Input) (l : Loop LlcStateM) (os : List (Event LlcStateM)), run mStep l₀ is = some (l, os) →
      ((∀ k d, (received is)[k]? = some d → Genuine (transIdOf (k + 1)) d) → ResponsesOk l₀ is) ∧
      (l.tsm.waiting = none → ResponsesOk l₀ is →
        ∀ k d, (received is)[k]? = some d → Genuine (transIdOf (k + 1)) d) := by
  obtain ⟨l₀, h₀, -⟩ := mStart_rel t
  refine ⟨l₀, h₀, fun is l os hr => ?_⟩
  obtain ⟨n, hstand, hturn⟩ := mRun_standing h₀ hr
  refine ⟨fun hall => hturn.mp fun k d _ hd => hall k d hd, fun hwait hok k d hd => ?_⟩
  have hlen := hstand.consumed.2 hwait
  obtain ⟨hk, -⟩ := List.getElem?_eq_some_iff.mp hd
  exact hturn.mpr hok k d (hlen ▸ hk) hd

theorem mRun_responses_resend : ∃ l₀ l os, mStart Tsm.zeroed = some l₀ ∧ run mStep l₀ resendInputs = some (l, os) ∧
    entered .receivedAll os = [1] ∧ ResponsesOk l₀ resendInputs := by
  have heval : (mStart Tsm.zeroed).bind (fun l₀ => (run mStep l₀ resendInputs).map fun r =>
      (entered .receivedAll r.2, received resendInputs)) = some ([1], [singleFrame 1]) := by decide +kernel
  obtain ⟨l₀, h₀, hrun⟩ := Option.bind_eq_some_iff.mp heval
  obtain ⟨⟨l, os⟩, hr, hfacts⟩ := Option.map_eq_some_iff.mp hrun
  simp only [Prod.mk.injEq] at hfacts
  obtain ⟨l₁, h₁, hall⟩ := mRun_responses Tsm.zeroed
  cases h₀.symm.trans h₁
  refine ⟨l₀, l, os, h₀, hr, hfacts.1, (hall _ _ _ hr).1 fun k d hd => ?_⟩
  rw [hfacts.2, List.getElem?_singleton] at hd
  split_ifs at hd with hk
  obtain rfl := Option.some.inj hd
  subst hk
  exact ⟨by decide +kernel, by decide +kernel⟩

/-- The response to transaction 1 arrives again while the master waits for the one to transaction 2. -/
def duplicateInputs : List Input :=
  [.pass ⟨0, 0⟩, .pass ⟨0, 0⟩, .call, .sent, .pass ⟨0, 100000⟩, .call, .received (some (singleFrame 1)),
    .pass ⟨0, 200000⟩, .pass ⟨0, 200000⟩, .pass ⟨0, 200000⟩, .pass ⟨0, 200000⟩, .call, .sent, .pass ⟨0, 300000⟩, .call,
    .received (some (singleFrame 1))]

/-- The master takes the duplicate for its response, and transaction 2 ends unanswered. -/
theorem mRun_takes_duplicate : ∃ l₀ l os, mStart Tsm.zeroed = some l₀ ∧
    run mStep l₀ (duplicateInputs ++ [.pass ⟨0, 400000⟩]) = some (l, os) ∧ entered .receivedAll os = [1, 2] ∧
    ¬ ResponsesOk l₀ (duplicateInputs ++ [.pass ⟨0, 400000⟩]) := by
  have heval : (mStart Tsm.zeroed).bind (fun l₀ => (run mStep l₀ duplicateInputs).bind fun r =>
      (mStep r.1 (.pass ⟨0, 400000⟩)).map fun r' =>
        (entered .receivedAll (r.2 ++ r'.2), r'.1.llcState, r.1.tsm.transId, r.1.tsm.waiting)) =
      some ([1, 2], .receivedAll, 2, some (singleFrame 1)) := by decide +kernel
  obtain ⟨l₀, h₀, hrun⟩ := Option.bind_eq_some_iff.mp heval
  obtain ⟨⟨l, os⟩, hr, hrest⟩ := Option.bind_eq_some_iff.mp hrun
  obtain ⟨⟨l', o⟩, hs, hfacts⟩ := Option.map_eq_some_iff.mp hrest
  simp only [Prod.mk.injEq] at hfacts
  obtain ⟨hentered, hst, htid, hwait⟩ := hfacts
  refine ⟨l₀, l', os ++ o, h₀, run_snoc.mpr ⟨l, os, o, hr, hs, rfl⟩, hentered, fun hok => ?_⟩
  obtain ⟨-, d, hd, -, hid⟩ := (Along.last hok hr l' o hs).ends hst
  rw [hwait] at hd
  obtain rfl := Option.some.inj hd
  rw [htid] at hid
  exact absurd hid (by decide +kernel)

end LoraBridge
