import LoraBridge.Channel

/-!
# The invariant of the two parties

`Agreeing c n k`: the master has completed `c` transactions and is in transaction `n`, the slave has accepted `k`. There
is at most one packet, its content is that of transaction `n`, and `k` is `n` as soon as a response is on its way. Every
step of the master, the slave and the channel keeps this (`Agreeing.master`, `Agreeing.slave`, `Agreeing.channel`).
-/

set_option autoImplicit false

namespace LoraBridge

/-- The packet of transaction `n`, or a damaged one. -/
def Clean (n : Nat) (d : PackData) : Prop := d = frame n ∨ stkTestPackChecksumm d = false

/-- The number of packets in the channel. -/
def channelLoad (air inbuf : Side → Option PackData) : Nat :=
  (air .master).toList.length + (inbuf .master).toList.length + (air .slave).toList.length +
    (inbuf .slave).toList.length

structure Agreeing (c n k : Nat) (a : Station LlcStateM) (b : Station LlcStateS) (air inbuf : Side → Option PackData) :
    Prop where
  turn : Turn (b.load + b.due + channelLoad air inbuf) a
  count : n = if a.st = .idle then c else c + 1
  near : k = n ∨ k + 1 = n
  masterId : a.transId = transIdOf n
  masterResend : ∀ d, a.resend = some d → d = frame n
  masterSend : ∀ d, a.send = some d → d = frame n
  request : ∀ d, air .master = some d ∨ inbuf .slave = some d → Clean n d
  requested : ∀ d, b.recv = some d → d = frame n
  slaveId : b.transId = if k = 0 then transIdNone else transIdOf k
  kept : k ≠ 0 → b.st ≠ .receivedAll → b.resend = some (frame k)
  slaveSend : ∀ d, b.send = some d → d = frame k
  response : ∀ d, air .slave = some d ∨ inbuf .master = some d → Clean n d ∧ k = n
  responded : ∀ d, a.recv = some d → d = frame n ∧ k = n
  answered : a.st = .idle ∨ a.st = .receivedAll ∨ b.due ≠ 0 ∨ b.place ≠ .sending ∧ b.send.isSome → k = n
  tested : a.st = .receivedAll → a.testTransId = a.transId
  silent : a.stderr = [] ∧ b.stderr = []

variable {c n k : Nat} {a a' : Station LlcStateM} {b b' : Station LlcStateS} {air inbuf : Side → Option PackData}
  {i : Input} {x y : Option PackData}

/-! ## The channel -/

/-- Inputs and events of a side move packets between it and the channel. -/
theorem channelLoad_step {σ : Type} (air : Side → Option PackData) (o : List (Event σ)) (x : Side)
    (htake : takes (inbuf x) i = some y) :
    channelLoad (Function.update air x (puts (air x) o)) (Function.update inbuf x y) + i.packet.toList.length ≤
      channelLoad air inbuf + (transmitted o).length := by
  have hputs : (puts (air x) o).toList.length ≤ (air x).toList.length + (transmitted o).length := by
    rw [puts]
    cases transmitted o <;> simp
    omega
  have htakes : y.toList.length + i.packet.toList.length ≤ (inbuf x).toList.length := by
    unfold takes at htake
    split at htake
    · rename_i d
      split_ifs at htake with hin
      cases htake
      rw [hin, Input.packet]
      split_ifs <;> simp
    · rename_i hne
      cases htake
      have hpacket : i.packet = none := by
        unfold Input.packet
        split
        · exact absurd rfl (hne _)
        · rfl
      simp [hpacket]
  cases x <;> simp only [channelLoad, Function.update_self, ne_eq, reduceCtorEq, not_false_eq_true,
    Function.update_of_ne] <;> omega

theorem takes_mem (htake : takes y i = some x) {d : PackData} (hd : x = some d) : y = some d := by
  unfold takes at htake
  split at htake
  · split_ifs at htake
    cases htake
    cases hd
  · cases htake
    exact hd

/-- A packet that a side receives was in its input buffer. -/
theorem takes_packet (htake : takes y i = some x) {d : PackData} (hd : i.packet = some d) :
    y = some d ∧ stkTestPackChecksumm d = true := by
  unfold Input.packet at hd
  split at hd
  · rename_i d'
    split_ifs at hd with htest
    cases hd
    simp only [takes] at htake
    split_ifs at htake with hin
    exact ⟨hin, htest⟩
  · cases hd

theorem puts_mem {σ : Type} {o : List (Event σ)} {d : PackData} (h : puts y o = some d) :
    d ∈ transmitted o ∨ y = some d := by
  rw [puts] at h
  cases htx : transmitted o with
  | nil => exact Or.inr (by simpa [htx] using h)
  | cons e _ => exact Or.inl (by simpa [htx] using Or.inl h.symm)

theorem Clean.valid {d : PackData} (h : Clean n d) (htest : stkTestPackChecksumm d = true) : d = frame n := by
  rcases h with h | h
  · exact h
  · rw [htest] at h
    cases h

/-- Outside `sendAll` there is no packet anywhere. -/
theorem Agreeing.empty (h : Agreeing c n k a b air inbuf) (hst : a.st ≠ .sendAll) :
    b.load = 0 ∧ b.due = 0 ∧ (∀ x, air x = none) ∧ ∀ x, inbuf x = none := by
  have hnone := h.turn.turn hst
  simp only [channelLoad] at hnone
  refine ⟨by omega, by omega, fun x => ?_, fun x => ?_⟩
  · have hlen : (air x).toList.length = 0 := by cases x <;> omega
    cases hair : air x <;> simp_all
  · have hlen : (inbuf x).toList.length = 0 := by cases x <;> omega
    cases hin : inbuf x <;> simp_all

/-! ## The steps of the master -/

theorem Agreeing.master {o : List (Event LlcStateM)} (h : Agreeing c n k a b air inbuf) (hmove : MMove a i a' o)
    (htake : takes (inbuf .master) i = some y)
    (hquiet : a'.st = .resend → b.load + b.due + channelLoad air inbuf = 0) :
    ∃ c' n', Agreeing c' n' k a' b (Function.update air .master (puts (air .master) o))
        (Function.update inbuf .master y) ∧ transactions c' = transactions c ++ entered .idle o := by
  have hturn : Turn (b.load + b.due + channelLoad (Function.update air .master (puts (air .master) o))
      (Function.update inbuf .master y)) a' := by
    have hload := channelLoad_step air o .master htake
    exact hmove.turn h.turn hquiet (by omega)
  have hrequest : ∀ n', n' = n ∨ a.st ≠ .sendAll → (∀ d ∈ transmitted o, d = frame n') →
      ∀ d, Function.update air .master (puts (air .master) o) .master = some d ∨
        Function.update inbuf .master y .slave = some d → Clean n' d := by
    intro n' hn hsent d hd
    simp only [Function.update_self, ne_eq, reduceCtorEq, not_false_eq_true, Function.update_of_ne] at hd
    rcases hd with hd | hd
    · rcases puts_mem hd with hd | hd
      · exact Or.inl (hsent d hd)
      · rcases hn with rfl | hst
        · exact h.request d (Or.inl hd)
        · rw [(h.empty hst).2.2.1] at hd
          cases hd
    · rcases hn with rfl | hst
      · exact h.request d (Or.inr hd)
      · rw [(h.empty hst).2.2.2] at hd
        cases hd
  have hresponse : ∀ n', n' = n ∨ a.st ≠ .sendAll →
      ∀ d, Function.update air .master (puts (air .master) o) .slave = some d ∨
        Function.update inbuf .master y .master = some d → Clean n' d ∧ k = n' := by
    intro n' hn d hd
    simp only [Function.update_self, ne_eq, reduceCtorEq, not_false_eq_true, Function.update_of_ne] at hd
    have hd' : air .slave = some d ∨ inbuf .master = some d := hd.imp id (takes_mem htake)
    rcases hn with rfl | hst
    · exact h.response d hd'
    · rw [(h.empty hst).2.2.1, (h.empty hst).2.2.2] at hd'
      rcases hd' with hd' | hd' <;> cases hd'
  cases hmove with
  | start hp hst hsend hrecv =>
    have hne : a.st ≠ .sendAll := by rw [hst]; decide
    have hcount : n = c := by simpa [hst] using h.count
    have hk : k = n := h.answered (Or.inl hst)
    have hid : nextTransId a.transId = transIdOf (n + 1) := by rw [h.masterId, nextTransId_transIdOf]
    obtain ⟨hload, hdue, -, -⟩ := h.empty hne
    refine ⟨c, n + 1, ?_, by simp [entered_enter]⟩
    exact { h with
      turn := hturn
      count := by simp [hcount]
      near := Or.inr (by rw [hk])
      masterId := hid
      masterResend := by simp [hid, frame]
      masterSend := by simp [hid, frame]
      request := hrequest (n + 1) (Or.inr hne) (by simp)
      requested := fun d hd => by simp [Station.load, hd] at hload
      response := hresponse (n + 1) (Or.inr hne)
      responded := fun d hd => by simp [hrecv] at hd
      answered := by
        rintro (hi | hi | hi | ⟨hplace, hsome⟩)
        · cases hi
        · cases hi
        · exact absurd hdue hi
        · simp [Station.load, hplace] at hload
          simp [hload.1] at hsome
      tested := by simp }
  | response hp hst hrecv hsend hresend =>
    obtain ⟨hd, hk⟩ := h.responded _ hrecv
    refine ⟨c, n, ?_, by simp [entered_enter]⟩
    exact { h with
      turn := hturn
      count := by simpa [hst] using h.count
      masterId := by simpa using h.masterId
      masterResend := by simpa using h.masterResend
      masterSend := by simpa using h.masterSend
      request := hrequest n (Or.inl rfl) (by simp)
      response := hresponse n (Or.inl rfl)
      responded := by simp
      answered := fun _ => hk
      tested := fun _ => by simp [hd, h.masterId]
      silent := by simp [Station.check, hd, h.masterId, h.silent] }
  | timeout hp hst hrecv hsend hresend hexp =>
    refine ⟨c, n, ?_, by simp [entered_enter]⟩
    exact { h with
      turn := hturn
      count := by simpa [hst] using h.count
      request := hrequest n (Or.inl rfl) (by simp)
      response := hresponse n (Or.inl rfl)
      answered := fun hi => h.answered (Or.inr (Or.inr (by simpa using hi)))
      tested := by simp }
  | wait hp hst hrecv hresend hexp =>
    refine ⟨c, n, ?_, by simp⟩
    exact { h with
      turn := hturn
      request := hrequest n (Or.inl rfl) (by simp)
      response := hresponse n (Or.inl rfl) }
  | complete hp hst hsend hrecv =>
    have hcount : n = c + 1 := by simpa [hst] using h.count
    refine ⟨c + 1, n, ?_, by simp [entered_enter, transactions_succ, h.masterId, hcount]⟩
    exact { h with
      turn := hturn
      count := by simp [hcount]
      masterId := by simpa using h.masterId
      masterResend := by simpa using h.masterResend
      masterSend := by simpa using h.masterSend
      request := hrequest n (Or.inl rfl) (by simp)
      response := hresponse n (Or.inl rfl)
      responded := by simpa using h.responded
      answered := fun _ => h.answered (Or.inr (Or.inl hst))
      tested := by simp
      silent := by simp [Station.check, h.tested hst, h.silent] }
  | retry hp hst hsend hrecv hresend =>
    refine ⟨c, n, ?_, by simp [entered_enter]⟩
    exact { h with
      turn := hturn
      count := by simpa [hst] using h.count
      masterSend := fun d hd => by cases hd; exact h.masterResend _ hresend
      request := hrequest n (Or.inl rfl) (by simp)
      response := hresponse n (Or.inl rfl)
      answered := fun hi => h.answered (Or.inr (Or.inr (by simpa using hi)))
      tested := by simp }
  | call hp hst hrecv hresend hsend =>
    refine ⟨c, n, ?_, by simp⟩
    exact { h with
      turn := hturn
      request := hrequest n (Or.inl rfl) (by simpa using h.masterSend _ hsend)
      response := hresponse n (Or.inl rfl) }
  | listen hp hst hrecv hresend hsend =>
    refine ⟨c, n, ?_, by simp⟩
    exact { h with
      turn := hturn
      request := hrequest n (Or.inl rfl) (by simp)
      response := hresponse n (Or.inl rfl) }
  | sent hp hst hrecv hresend =>
    refine ⟨c, n, ?_, by simp⟩
    exact { h with
      turn := hturn
      masterSend := by simp
      request := hrequest n (Or.inl rfl) (by simp)
      response := hresponse n (Or.inl rfl) }
  | fail hp hst hrecv hsend hresend hpacket =>
    refine ⟨c, n, ?_, by simp⟩
    exact { h with
      turn := hturn
      request := hrequest n (Or.inl rfl) (by simp)
      response := hresponse n (Or.inl rfl) }
  | arrive hp hst hrecv hsend hresend hpacket =>
    obtain ⟨hin, htest⟩ := takes_packet htake hpacket
    obtain ⟨hclean, hk⟩ := h.response _ (Or.inr hin)
    refine ⟨c, n, ?_, by simp⟩
    exact { h with
      turn := hturn
      request := hrequest n (Or.inl rfl) (by simp)
      response := hresponse n (Or.inl rfl)
      responded := fun d hd => by cases hd; exact ⟨hclean.valid htest, hk⟩ }

/-! ## The steps of the slave -/

/-- A packet that the slave has not answered is of a transaction with a number. -/
theorem Agreeing.pos (h : Agreeing c n k a b air inbuf) (hload : 0 < b.load + b.due) : 0 < n := by
  by_cases hst : a.st = .sendAll
  · have hcount := h.count
    rw [hst, if_neg nofun] at hcount
    omega
  · obtain ⟨hb, hdue, -⟩ := h.empty hst
    omega

/-- A response that is due answers the request of the master. -/
theorem Agreeing.due (h : Agreeing c n k a b air inbuf) (hdue : b.due ≠ 0) : k = n ∧ 0 < n :=
  ⟨h.answered (Or.inr (Or.inr (Or.inl hdue))), h.pos (by omega)⟩

/-- The response that the slave repeats is the last one it has sent. -/
theorem Agreeing.resent (h : Agreeing c n k a b air inbuf) (hst : b.st = .resend) :
    k = n ∧ b.resend = some (frame k) := by
  obtain ⟨hk, hn⟩ := h.due (by simp [Station.due, hst])
  exact ⟨hk, h.kept (by omega) (by rw [hst]; decide)⟩

theorem Agreeing.slave {o : List (Event LlcStateS)} (h : Agreeing c n k a b air inbuf) (hmove : SMove b i b' o)
    (htake : takes (inbuf .slave) i = some y) :
    ∃ k', Agreeing c n k' a b' (Function.update air .slave (puts (air .slave) o)) (Function.update inbuf .slave y) ∧
      transactions k' = transactions k ++ entered .receivedAll o := by
  have hturn : Turn (b'.load + b'.due + channelLoad (Function.update air .slave (puts (air .slave) o))
      (Function.update inbuf .slave y)) a := by
    have hload := channelLoad_step air o .slave htake
    have hmoved := hmove.load
    exact h.turn.mono (by omega)
  have hrequest : ∀ d, Function.update air .slave (puts (air .slave) o) .master = some d ∨
      Function.update inbuf .slave y .slave = some d → Clean n d := by
    intro d hd
    simp only [Function.update_self, ne_eq, reduceCtorEq, not_false_eq_true, Function.update_of_ne] at hd
    exact h.request d (hd.imp id (takes_mem htake))
  have hresponse : ∀ k', k' = k ∨ k' = n → (∀ d ∈ transmitted o, d = frame n ∧ k' = n) →
      ∀ d, Function.update air .slave (puts (air .slave) o) .slave = some d ∨
        Function.update inbuf .slave y .master = some d → Clean n d ∧ k' = n := by
    intro k' hk' hsent d hd
    have hk : k = n → k' = n := fun hk => by omega
    simp only [Function.update_self, ne_eq, reduceCtorEq, not_false_eq_true, Function.update_of_ne] at hd
    rcases hd with hd | hd
    · rcases puts_mem hd with hd | hd
      · exact ⟨Or.inl (hsent d hd).1, (hsent d hd).2⟩
      · exact (h.response d (Or.inl hd)).imp id hk
    · exact (h.response d (Or.inr hd)).imp id hk
  have hquiet : ∀ k', k' = k ∨ k' = n → transmitted o = [] → ∀ d,
      Function.update air .slave (puts (air .slave) o) .slave = some d ∨
        Function.update inbuf .slave y .master = some d → Clean n d ∧ k' = n := by
    intro k' hk' hsent
    exact hresponse k' hk' (by simp [hsent])
  cases hmove with
  | rest hp hst hrecv =>
    refine ⟨k, ?_, by simp⟩
    exact { h with
      turn := hturn
      request := hrequest
      response := hquiet k (Or.inl rfl) rfl
      answered := fun hi => h.answered (hi.imp_right
        (Or.imp_right (Or.imp_right fun hi => ⟨by rw [hp]; decide, hi.2⟩))) }
  | discard hp hst hrecv hsend htype hx hkeep =>
    have hd := h.requested _ hrecv
    exact absurd (by simp [hd]) htype
  | again hp hst hrecv hsend htype hid =>
    have hd := h.requested _ hrecv
    have hn : 0 < n := h.pos (by simp [Station.load, hrecv])
    have hk : k = n := by
      rw [hd, stkGetTransId_frame, h.slaveId] at hid
      rcases h.near with hk | hk
      · exact hk
      · split_ifs at hid with hzero
        · exact absurd hid (transIdOf_ne_none n)
        · rw [← hk] at hid
          exact absurd hid (transIdOf_succ_ne k)
    refine ⟨k, ?_, by simp [entered_enter]⟩
    exact { h with
      turn := hturn
      request := hrequest
      requested := by simp
      kept := fun hzero _ => h.kept hzero (by rw [hst]; decide)
      response := hquiet k (Or.inl rfl) rfl
      answered := fun _ => hk }
  | accept hp hst hrecv hsend htype hid =>
    have hd := h.requested _ hrecv
    have hn : 0 < n := h.pos (by simp [Station.load, hrecv])
    have hk : k + 1 = n := by
      rcases h.near with hk | hk
      · rw [hd, stkGetTransId_frame, h.slaveId, if_neg (by omega), hk] at hid
        exact absurd rfl hid
      · exact hk
    refine ⟨n, ?_, by simp [entered_enter, ← hk, transactions_succ, hd]⟩
    exact { h with
      turn := hturn
      near := Or.inl rfl
      request := hrequest
      requested := by simp
      slaveId := by rw [if_neg (by omega), hd, stkGetTransId_frame]
      kept := fun _ hne => absurd rfl hne
      slaveSend := fun d hd => by simp [hsend] at hd
      response := hquiet n (Or.inr rfl) rfl
      responded := fun d hd => ⟨(h.responded d hd).1, rfl⟩
      answered := fun _ => rfl }
  | respond hp hst hsend hrecv hle =>
    obtain ⟨hk, hn⟩ := h.due (show b.due ≠ 0 by simp [Station.due, hst])
    have hid : b.transId = transIdOf k := by rw [h.slaveId, if_neg (by omega)]
    refine ⟨k, ?_, by simp [entered_enter]⟩
    exact { h with
      turn := hturn
      request := hrequest
      kept := fun _ _ => by simp [hid, frame]
      slaveSend := by simp [hid, frame]
      response := hquiet k (Or.inl rfl) rfl
      answered := fun _ => hk }
  | finish hp hst hrecv =>
    refine ⟨k, ?_, by simp [entered_enter]⟩
    exact { h with
      turn := hturn
      request := hrequest
      kept := fun hzero _ => h.kept hzero (by rw [hst]; decide)
      response := hquiet k (Or.inl rfl) rfl
      answered := fun hi => h.answered (by simpa [Station.due, hst] using hi) }
  | repeatLast hp hst hsend hrecv hresend =>
    obtain ⟨hk, hkept⟩ := h.resent hst
    refine ⟨k, ?_, by simp [entered_enter]⟩
    exact { h with
      turn := hturn
      request := hrequest
      kept := fun _ _ => hkept
      slaveSend := fun d hd => by
        cases hd
        exact Option.some.inj (hresend.symm.trans hkept)
      response := hquiet k (Or.inl rfl) rfl
      answered := fun _ => hk }
  | echo hp hst hsend hrecv hresend hlast =>
    obtain ⟨-, hkept⟩ := h.resent hst
    rw [hresend] at hkept
    cases hkept
  | call hp hst hrecv hsend =>
    have hk : k = n := h.answered (Or.inr (Or.inr (Or.inr ⟨by rw [hp]; decide, by rw [hsend]; rfl⟩)))
    have hd := h.slaveSend _ hsend
    refine ⟨k, ?_, by simp⟩
    exact { h with
      turn := hturn
      request := hrequest
      response := hresponse k (Or.inl rfl) (by simpa using ⟨by rw [hd, hk], hk⟩)
      answered := fun _ => hk }
  | listen hp hst hrecv hsend =>
    refine ⟨k, ?_, by simp⟩
    exact { h with
      turn := hturn
      request := hrequest
      response := hquiet k (Or.inl rfl) rfl
      answered := fun hi => h.answered (by simpa [Station.due, hst, hsend] using hi) }
  | sent hp hst hrecv =>
    refine ⟨k, ?_, by simp⟩
    exact { h with
      turn := hturn
      request := hrequest
      slaveSend := by simp
      response := hquiet k (Or.inl rfl) rfl
      answered := fun hi => h.answered (hi.imp_right (Or.imp_right (Or.imp_right (by simp)))) }
  | fail hp hst hrecv hsend hpacket =>
    refine ⟨k, ?_, by simp⟩
    exact { h with
      turn := hturn
      request := hrequest
      response := hquiet k (Or.inl rfl) rfl
      answered := fun hi => h.answered (hi.imp_right (Or.imp_right (Or.imp_right (by simp [hsend])))) }
  | arrive hp hst hrecv hsend hpacket =>
    obtain ⟨hin, htest⟩ := takes_packet htake hpacket
    refine ⟨k, ?_, by simp⟩
    exact { h with
      turn := hturn
      request := hrequest
      requested := fun d hd => by cases hd; exact (h.request _ (Or.inr hin)).valid htest
      response := hquiet k (Or.inl rfl) rfl
      answered := fun hi => h.answered (hi.imp_right (Or.imp_right (Or.imp_right (by simp [hsend])))) }

/-! ## The steps of the channel -/

/-- The channel makes no packet; what it turns a packet into fails the checksum. -/
theorem Agreeing.channel {air' inbuf' : Side → Option PackData} (h : Agreeing c n k a b air inbuf)
    (hload : channelLoad air' inbuf' ≤ channelLoad air inbuf)
    (hfrom : ∀ x d, air' x = some d ∨ inbuf' x.other = some d →
      ∃ d₀, (air x = some d₀ ∨ inbuf x.other = some d₀) ∧ (d = d₀ ∨ stkTestPackChecksumm d = false)) :
    Agreeing c n k a b air' inbuf' := by
  have hclean : ∀ d₀ d, Clean n d₀ → d = d₀ ∨ stkTestPackChecksumm d = false → Clean n d := by
    rintro d₀ d hd₀ (rfl | hbad)
    · exact hd₀
    · exact Or.inr hbad
  exact { h with
    turn := h.turn.mono (by omega)
    request := fun d hd => by
      obtain ⟨d₀, hd₀, hsame⟩ := hfrom .master d hd
      exact hclean d₀ d (h.request d₀ hd₀) hsame
    response := fun d hd => by
      obtain ⟨d₀, hd₀, hsame⟩ := hfrom .slave d hd
      exact (h.response d₀ hd₀).imp (fun hc => hclean d₀ d hc hsame) id }

theorem Agreeing.lose (h : Agreeing c n k a b air inbuf) (x : Side) :
    Agreeing c n k a b (Function.update air x none) inbuf := by
  refine h.channel ?_ fun z d hd => ?_
  · cases x <;> simp [channelLoad]
  · by_cases hz : z = x
    · subst hz
      rw [Function.update_self] at hd
      exact ⟨d, Or.inr (hd.resolve_left nofun), Or.inl rfl⟩
    · rw [Function.update_of_ne hz] at hd
      exact ⟨d, hd, Or.inl rfl⟩

theorem Agreeing.spoil (h : Agreeing c n k a b air inbuf) {x : Side} {d : PackData} (hsome : (air x).isSome)
    (hbad : stkTestPackChecksumm d = false) : Agreeing c n k a b (Function.update air x (some d)) inbuf := by
  obtain ⟨d₀, hd₀⟩ := Option.isSome_iff_exists.mp hsome
  refine h.channel ?_ fun z d' hd' => ?_
  · cases x <;> simp [channelLoad, hd₀]
  · by_cases hz : z = x
    · subst hz
      rw [Function.update_self] at hd'
      rcases hd' with hd' | hd'
      · cases hd'
        exact ⟨d₀, Or.inl hd₀, Or.inr hbad⟩
      · exact ⟨d', Or.inr hd', Or.inl rfl⟩
    · rw [Function.update_of_ne hz] at hd'
      exact ⟨d', hd', Or.inl rfl⟩

theorem Side.other_ne {x z : Side} (h : z ≠ x) : z.other ≠ x.other := by
  cases x <;> cases z <;> simp_all [Side.other]

theorem Agreeing.deliver (h : Agreeing c n k a b air inbuf) (x : Side) :
    Agreeing c n k a b (Function.update air x none)
      (Function.update inbuf x.other ((inbuf x.other).or (air x))) := by
  refine h.channel ?_ fun z d hd => ?_
  · cases x <;> simp only [channelLoad, Side.other, Function.update_self, ne_eq, reduceCtorEq, not_false_eq_true,
      Function.update_of_ne]
    · cases hin : inbuf .slave <;> simp
      omega
    · cases hin : inbuf .master <;> simp
  · by_cases hz : z = x
    · subst hz
      rw [Function.update_self, Function.update_self, Option.or_eq_some_iff] at hd
      rcases hd with hd | hd | ⟨-, hd⟩
      · cases hd
      · exact ⟨d, Or.inr hd, Or.inl rfl⟩
      · exact ⟨d, Or.inl hd, Or.inl rfl⟩
    · rw [Function.update_of_ne hz, Function.update_of_ne (Side.other_ne hz)] at hd
      exact ⟨d, hd, Or.inl rfl⟩

end LoraBridge
