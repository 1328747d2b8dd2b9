import LoraBridge.RealTime

/-!
# The time of a transaction

Over an emulator that loses and damages nothing a transaction takes two times on air and four times the granularity of
the looks for data, and 45 times what a step may be late. The request is charged against the start of the timer until
the slave has answered it (`Timed.busy`), the response from there until the master has it (`answerRest`); so
transactions are completed at that rate (`throughput`).
-/

set_option autoImplicit false

namespace LoraBridge

open Transducer

variable {cfg : WlConfig} {id : ConnId} {n n' : System} {a a' : Station LlcStateM} {b b' : Station LlcStateS}
  {slack time : Int} {c c' : Clocked System ConnId} {t : WlTick}

/-! ## What the master may still take -/

/-- A packet has come for the master. -/
def MasterBusy (n : System) (a : Station LlcStateM) : Prop :=
  a.recv.isSome = true ∨ (n.emul.devs.dev .id0).inputBuff.isRecieved = true ∨
    (∃ d, n.emul.pc .id0 = .recvCheck d) ∨ ∃ d, n.ret .id0 = some (.recv (some d))

/-- The time that the master may take until it has consumed it. -/
def answerRest (slack : Int) (n : System) (a : Station LlcStateM) : Int :=
  match a.place with
  | .llc => if a.recv.isSome then slack else 10 * slack
  | .mac => 9 * slack
  | .sending => (n.emul.pc .id0).sendRest slack + 10 * slack
  | .receiving => (n.emul.pc .id0).recvRest slack (n.ret .id0) + slack

theorem answerRest_pos (n : System) (a : Station LlcStateM) (hslack : 0 ≤ slack) : slack ≤ answerRest slack n a := by
  have hsend := WlPc.sendRest_pos (n.emul.pc .id0) hslack
  have hrecv := WlPc.recvRest_pos (n.emul.pc .id0) (n.ret .id0) hslack
  unfold answerRest
  split
  · split_ifs <;> omega
  · omega
  · omega
  · omega

theorem answerRest_le (n : System) (a : Station LlcStateM) (hslack : 0 ≤ slack) (hput : (n.emul.pc .id0).carried = 0) :
    answerRest slack n a ≤ pollTime + 13 * slack := by
  have hsend := WlPc.sendRest_le hslack hput
  have hrecv := WlPc.recvRest_le (n.emul.pc .id0) (n.ret .id0) hslack
  unfold answerRest
  unfold pollTime at hrecv ⊢
  split
  · split_ifs <;> omega
  · omega
  · omega
  · omega

theorem flight_of_carried (h : (n.emul.pc id).carried = 1) : 1 ≤ n.flight := by
  unfold System.flight Emul.flight
  cases id <;> omega

theorem flight_of_ret (h : retPackets (n.ret id) = 1) : 1 ≤ n.flight := by
  unfold System.flight
  cases id <;> omega

theorem MasterBusy.flight (h : MasterBusy n a) (hrecv : a.recv = none) : 1 ≤ n.flight := by
  rcases h with h | h | ⟨d, h⟩ | ⟨d, h⟩
  · rw [hrecv] at h
    cases h
  · have := flight_of_full h
    omega
  · have hcarried : (n.emul.pc .id0).carried = 1 := by rw [h]; rfl
    exact flight_of_carried hcarried
  · have hret : retPackets (n.ret .id0) = 1 := by rw [h]; rfl
    exact flight_of_ret hret

/-- A packet that the master's call has yet to return is in the input buffer. -/
theorem MasterBusy.full (h : MasterBusy n a) (hrecv : a.recv = none) (hpc : ∀ d, n.emul.pc .id0 ≠ .recvCheck d)
    (hret : n.ret .id0 = none) : (n.emul.devs.dev .id0).inputBuff.isRecieved = true := by
  rcases h with h | h | ⟨d, h⟩ | ⟨d, h⟩
  · rw [hrecv] at h
    cases h
  · exact h
  · exact absurd h (hpc d)
  · rw [hret] at h
    cases h

/-- **A step of the master's loop** brings it nearer to its end. -/
theorem Ordered.answer_rest {i : Input} {o : List (Event LlcStateM)} (h : Ordered n a b) (hmove : MMove a i a' o)
    (hcalled : Called a.macRecvTimeout .id0 i (transmitted o) n n') (hst : a.st = .sendAll) (hst' : a'.st = .sendAll)
    (hbusy : MasterBusy n' a') : MasterBusy n a ∧ answerRest slack n' a' + slack ≤ answerRest slack n a := by
  have hone := h.turn.single
  obtain ⟨hcall, hdevs, -⟩ := hcalled
  have hfull : (n'.emul.devs.dev .id0).inputBuff.isRecieved = true →
      (n.emul.devs.dev .id0).inputBuff.isRecieved = true := by
    rw [hdevs]
    exact fun hin => hin
  cases hmove with
  | start hp hst₀ | complete hp hst₀ | retry hp hst₀ =>
    rw [hst] at hst₀
    cases hst₀
  | response | timeout => cases hst'
  | wait hp hst hrecv =>
    obtain ⟨hpc, hret⟩ := hcall.pass_eq
    unfold MasterBusy at hbusy ⊢
    rw [hpc, hret, hdevs] at hbusy
    refine ⟨hbusy, ?_⟩
    simp only [answerRest, hp, hrecv, Option.isSome_none, Bool.false_eq_true, if_false]
    omega
  | call hp hst hrecv hresend hsend =>
    -- no room for a second packet
    obtain ⟨hpc, hret⟩ := hcall.send_eq
    have hin := hbusy.full hrecv (fun d hd => by rw [hpc] at hd; cases hd) hret
    have hflight := flight_of_full (hfull hin)
    simp only [Station.load, hp, hsend, reduceCtorEq, if_false, Option.toList_some, List.length_singleton] at hone
    omega
  | listen hp hst hrecv hresend hsend =>
    obtain ⟨hpc, hret⟩ := hcall.listen_eq
    have hin := hbusy.full hrecv (fun d hd => by rw [hpc] at hd; cases hd) hret
    refine ⟨Or.inr (Or.inl (hfull hin)), ?_⟩
    simp only [answerRest, hp, hpc, WlPc.recvRest]
    omega
  | sent hp hst hrecv =>
    obtain ⟨⟨hpc, -⟩, hpc', hret'⟩ := hcall.sent_eq
    have hin := hbusy.full hrecv (fun d hd => by rw [hpc'] at hd; cases hd) hret'
    refine ⟨Or.inr (Or.inl (hfull hin)), ?_⟩
    simp only [answerRest, hp, hpc, hrecv, WlPc.sendRest, Option.isSome_none, Bool.false_eq_true, if_false]
    omega
  | @fail res hp hst hrecv hsend =>
    obtain ⟨⟨hpc, hret⟩, hpc', hret'⟩ := hcall.received_eq
    have hin := hfull (hbusy.full hrecv (fun d hd => by rw [hpc'] at hd; cases hd) hret')
    refine ⟨Or.inr (Or.inl hin), ?_⟩
    cases res with
    | some d =>
      have hflight := flight_of_full hin
      simp only [hret, retPackets, Option.map_some, Option.getD_some, WlRet.packets] at hflight
      omega
    | none =>
      simp only [answerRest, hp, hpc, hret, hrecv, WlPc.recvRest, Option.isSome_none, Bool.false_eq_true, if_false,
        if_true]
      omega
  | @arrive res d hp hst hrecv hsend hresend hpacket =>
    obtain ⟨⟨hpc, hret⟩, -⟩ := hcall.received_eq
    obtain ⟨d', rfl⟩ : ∃ d', res = some d' := by
      cases res with
      | none => cases hpacket
      | some d' => exact ⟨d', rfl⟩
    refine ⟨Or.inr (Or.inr (Or.inr ⟨d', hret⟩)), ?_⟩
    simp only [answerRest, hp, hpc, hret, WlPc.recvRest, Option.isSome_some, Option.some.injEq, WlRet.recv.injEq,
      reduceCtorEq, if_false, if_true]
    omega

/-- **A step of the master's call** does so as well, unless it fills the input buffer. -/
theorem Ordered.answer_tick (h : Ordered n a b)
    (htick : CalmTick .id0 t n.emul.devs n'.emul.devs (n.emul.pc .id0) (n'.emul.pc .id0) (n'.ret .id0))
    (hin : n.emul.pc .id0 ≠ .out) (hslack : 0 ≤ slack) (hbusy : MasterBusy n' a)
    (hfull : (n'.emul.devs.dev .id0).inputBuff.isRecieved = true → (n.emul.devs.dev .id0).inputBuff.isRecieved = true) :
    MasterBusy n a ∧ answerRest slack n' a + (n.emul.pc .id0).sleep + slack ≤ answerRest slack n a := by
  have hrecv : a.recv = none := by
    have hinv := h.master.inv
    have hplace := h.masterCall.within hin
    rcases hplace with ⟨hp, -⟩ | ⟨hp, -⟩ <;> cases hst : a.st <;> simp only [MInv, hp, hst] at hinv
    · exact hinv.2.1
    · exact hinv.2.1
  -- it is in the buffer, or has been copied from there
  have hhere : (n.emul.devs.dev .id0).inputBuff.isRecieved = true ∨ ∃ d, n.emul.pc .id0 = .recvCheck d := by
    rcases hbusy with hbusy | hbusy | ⟨d, hbusy⟩ | ⟨d, hbusy⟩
    · rw [hrecv] at hbusy
      cases hbusy
    · exact Or.inl (hfull hbusy)
    · exact htick.here (fun hc => h.calm.ready .id0 (Or.inl hc)) (Or.inl ⟨d, hbusy⟩)
    · exact htick.here (fun hc => h.calm.ready .id0 (Or.inl hc)) (Or.inr ⟨d, hbusy⟩)
  refine ⟨hhere.elim (fun hin' => Or.inr (Or.inl hin')) fun hcopied => Or.inr (Or.inr (Or.inl hcopied)), ?_⟩
  have hnone := h.masterCall.inside hin
  rcases h.masterCall.within hin with ⟨hp, hs⟩ | ⟨hp, hr⟩
  · have hrest := htick.sendRest hs hslack
    simp only [answerRest, hp]
    omega
  · have hrest := htick.recvRest hr hslack (by
      intro w hw
      refine hhere.resolve_right ?_
      rintro ⟨d, hd⟩
      rw [hw] at hd
      cases hd)
    simp only [answerRest, hp, hnone]
    omega

/-! ## The response -/

/-- The time from the start of the timer until the response has been consumed. -/
def responseTime (slack : Int) : Int := 2 * airTime + 4 * pollTime + 43 * slack

structure Awaiting (slack : Int) (c : Clocked System ConnId) (a : Station LlcStateM) : Prop where
  awake : c.wake .id0 ≤ c.clock + pollTime ∨ a.send.isSome = true
  answered : MasterBusy c.state a →
    c.wake .id0 + answerRest slack c.state a ≤ a.llcTimer.startTime.micros + responseTime slack

theorem MMove.timer_kept {i : Input} {o : List (Event LlcStateM)} (h : MMove a i a' o) (hst : a.st = .sendAll)
    (hst' : a'.st = .sendAll) : a'.llcTimer = a.llcTimer := by
  cases h with
  | start hp hst₀ | retry hp hst₀ =>
    rw [hst] at hst₀
    cases hst₀
  | response | timeout | complete => cases hst'
  | _ => rfl

/-- A master that has just started its timer has no packet. -/
theorem MMove.fresh {i : Input} {o : List (Event LlcStateM)} (h : MMove a i a' o) (hst : a.st ≠ .sendAll)
    (hst' : a'.st = .sendAll) : a'.recv = none ∧ transmitted o = [] := by
  cases h with
  | start hp hst₀ hsend hrecv | retry hp hst₀ hsend hrecv => exact ⟨hrecv, rfl⟩
  | response | timeout | complete => cases hst'
  | _ => exact absurd hst' hst

theorem Awaiting.master {i : Input} {o : List (Event LlcStateM)} (h : Punctual slack c a b)
    (ha : a.st = .sendAll → Awaiting slack c a) (hallow : systemTiming.Allows slack c (.master i) time)
    (hmove : MMove a i a' o) (hcalled : Called a.macRecvTimeout .id0 i (transmitted o) c.state n')
    (hflight : n'.flight ≤ c.state.flight + (transmitted o).length) (hst' : a'.st = .sendAll) :
    Awaiting slack (systemTiming.next c (.master i) time n') a' := by
  refine ⟨Or.inl ?_, fun hbusy => ?_⟩
  · rw [wake_master_id0, Timing.next_clock]
    unfold pollTime
    omega
  · rw [Timing.next_state] at hbusy
    by_cases hst : a.st = .sendAll
    · obtain ⟨hbusy', hrest⟩ : MasterBusy c.state a ∧ answerRest slack n' a' + slack ≤ answerRest slack c.state a :=
        h.ordered.answer_rest hmove hcalled hst hst' hbusy
      have hbound := (ha hst).answered hbusy'
      have hle := hallow.le_wake .id0
      rw [wake_master_id0, Timing.next_state, hmove.timer_kept hst hst']
      omega
    · obtain ⟨hrecv, htx⟩ := hmove.fresh hst hst'
      have hnone := h.ordered.turn.turn hst
      have hsome := hbusy.flight hrecv
      rw [htx, List.length_nil] at hflight
      omega

theorem Awaiting.slave {i : Input} {tx : List PackData} {timeout : BitVec 32} (h : Awaiting slack c a)
    (hallow : systemTiming.Allows slack c (.slave i) time) (hcalled : Called timeout .id1 i tx c.state n') :
    Awaiting slack (systemTiming.next c (.slave i) time n') a := by
  obtain ⟨hpc, hret⟩ := hcalled.other .id0 (by decide)
  have hclock := hallow.clock_le
  obtain ⟨hawake, hanswered⟩ := h
  unfold MasterBusy answerRest at hanswered
  refine ⟨hawake.imp_left fun hle => ?_, ?_⟩
  · rw [wake_slave_id0, Timing.next_clock]
    omega
  · unfold MasterBusy answerRest
    rw [wake_slave_id0, Timing.next_state, hpc, hret, hcalled.devs]
    exact hanswered

theorem Ordered.slave_sending (h : Ordered n a b) (hsends : (n.emul.pc .id1).sends = true) : SlaveBusy n b := by
  have hin : n.emul.pc .id1 ≠ .out := fun hout => by rw [hout] at hsends; cases hsends
  rcases h.slaveCall.within hin with ⟨hp, -⟩ | ⟨-, hr⟩
  · have hinv := h.slave.inv
    cases hst : b.st <;> simp only [SInv, hp, hst] at hinv
    exact Or.inl hinv.1
  · exact absurd hr fun hr => WlPc.not_both hsends hr

theorem Awaiting.tick (h : Punctual slack c a b) (ha : Awaiting slack c a) (hslack : 0 ≤ slack) (hst : a.st = .sendAll)
    (hallow : systemTiming.Allows slack c (.tick id t) time)
    (h' : Punctual slack (systemTiming.next c (.tick id t) time n') a b)
    (htick : CalmTick id t c.state.emul.devs n'.emul.devs (c.state.emul.pc id) (n'.emul.pc id) (n'.ret id))
    (hother : ∀ k, k ≠ id → n'.emul.pc k = c.state.emul.pc k ∧ n'.ret k = c.state.ret k)
    (hin : c.state.emul.pc id ≠ .out) : Awaiting slack (systemTiming.next c (.tick id t) time n') a := by
  have hclock := hallow.clock_le
  have hle := hallow.le_wake id
  have hawake : (systemTiming.next c (.tick id t) time n').wake .id0 ≤ time + pollTime ∨ a.send.isSome = true := by
    cases id with
    | id0 =>
      rw [wake_tick]
      rcases (c.state.emul.pc .id0).sleep_le with hsleep | ⟨payload, timeout, hpc⟩
      · exact Or.inl (by omega)
      · refine Or.inr ?_
        obtain ⟨hp, -⟩ := (h.ordered.masterCall.within hin).resolve_right fun hr => by rw [hpc] at hr; cases hr.2
        have hinv := h.ordered.master.inv
        simp only [MInv, hp, hst] at hinv
        exact hinv.1
    | id1 =>
      rw [wake_tick_of_ne (by decide)]
      exact ha.awake.imp_left fun hle => by omega
  refine ⟨hawake, fun hbusy => ?_⟩
  rw [Timing.next_state] at hbusy ⊢
  by_cases hfull : (n'.emul.devs.dev .id0).inputBuff.isRecieved = true ∧
      (c.state.emul.devs.dev .id0).inputBuff.isRecieved = false
  · -- the response has arrived: the rest is counted from now
    obtain ⟨hfull, hempty⟩ := hfull
    have hone := h'.ordered.turn.single
    rw [Timing.next_state] at hone
    have hair : (c.state.emul.devs.dev .id1).outputBuff.isSend = false := by
      refine (htick.filled hfull).resolve_left ?_
      rw [hempty]
      exact Bool.false_ne_true
    have hbusy₁ : SlaveBusy c.state b := h.ordered.slave_sending (by rw [(h.flying .id1 hair).1]; rfl)
    have hbound := (h.timed hst).busy hbusy₁
    have hpos := slaveRest_pos c.state b hslack
    have hle₁ := hallow.le_wake .id1
    have hflight := flight_of_full hfull
    rcases hawake with hawake | hsend
    · have hput : (n'.emul.pc .id0).carried = 0 := by
        have hlane : 1 ≤ n'.emul.devs.lane .id1 := by simp [WlEmulGlobal.lane, ConnId.other, hfull]
        unfold System.flight Emul.flight at hone
        omega
      have hrest := answerRest_le n' a hslack hput
      unfold responseTime
      omega
    · -- the master is still in its send
      have hplace : a.place = .sending := by
        by_contra hp
        obtain ⟨d, hd⟩ := Option.isSome_iff_exists.mp hsend
        simp only [Station.load, hp, if_false, hd, Option.toList_some, List.length_singleton] at hone
        omega
      have hrest := (h'.timed hst).sending hsend
      have hair : airTime = 100000 := rfl
      have hpoll : pollTime = 10000 := rfl
      simp only [masterRest, hplace, Timing.next_state] at hrest
      simp only [answerRest, hplace, responseTime]
      omega
  · have hkept : (n'.emul.devs.dev .id0).inputBuff.isRecieved = true →
        (c.state.emul.devs.dev .id0).inputBuff.isRecieved = true := by
      intro hfull'
      by_contra hempty
      exact hfull ⟨hfull', Bool.eq_false_iff.mpr hempty⟩
    cases id with
    | id0 =>
      obtain ⟨hbusy', hrest⟩ := h.ordered.answer_tick htick hin hslack hbusy hkept
      have hbound := ha.answered hbusy'
      rw [wake_tick]
      omega
    | id1 =>
      obtain ⟨hpc, hret⟩ := hother .id0 (by decide)
      have hbusy' : MasterBusy c.state a := by
        unfold MasterBusy at hbusy ⊢
        rw [hpc, hret] at hbusy
        exact hbusy.imp_right (Or.imp_left hkept)
      have hbound := ha.answered hbusy'
      unfold answerRest at hbound ⊢
      rw [wake_tick_of_ne (by decide), hpc, hret]
      exact hbound

/-! ## Where the packet is -/

theorem Rel.same {σ : Type} {l : Loop σ} {xs ys : Lists} {x y : Station σ} (hx : Rel xs l x) (hy : Rel ys l y) :
    x.st = y.st ∧ x.load = y.load := by
  have hplace : x.place = y.place := hx.place.symm.trans hy.place
  have hsend : x.send.isSome = y.send.isSome := hx.hasPackToSend.symm.trans hy.hasPackToSend
  have hrecv : x.recv.isSome = y.recv.isSome := hx.hasReceivedPack.symm.trans hy.hasReceivedPack
  refine ⟨hx.st.symm.trans hy.st, ?_⟩
  simp only [Station.load, hplace, Option.length_toList, hsend, hrecv]

theorem slaveBusy_of_load (h : 1 ≤ b.load + b.due) : SlaveBusy n b := by
  unfold SlaveBusy
  by_contra hidle
  simp only [not_or, Bool.not_eq_true, Option.isSome_eq_false_iff, Option.isNone_iff_eq_none, ne_eq, not_not] at hidle
  obtain ⟨hsend, hrecv, hst, -⟩ := hidle
  simp [Station.load, Station.due, hsend, hrecv, hst] at h

/-- A packet on its way belongs to a send. -/
theorem Punctual.air_sends (h : Punctual slack c a b) (hair : (c.state.emul.air id).isSome = true) :
    (c.state.emul.pc id).sends = true := by
  rw [Emul.air, Option.isSome_or, Bool.or_eq_true] at hair
  rcases hair with hair | hair
  · cases hpc : c.state.emul.pc id <;> rw [hpc] at hair <;> first | rfl | cases hair
  · unfold WlEmulGlobal.outPacket at hair
    split_ifs at hair with hsent
    · cases hair
    · rw [(h.flying id (Bool.eq_false_iff.mpr hsent)).1]
      rfl

theorem System.inbuf_isSome (h : (n.inbuf id).isSome = true) : (∃ d, n.ret id = some (.recv (some d))) ∨
    (∃ d, n.emul.pc id = .recvCheck d) ∨ (n.emul.devs.dev id).inputBuff.isRecieved = true := by
  rw [System.inbuf, Option.isSome_or, Bool.or_eq_true, Emul.inbuf, Option.isSome_or, Bool.or_eq_true] at h
  rcases h with h | h | h
  · obtain ⟨d, hd⟩ := Option.isSome_iff_exists.mp h
    obtain ⟨r, hr, hd⟩ := Option.bind_eq_some_iff.mp hd
    cases r with
    | send | avail => cases hd
    | recv res => exact Or.inl ⟨d, by rw [hr, show res = some d from hd]⟩
  · cases hpc : n.emul.pc id with
    | recvCheck d => exact Or.inr (Or.inl ⟨d, rfl⟩)
    | _ =>
      rw [hpc] at h
      cases h
  · unfold WlEmulGlobal.inPacket at h
    split_ifs at h with hfull
    · exact Or.inr (Or.inr hfull)
    · cases h

theorem slaveBusy_of_inbuf (h : (n.inbuf .id1).isSome = true) : SlaveBusy n b := by
  refine Or.inr (Or.inr (Or.inr ?_))
  rcases System.inbuf_isSome h with ⟨d, hret⟩ | ⟨d, hpc⟩ | hfull
  · exact Or.inr (by simp [System.copied, hret])
  · exact Or.inr (by simp [System.copied, hpc])
  · exact Or.inl hfull

/-- A packet that is somewhere is the master's to send, or the slave's to answer, or has come for the master. -/
theorem Punctual.somewhere (h : Punctual slack c a b) (hst : a.st = .sendAll)
    (hpacket : 1 ≤ a.load + (b.load + b.due + channelLoad c.state.net.air c.state.net.inbuf)) :
    a.send.isSome = true ∨ SlaveBusy c.state b ∨ MasterBusy c.state a := by
  by_contra hnowhere
  simp only [not_or] at hnowhere
  obtain ⟨hsend, hslave, hmaster⟩ := hnowhere
  have hload : a.load = 0 := by
    have hrecv : ¬a.recv.isSome = true := fun hrecv => hmaster (Or.inl hrecv)
    simp only [Bool.not_eq_true, Option.isSome_eq_false_iff, Option.isNone_iff_eq_none] at hsend hrecv
    simp [Station.load, hsend, hrecv]
  have hload₁ : ¬1 ≤ b.load + b.due := fun hload => hslave (slaveBusy_of_load hload)
  have hair : c.state.emul.air .id0 = none := by
    by_contra hair
    have hsends := h.air_sends (Option.isSome_iff_ne_none.mpr hair)
    have hin : c.state.emul.pc .id0 ≠ .out := fun hout => by rw [hout] at hsends; cases hsends
    obtain ⟨hp, -⟩ := (h.ordered.masterCall.within hin).resolve_right fun hr => WlPc.not_both hsends hr.2
    have hinv := h.ordered.master.inv
    simp only [MInv, hp, hst] at hinv
    exact hsend hinv.1
  have hair₁ : c.state.emul.air .id1 = none := by
    by_contra hair
    exact hslave (h.ordered.slave_sending (h.air_sends (Option.isSome_iff_ne_none.mpr hair)))
  have hin : c.state.inbuf .id0 = none := by
    by_contra hin
    rcases System.inbuf_isSome (Option.isSome_iff_ne_none.mpr hin) with hret | hpc | hfull
    · exact hmaster (Or.inr (Or.inr (Or.inr hret)))
    · exact hmaster (Or.inr (Or.inr (Or.inl hpc)))
    · exact hmaster (Or.inr (Or.inl hfull))
  have hin₁ : c.state.inbuf .id1 = none := by
    by_contra hin
    exact hslave (slaveBusy_of_inbuf (Option.isSome_iff_ne_none.mpr hin))
  simp only [channelLoad, System.net, Side.conn, hair, hair₁, hin, hin₁, Option.toList_none, List.length_nil] at hpacket
  omega

/-- **A response comes in time.** -/
theorem Punctual.in_response (h : Punctual slack c a b) (ha : Awaiting slack c a) (hst : a.st = .sendAll)
    (hslack : 0 ≤ slack) (hcurrent : ∀ x, c.clock ≤ c.wake x + slack)
    (hpacket : 1 ≤ a.load + (b.load + b.due + channelLoad c.state.net.air c.state.net.inbuf)) :
    c.clock ≤ a.llcTimer.startTime.micros + responseTime slack := by
  have hair : airTime = 100000 := rfl
  have hpoll : pollTime = 10000 := rfl
  rcases h.somewhere hst hpacket with hsend | hbusy | hbusy
  · have hbound := (h.timed hst).sending hsend
    have hpos : 0 ≤ masterRest slack c.state a := by
      have hrest := WlPc.sendRest_pos (c.state.emul.pc .id0) hslack
      unfold masterRest
      split <;> omega
    have hclock := hcurrent .id0
    unfold responseTime
    omega
  · have hbound := (h.timed hst).busy hbusy
    have hpos := slaveRest_pos c.state b hslack
    have hclock := hcurrent .id1
    unfold responseTime
    omega
  · have hbound := ha.answered hbusy
    have hpos := answerRest_pos c.state a hslack
    have hclock := hcurrent .id0
    omega

/-! ## The pace of the transactions -/

/-- The time of a transaction. -/
def transactionTime (slack : Int) : Int := responseTime slack + 2 * slack

/-- The time at which the master's transaction was begun, or completed, is not after `base`. -/
def Paced (slack base : Int) (c : Clocked System ConnId) (a : Station LlcStateM) : Prop :=
  match a.st with
  | .idle => c.wake .id0 ≤ base
  | .sendAll => a.llcTimer.startTime.micros ≤ base + slack
  | .receivedAll => c.wake .id0 ≤ base + slack + responseTime slack
  | .resend => False

theorem Paced.master {base : Int} {i : Input} {o : List (Event LlcStateM)} (h : Paced slack base c a)
    (ha : a.st = .sendAll → Awaiting slack c a) (hallow : systemTiming.Allows slack c (.master i) time)
    (hmove : MMove a i a' o) (honce : a'.st ≠ .resend) :
    Paced slack (base + (entered .idle o).length * transactionTime slack)
      (systemTiming.next c (.master i) time n') a' := by
  have hle := hallow.le_wake .id0
  unfold Paced at h ⊢
  cases hmove with
  | @start now hp hst hsend hrecv =>
    obtain ⟨-, -, -, hread⟩ := allows_pass hallow
    simp only [hst] at h
    simp only [entered_enter, reduceCtorEq, if_false, List.length_nil, Nat.cast_zero, ttTimerStart]
    omega
  | response hp hst hrecv =>
    have hbound := (ha hst).answered (Or.inl (by rw [hrecv]; rfl))
    simp only [answerRest, hp, hrecv, Option.isSome_some, if_true] at hbound
    simp only [hst] at h
    simp only [entered_enter, reduceCtorEq, if_false, List.length_nil, Nat.cast_zero, wake_master_id0]
    omega
  | complete hp hst =>
    simp only [hst] at h
    simp only [entered_enter, if_true, List.length_singleton, Nat.cast_one, wake_master_id0, transactionTime]
    omega
  | timeout => exact absurd rfl honce
  | retry hp hst =>
    rw [hst] at h
    exact h.elim
  | wait hp hst | call hp hst | listen hp hst | sent hp hst | fail hp hst | arrive hp hst =>
    simp only [hst] at h
    simp only [hst, entered_nil, entered_tx, List.length_nil, Nat.cast_zero]
    omega

/-- Outside `sendAll` the steps of the other thread, and of the calls, are not the master's. -/
theorem Paced.other {base : Int} (h : Paced slack base c a) (hwake : a.st ≠ .sendAll → c'.wake .id0 = c.wake .id0) :
    Paced slack base c' a := by
  unfold Paced at h ⊢
  split at h
  · rename_i hst
    rw [hwake (by rw [hst]; decide)]
    exact h
  · exact h
  · rename_i hst
    rw [hwake (by rw [hst]; decide)]
    exact h
  · exact h

/-- The two threads against the clock, with `k` transactions completed. -/
structure Pacing (slack base : Int) (c : Clocked System ConnId) (k : Nat) (a : Station LlcStateM)
    (b : Station LlcStateS) : Prop where
  punctual : Punctual slack c a b
  current : ∀ x, c.clock ≤ c.wake x + slack
  answering : a.st = .sendAll → Awaiting slack c a
  paced : Paced slack (base + k * transactionTime slack) c a

/-- **One step of the threads** keeps the pace, if nothing is sent again. -/
theorem Pacing.next {base : Int} {k : Nat} {i : SystemInput} {o : List SystemEvent} (h : Pacing slack base c k a b)
    (hslack : 0 ≤ slack ∧ slack ≤ 2000) (hallow : systemTiming.Allows slack c i time)
    (hs : systemStep cfg c.state i = some (n', o)) (honce : n'.m.llcState ≠ .resend) :
    ∃ a' b', Pacing slack base (systemTiming.next c i time n') (k + (entered .idle (systemMaster o)).length) a' b' ∧
      Advance cfg c.state n' a b i o a' b' := by
  obtain ⟨hpunctual, hcurrent, hanswering, hpaced⟩ := h
  obtain ⟨-, a', b', h', hadvance⟩ := hpunctual.next hslack hallow hs
  have hcurrent' := Timing.next_current (s := n') hallow hslack.1 (systemTiming_sleep_nonneg c.state i)
  obtain ⟨cm, hrm⟩ := h'.ordered.master.rel
  suffices hrest : (a'.st = .sendAll → Awaiting slack (systemTiming.next c i time n') a') ∧
      Paced slack (base + (k + (entered .idle (systemMaster o)).length : Nat) * transactionTime slack)
        (systemTiming.next c i time n') a' from
    ⟨a', b', ⟨h', hcurrent', hrest.1, hrest.2⟩, hadvance⟩
  cases hadvance with
  | @master i a' o hmove hlate hcalled hflight =>
    have honce' : a'.st ≠ .resend := fun hst => honce (hrm.st.trans hst)
    refine ⟨fun hst => .master hpunctual hanswering hallow hmove hcalled hflight hst, ?_⟩
    rw [systemMaster_of_master, Nat.cast_add, Int.add_mul, ← Int.add_assoc]
    exact hpaced.master hanswering hallow hmove honce'
  | @slave i b' o hmove hcalled hpackets =>
    refine ⟨fun hst => (hanswering hst).slave hallow hcalled, ?_⟩
    rw [systemMaster_of_slave, entered_nil, List.length_nil, Nat.add_zero]
    exact hpaced.other fun _ => wake_slave_id0
  | @tick id t o hmove hret hflight =>
    obtain ⟨hin, htick, hothers⟩ := hpunctual.ordered.calm_tick hmove hret
    refine ⟨fun hst => .tick hpunctual (hanswering hst) hslack.1 hst hallow h' htick hothers hin, ?_⟩
    rw [systemMaster_of_emul, entered_nil, List.length_nil, Nat.add_zero]
    refine hpaced.other fun hst => ?_
    cases id with
    | id0 =>
      -- the master is in a call only while it waits
      have hinv := hpunctual.ordered.master.inv
      rcases hpunctual.ordered.masterCall.within hin with ⟨hp, -⟩ | ⟨hp, -⟩ <;>
        cases hst₀ : a.st <;> simp only [MInv, hp, hst₀] at hinv <;> exact absurd hst₀ hst
    | id1 => exact wake_tick_of_ne (by decide)

theorem Pacing.start {n₀ : System} {tm ts : Tsm} {time delay : Int} (hslack : 0 ≤ slack) (hdelay : 0 ≤ delay)
    (h : Punctual slack (clockedStart n₀ time delay) (mStationStart tm) (sStationStart ts)) :
    Pacing slack (time + delay) (clockedStart n₀ time delay) 0 (mStationStart tm) (sStationStart ts) where
  punctual := h
  current x := by
    cases x <;> simp only [clockedStart] <;> omega
  answering hst := by cases hst
  paced := by
    simp only [Paced, mStationStart, clockedStart, Nat.cast_zero, Int.zero_mul]
    omega

/-- The pace of a run. -/
theorem timedRun_pacing {tm ts : Tsm} {n₀ : System} {a : Station LlcStateM} {b : Station LlcStateS}
    {base time delay : Int}
    {is : List (SystemInput × Int)} {os : List SystemEvent} (hcfg : cfg.losePackets = false ∧ cfg.errData = false)
    (hnet : netStart tm ts = some n₀.net) (hair : SealedAir n₀) (hslack : 0 ≤ slack ∧ slack ≤ 2000)
    (h : Pacing slack base (clockedStart n₀ time delay) 0 a b)
    (hr : run (systemTiming.step slack (systemStep cfg)) (clockedStart n₀ time delay) is = some (c, os)) :
    ∃ a b, Pacing slack base c (entered .idle (systemMaster os)).length a b := by
  have hrun := run_induct (P := fun is os c =>
    run (systemTiming.step slack (systemStep cfg)) (clockedStart n₀ time delay) is = some (c, os) ∧
      ∃ a b, Pacing slack base c (entered .idle (systemMaster os)).length a b) ⟨rfl, a, b, h⟩ (by
    rintro is os c ⟨i, t⟩ c' o ⟨hr, a, b, hpacing⟩ hs
    have hr' : run (systemTiming.step slack (systemStep cfg)) (clockedStart n₀ time delay) (is ++ [(i, t)]) =
        some (c', os ++ o) := run_snoc.mpr ⟨c, os, o, hr, hs, rfl⟩
    obtain ⟨hallow, n', hstep, rfl⟩ := Timing.step_iff.mp hs
    refine ⟨hr', ?_⟩
    obtain ⟨_, _, _, a₁, b₁, hreliably⟩ := timedRun_reliable hcfg hnet hair h.punctual hslack hr'
    obtain ⟨cm, hrm⟩ := hreliably.joint.master.rel
    obtain ⟨a', b', hnext, -⟩ := hpacing.next hslack hallow hstep fun hst =>
      hreliably.whole.once.1 (hrm.st.symm.trans hst)
    refine ⟨a', b', ?_⟩
    rw [systemMaster_append, entered_append, List.length_append]
    exact hnext) hr
  exact hrun.2

/-- A paced clock. -/
theorem Pacing.clock_le {base : Int} {k : Nat} (h : Pacing slack base c k a b) (hslack : 0 ≤ slack)
    (hpacket : a.st = .sendAll → 1 ≤ a.load + (b.load + b.due + channelLoad c.state.net.air c.state.net.inbuf)) :
    c.clock ≤ base + (k + 1) * transactionTime slack := by
  have hclock := h.current .id0
  have hpaced := h.paced
  have hresponse : 0 ≤ responseTime slack := by
    unfold responseTime airTime pollTime
    omega
  rw [Int.add_mul, Int.one_mul]
  unfold Paced at hpaced
  cases hst : a.st with
  | sendAll =>
    have htime := h.punctual.in_response (h.answering hst) hst hslack h.current (hpacket hst)
    simp only [hst] at hpaced
    simp only [transactionTime] at hpaced ⊢
    omega
  | resend => simp only [hst] at hpaced
  | _ =>
    simp only [hst] at hpaced
    simp only [transactionTime] at hpaced ⊢
    omega

theorem timedRun_clock {tm ts : Tsm} {n₀ : System} {a : Station LlcStateM} {b : Station LlcStateS}
    {base time delay : Int}
    {is : List (SystemInput × Int)} {os : List SystemEvent} (hcfg : cfg.losePackets = false ∧ cfg.errData = false)
    (hnet : netStart tm ts = some n₀.net) (hair : SealedAir n₀) (hslack : 0 ≤ slack ∧ slack ≤ 2000)
    (h : Pacing slack base (clockedStart n₀ time delay) 0 a b)
    (hr : run (systemTiming.step slack (systemStep cfg)) (clockedStart n₀ time delay) is = some (c, os)) :
    c.clock ≤ base + ((entered .idle (systemMaster os)).length + 1) * transactionTime slack := by
  obtain ⟨a', b', hpacing⟩ := timedRun_pacing hcfg hnet hair hslack h hr
  obtain ⟨_, _, _, a₁, b₁, hreliably⟩ := timedRun_reliable hcfg hnet hair h.punctual hslack hr
  refine hpacing.clock_le hslack.1 fun hst => ?_
  obtain ⟨cm, hrm⟩ := hpacing.punctual.ordered.master.rel
  obtain ⟨cs, hrs⟩ := hpacing.punctual.ordered.slave.rel
  obtain ⟨cm₁, hrm₁⟩ := hreliably.joint.master.rel
  obtain ⟨cs₁, hrs₁⟩ := hreliably.joint.slave.rel
  obtain ⟨hst₁, hload⟩ := hrm.same hrm₁
  obtain ⟨hst₂, hload₂⟩ := hrs.same hrs₁
  have hpresent := hreliably.whole.present (hst₁.symm.trans hst)
  rw [hload, hload₂, Station.due, hst₂]
  exact hpresent.ge

theorem transactionTime_eq (slack : Int) : transactionTime slack = 2 * airTime + 4 * pollTime + 45 * slack := by
  unfold transactionTime responseTime
  omega

/-- **Throughput.** Over an emulator that loses and damages nothing the transactions keep a rate: one in two times on
air, four times the granularity and 45 times what a step may be late. -/
theorem throughput (cfg : WlConfig) (tm ts : Tsm) (g : WlEmulGlobal) (time delay slack : Int)
    (hcfg : cfg.losePackets = false ∧ cfg.errData = false) (hdelay : 0 ≤ delay) (hslack : 0 ≤ slack ∧ slack ≤ 2000) :
    ∃ n₀, systemStart tm ts g = some n₀ ∧
      ∀ (is : List (SystemInput × Int)) (c : Clocked System ConnId) (os : List SystemEvent),
        run (systemTiming.step slack (systemStep cfg)) (clockedStart n₀ time delay) is = some (c, os) →
        c.clock ≤ time + delay +
          ((entered .idle (systemMaster os)).length + 1) * (2 * airTime + 4 * pollTime + 45 * slack) := by
  obtain ⟨n₀, hstart, hnet, hair, hpunctual⟩ := timedStart tm ts g time delay slack
  refine ⟨n₀, hstart, fun is c os hr => ?_⟩
  rw [← transactionTime_eq]
  exact timedRun_clock hcfg hnet hair hslack (.start hslack.1 hdelay hpunctual) hr

/-- In 200 ms with steps on time. -/
theorem throughput_clean : ∃ n₀ c os, systemStart Tsm.zeroed Tsm.zeroed .zeroed = some n₀ ∧
    run (systemTiming.step 2000 (systemStep .clean)) (clockedStart n₀ 0 0) firstTransaction = some (c, os) ∧
    entered .idle (systemMaster os) = [1] ∧ c.clock = 200000 ∧ c.clock ≤ 0 + 0 + (1 + 1) * 330000 := by
  have heval : (systemStart Tsm.zeroed Tsm.zeroed .zeroed).bind (fun n₀ =>
      (run (systemTiming.step 2000 (systemStep .clean)) (clockedStart n₀ 0 0) firstTransaction).map fun r =>
        (entered .idle (systemMaster r.2), r.1.clock)) = some ([1], 200000) := by decide +kernel
  obtain ⟨n₀, h₀, hrun⟩ := Option.bind_eq_some_iff.mp heval
  obtain ⟨⟨c, os⟩, hr, hfacts⟩ := Option.map_eq_some_iff.mp hrun
  obtain ⟨hidle, hclock⟩ := Prod.mk.inj hfacts
  obtain ⟨n₁, h₁, hall⟩ := throughput .clean Tsm.zeroed Tsm.zeroed .zeroed 0 0 2000 ⟨rfl, rfl⟩ (by decide) (by decide)
  cases h₀.symm.trans h₁
  have htime := hall _ _ _ hr
  rw [hidle] at htime
  exact ⟨n₀, c, os, h₀, hr, hidle, hclock, htime⟩

end LoraBridge
