import LoraBridge.Pace

/-!
# The timer and the clock

The timeout of the LLC layer is three times the time on air. If every step of the two threads comes within 2 ms of the
time at which it could be taken, that is long enough: whatever becomes of a request, it has been answered, and the
answer has come or got lost, before the timer of the master is read as expired (`Punctual.still`). A packet that the
master has put is charged against the time since the timer was started, from step to step, until the slave has answered
it (`slaveRest`); nothing is under way at the end of that time, so the last look for data in the master's receive sees
whatever there was.
-/

set_option autoImplicit false

namespace LoraBridge

open Transducer

variable {cfg : WlConfig} {id : ConnId} {n n' : System} {a a' : Station LlcStateM} {b b' : Station LlcStateS}
  {slack : Int}

/-! ## What the slave may still take -/

/-- The slave has a packet, or there is one for it in its input buffer. -/
def SlaveBusy (n : System) (b : Station LlcStateS) : Prop :=
  b.send.isSome = true ∨ b.recv.isSome = true ∨ b.st ≠ .idle ∨
    (n.emul.devs.dev .id1).inputBuff.isRecieved = true ∨ n.copied = true

/-- The time that the slave may take until it has dealt with that packet, and with the send that it is in before. -/
def slaveRest (slack : Int) (n : System) (b : Station LlcStateS) : Int :=
  match b.place with
  | .llc =>
    match b.st with
    | .idle =>
      if b.recv.isSome then airTime + 11 * slack
      else if b.send.isSome then airTime + 8 * slack else airTime + 20 * slack
    | .receivedAll => airTime + 10 * slack
    | .resend => airTime + 10 * slack
    | .sendAll => if b.send.isSome then airTime + 9 * slack else airTime + 21 * slack
  | .mac => if b.send.isSome then airTime + 7 * slack else airTime + 19 * slack
  | .sending => (n.emul.pc .id1).sendRest slack +
      if (n.emul.devs.dev .id1).inputBuff.isRecieved then airTime + 20 * slack else 0
  | .receiving => (n.emul.pc .id1).recvRest slack (n.ret .id1) + (airTime + 11 * slack)

theorem slaveRest_pos (n : System) (b : Station LlcStateS) (hslack : 0 ≤ slack) : slack ≤ slaveRest slack n b := by
  have hsend := WlPc.sendRest_pos (n.emul.pc .id1) hslack
  have hrecv := WlPc.recvRest_pos (n.emul.pc .id1) (n.ret .id1) hslack
  unfold slaveRest airTime
  split
  · split
    · split_ifs <;> omega
    · omega
    · omega
    · split_ifs <;> omega
  · split_ifs <;> omega
  · split_ifs <;> omega
  · omega

/-- What the slave takes at most, when it has put what it sends. -/
theorem slaveRest_le (n : System) (b : Station LlcStateS) (hslack : 0 ≤ slack) (hput : (n.emul.pc .id1).carried = 0) :
    slaveRest slack n b ≤ airTime + pollTime + 23 * slack := by
  have hsend := WlPc.sendRest_le hslack hput
  have hrecv := WlPc.recvRest_le (n.emul.pc .id1) (n.ret .id1) hslack
  unfold slaveRest airTime
  unfold pollTime at hrecv ⊢
  split
  · split
    · split_ifs <;> omega
    · omega
    · omega
    · split_ifs <;> omega
  · split_ifs <;> omega
  · split_ifs <;> omega
  · omega

/-! ## The steps of the slave -/

theorem flight_of_full (h : (n.emul.devs.dev id).inputBuff.isRecieved = true) :
    1 + (retPackets (n.ret .id0) + retPackets (n.ret .id1)) ≤ n.flight := by
  have hlane := lane_sum n.emul.devs id.other
  have hfull : 1 ≤ n.emul.devs.lane id.other := by simp [WlEmulGlobal.lane, h]
  unfold System.flight Emul.flight
  omega

theorem flight_of_copied (h : n.copied = true) : 1 ≤ n.flight := by
  unfold System.flight Emul.flight
  rcases (Bool.or_eq_true _ _).mp h with hpc | hret
  · split at hpc
    · rename_i d hd
      rw [hd]
      simp only [WlPc.carried]
      omega
    · cases hpc
  · split at hret
    · rename_i d hd
      rw [hd]
      simp only [retPackets, Option.map_some, Option.getD_some, WlRet.packets]
      omega
    · cases hret

theorem copied_congr (hpc : n'.emul.pc .id1 = n.emul.pc .id1) (hret : n'.ret .id1 = n.ret .id1) :
    n'.copied = n.copied := by
  rw [System.copied, System.copied, hpc, hret]

theorem copied_of_none (hpc : ∀ d, n.emul.pc .id1 ≠ .recvCheck d) (hret : n.ret .id1 = none) : n.copied = false := by
  rw [System.copied, hret, Bool.or_false]
  split
  · rename_i d hd
    exact absurd hd (hpc d)
  · rfl

theorem slave_mono (hpc : n'.emul.pc .id1 = n.emul.pc .id1) (hret : n'.ret .id1 = n.ret .id1) (hslack : 0 ≤ slack)
    (hfull : (n'.emul.devs.dev .id1).inputBuff.isRecieved = true → (n.emul.devs.dev .id1).inputBuff.isRecieved = true)
    (hbusy : SlaveBusy n' b) : SlaveBusy n b ∧ slaveRest slack n' b ≤ slaveRest slack n b := by
  unfold SlaveBusy slaveRest at *
  rw [copied_congr hpc hret] at hbusy
  rw [hpc, hret]
  refine ⟨by tauto, ?_⟩
  have hair : 0 ≤ airTime + 20 * slack := by
    unfold airTime
    omega
  cases b.place with
  | sending =>
    dsimp only
    split_ifs <;> first | omega | tauto
  | _ => exact le_refl _

/-- **A step of the slave's loop** brings it nearer to its end. -/
theorem Ordered.slave_rest {i : Input} {o : List (Event LlcStateS)} (h : Ordered n a b) (hmove : SMove b i b' o)
    (hcalled : Called b.macRecvTimeout .id1 i (transmitted o) n n') (hslack : 0 ≤ slack) (hbusy : SlaveBusy n' b') :
    SlaveBusy n b ∧ slaveRest slack n' b' + slack ≤ slaveRest slack n b := by
  have hone := h.turn.single
  obtain ⟨hcall, hdevs, -⟩ := hcalled
  have hfull : (n.emul.devs.dev .id1).inputBuff.isRecieved = true → 1 + retPackets (n.ret .id1) ≤ n.flight := by
    intro hin
    have := flight_of_full hin
    omega
  have hcopied : n.copied = true → 1 ≤ n.flight := flight_of_copied
  unfold SlaveBusy at hbusy ⊢
  rw [hdevs] at hbusy
  cases hmove with
  | rest hp hst hrecv =>
    obtain ⟨hpc, hret⟩ := hcall.pass_eq
    rw [copied_congr hpc hret] at hbusy
    refine ⟨hbusy, ?_⟩
    simp only [slaveRest, hp, hst, hrecv]
    split_ifs <;> simp_all <;> omega
  | discard hp hst hrecv hsend =>
    -- its packet was the only one
    obtain ⟨hpc, hret⟩ := hcall.pass_eq
    rw [copied_congr hpc hret] at hbusy
    have hflight : n.flight = 0 := by
      simp only [Station.load, hrecv, Option.toList_some, List.length_singleton] at hone
      omega
    simp only [hsend, hst, ne_eq, not_true, Option.isSome_none, Bool.false_eq_true, false_or] at hbusy
    rcases hbusy with hbusy | hbusy
    · have := hfull hbusy
      omega
    · have := hcopied hbusy
      omega
  | again hp hst hrecv hsend | accept hp hst hrecv hsend =>
    refine ⟨Or.inr (Or.inl (by rw [hrecv]; rfl)), ?_⟩
    simp only [slaveRest, hp, hst, hrecv, Option.isSome_some, if_true]
    omega
  | respond hp hst hsend hrecv =>
    refine ⟨Or.inr (Or.inr (Or.inl (by rw [hst]; decide))), ?_⟩
    simp only [slaveRest, hp, hst, Option.isSome_some, if_true]
    omega
  | finish hp hst hrecv =>
    refine ⟨Or.inr (Or.inr (Or.inl (by rw [hst]; decide))), ?_⟩
    simp only [slaveRest, hp, hst, hrecv, Option.isSome_none, Bool.false_eq_true, if_false]
    split_ifs <;> omega
  | repeatLast hp hst hsend hrecv | echo hp hst hsend hrecv =>
    refine ⟨Or.inr (Or.inr (Or.inl (by rw [hst]; decide))), ?_⟩
    simp only [slaveRest, hp, hst, hrecv, Option.isSome_none, Option.isSome_some, Bool.false_eq_true, if_false, if_true]
    omega
  | call hp hst hrecv hsend =>
    obtain ⟨hpc, -⟩ := hcall.send_eq
    refine ⟨Or.inl (by rw [hsend]; rfl), ?_⟩
    have hempty : (n.emul.devs.dev .id1).inputBuff.isRecieved ≠ true := by
      intro hin
      have := hfull hin
      simp only [Station.load, hp, hsend, reduceCtorEq, if_false, Option.toList_some, List.length_singleton] at hone
      omega
    simp only [slaveRest, hp, hsend, hdevs, hempty, hpc, WlPc.sendRest, Option.isSome_some, Bool.false_eq_true, if_true,
      if_false]
    omega
  | listen hp hst hrecv hsend =>
    obtain ⟨hpc, hret⟩ := hcall.listen_eq
    rw [copied_of_none (fun d hd => by rw [hpc] at hd; cases hd) hret] at hbusy
    have hin : (n.emul.devs.dev .id1).inputBuff.isRecieved = true := by simpa [hsend, hrecv, hst] using hbusy
    refine ⟨Or.inr (Or.inr (Or.inr (Or.inl hin))), ?_⟩
    simp only [slaveRest, hp, hsend, hpc, WlPc.recvRest, Option.isSome_none, Bool.false_eq_true, if_false]
    omega
  | sent hp hst hrecv =>
    obtain ⟨⟨hpc, -⟩, hpc', hret'⟩ := hcall.sent_eq
    rw [copied_of_none (fun d hd => by rw [hpc'] at hd; cases hd) hret'] at hbusy
    have hin : (n.emul.devs.dev .id1).inputBuff.isRecieved = true := by simpa [hrecv, hst] using hbusy
    refine ⟨Or.inr (Or.inr (Or.inr (Or.inl hin))), ?_⟩
    simp only [slaveRest, hp, hst, hrecv, hpc, hin, WlPc.sendRest, Option.isSome_none, Bool.false_eq_true, if_false,
      if_true]
    omega
  | @fail res hp hst hrecv hsend =>
    obtain ⟨⟨hpc, hret⟩, hpc', hret'⟩ := hcall.received_eq
    rw [copied_of_none (fun d hd => by rw [hpc'] at hd; cases hd) hret'] at hbusy
    have hin : (n.emul.devs.dev .id1).inputBuff.isRecieved = true := by simpa [hsend, hrecv, hst] using hbusy
    have hflight := hfull hin
    refine ⟨Or.inr (Or.inr (Or.inr (Or.inl hin))), ?_⟩
    cases res with
    | some d =>
      simp only [hret, retPackets, Option.map_some, Option.getD_some, WlRet.packets] at hflight
      omega
    | none =>
      simp only [slaveRest, hp, hst, hrecv, hsend, hpc, hret, WlPc.recvRest, Option.isSome_none, Bool.false_eq_true,
        if_false, if_true]
      omega
  | @arrive res d hp hst hrecv hsend hpacket =>
    obtain ⟨⟨hpc, hret⟩, -⟩ := hcall.received_eq
    obtain ⟨d', rfl⟩ : ∃ d', res = some d' := by
      cases res with
      | none => cases hpacket
      | some d' => exact ⟨d', rfl⟩
    refine ⟨Or.inr (Or.inr (Or.inr (Or.inr (by simp [System.copied, hret])))), ?_⟩
    simp only [slaveRest, hp, hst, hpc, hret, WlPc.recvRest, Option.isSome_some, Option.some.injEq, WlRet.recv.injEq,
      reduceCtorEq, if_false, if_true]
    omega

/-- **A step of the slave's call** does so as well, unless it fills the input buffer. -/
theorem Ordered.slave_tick {t : WlTick} (h : Ordered n a b)
    (htick : CalmTick .id1 t n.emul.devs n'.emul.devs (n.emul.pc .id1) (n'.emul.pc .id1) (n'.ret .id1))
    (hin : n.emul.pc .id1 ≠ .out) (hslack : 0 ≤ slack) (hbusy : SlaveBusy n' b)
    (hfull : (n'.emul.devs.dev .id1).inputBuff.isRecieved = true → (n.emul.devs.dev .id1).inputBuff.isRecieved = true) :
    SlaveBusy n b ∧ slaveRest slack n' b + (n.emul.pc .id1).sleep + slack ≤ slaveRest slack n b := by
  have hcall := h.slaveCall
  cases hp : b.place with
  | llc | mac =>
    rw [hp] at hcall
    exact absurd hcall.1 hin
  | sending =>
    rw [hp] at hcall
    obtain ⟨hsends, -⟩ := hcall.resolve_right fun hc => hin hc.1
    have hsend : b.send.isSome = true := by
      have hinv := h.slave.inv
      cases hst : b.st <;> simp only [SInv, hp, hst] at hinv
      exact hinv.1
    have hrest := htick.sendRest hsends hslack
    refine ⟨Or.inl hsend, ?_⟩
    simp only [slaveRest, hp]
    by_cases hin' : (n'.emul.devs.dev .id1).inputBuff.isRecieved = true
    · rw [if_pos hin', if_pos (hfull hin')]
      omega
    · rw [if_neg hin']
      have hpos : 0 ≤ airTime + 20 * slack := by
        unfold airTime
        omega
      split_ifs <;> omega
  | receiving =>
    rw [hp] at hcall
    obtain ⟨hrecvs, hnone⟩ := hcall.resolve_right fun hc => hin hc.1
    obtain ⟨hst, hsend, hrecv⟩ : b.st = .idle ∧ b.send = none ∧ b.recv = none := by
      have hinv := h.slave.inv
      cases hst : b.st <;> simp only [SInv, hp, hst] at hinv
      exact ⟨rfl, hinv⟩
    -- it is in the buffer, or has been copied from there
    have hhere : (n.emul.devs.dev .id1).inputBuff.isRecieved = true ∨ ∃ d, n.emul.pc .id1 = .recvCheck d := by
      simp only [SlaveBusy, hsend, hrecv, hst, Option.isSome_none, Bool.false_eq_true, ne_eq, not_true,
        false_or] at hbusy
      rcases hbusy with hbusy | hbusy
      · exact Or.inl (hfull hbusy)
      · refine htick.here (fun hc => h.calm.ready .id1 (Or.inl hc)) ?_
        rcases (Bool.or_eq_true _ _).mp hbusy with hbusy | hbusy
        · split at hbusy
          · rename_i d hd
            exact Or.inl ⟨d, hd⟩
          · cases hbusy
        · split at hbusy
          · rename_i d hd
            exact Or.inr ⟨d, hd⟩
          · cases hbusy
    refine ⟨hhere.elim (fun hin' => Or.inr (Or.inr (Or.inr (Or.inl hin')))) ?_, ?_⟩
    · rintro ⟨d, hd⟩
      exact Or.inr (Or.inr (Or.inr (Or.inr (by simp [System.copied, hd]))))
    · have hrest := htick.recvRest hrecvs hslack (by
        intro w hw
        refine hhere.resolve_right ?_
        rintro ⟨d, hd⟩
        rw [hw] at hd
        cases hd)
      simp only [slaveRest, hp, hnone]
      omega

/-! ## The invariant -/

/-- The send will sleep. -/
def WlPc.Blocks : WlPc → Prop
  | .sendBegin _ timeout => timeout ≠ 0
  | .sendTest _ timeout => timeout ≠ 0
  | .sendPut _ timeout => timeout ≠ 0
  | _ => True

/-- The wait of the master's receive has slept since `since`. -/
def WlWait.Counts (w : WlWait) (since wake : Int) : Prop :=
  w.timeout = llcTimeoutMs ∧ w.timeSleep.toNat < 300 ∧ since + 1000 * w.timeSleep.toNat ≤ wake

def WlPc.Waited (since wake : Int) : WlPc → Prop
  | .recvBegin timeout => timeout = llcTimeoutMs
  | .dataWorker w => w.Counts since wake
  | .dataRead w => w.Counts since wake
  | .dataCheck w _ => w.Counts since wake
  | _ => True

/-- The time that the master may take until its send has returned. -/
def masterRest (slack : Int) (n : System) (a : Station LlcStateM) : Int :=
  match a.place with
  | .llc => airTime + 8 * slack
  | .mac => airTime + 7 * slack
  | .sending => (n.emul.pc .id0).sendRest slack
  | .receiving => 0

/-- The master has looked for the response for the last time, or has not heard anything for long. -/
def Late (slack : Int) (c : Clocked System ConnId) (a : Station LlcStateM) : Prop :=
  (∃ w, c.state.emul.pc .id0 = .dataCheck w false ∧ 290 ≤ w.timeSleep.toNat) ∨ c.state.ret .id0 = some (.recv none) ∨
    a.place = .llc ∧ a.send = none ∧ a.recv = none ∧
      a.llcTimer.startTime.micros + airTime + 9 * slack < c.wake .id0

/-- The state of things while the master waits for the response, against the start of its timer. -/
structure Timed (slack : Int) (c : Clocked System ConnId) (a : Station LlcStateM) (b : Station LlcStateS) : Prop where
  normal : a.llcTimer.startTime.Normal
  interval : a.llcTimer.intervalMs = llcTimeoutMs
  since : a.llcTimer.startTime.micros ≤ c.wake .id0
  sending : a.send.isSome = true →
    c.wake .id0 + masterRest slack c.state a ≤ a.llcTimer.startTime.micros + airTime + 9 * slack
  busy : SlaveBusy c.state b → c.wake .id1 + slaveRest slack c.state b ≤
    a.llcTimer.startTime.micros + 2 * airTime + 2 * pollTime + 30 * slack
  waiting : a.place = .receiving → (c.state.emul.pc .id0).Waited a.llcTimer.startTime.micros (c.wake .id0)
  drained : Late slack c a → b.load + b.due + c.state.flight = 0

/-- The side has put a packet, and sleeps until it is done. -/
def Flying (c : Clocked System ConnId) (id : ConnId) : Prop :=
  c.state.emul.pc id = .sendFlush ∧ (c.state.emul.devs.dev id).outputBuff.sendTime.Normal ∧
    (c.state.emul.devs.dev id).outputBuff.sendTime.micros + airTime ≤ c.wake id

structure Punctual (slack : Int) (c : Clocked System ConnId) (a : Station LlcStateM) (b : Station LlcStateS) :
    Prop where
  ordered : Ordered c.state a b
  timeout : a.macRecvTimeout = llcTimeoutMs
  answering : b.st = .sendAll → b.send.isSome = true
  blocking : ∀ id, (c.state.emul.pc id).Blocks
  flying : ∀ id, (c.state.emul.devs.dev id).outputBuff.isSend = false → Flying c id
  awake : c.wake .id1 ≤ c.clock + pollTime ∨ (c.state.emul.devs.dev .id1).outputBuff.isSend = false ∧
    c.wake .id1 ≤ (c.state.emul.devs.dev .id1).outputBuff.sendTime.micros + airTime + slack
  timed : a.st = .sendAll → Timed slack c a b

variable {c : Clocked System ConnId} {time : Int}

/-- A packet that the master has in the air is done in time. -/
theorem Punctual.in_time (h : Punctual slack c a b) (hst : a.st = .sendAll)
    (hair : (c.state.emul.devs.dev .id0).outputBuff.isSend = false) (htime : time ≤ c.wake .id0 + slack) :
    time ≤ a.llcTimer.startTime.micros + airTime + 7 * slack := by
  have hpc := (h.flying .id0 hair).1
  have hcall := h.ordered.masterCall
  have hinv := h.ordered.master.inv
  rw [hpc] at hcall
  cases hp : a.place with
  | llc | mac =>
    rw [hp] at hcall
    cases hcall.1
  | receiving =>
    rw [hp] at hcall
    rcases hcall with ⟨hr, -⟩ | ⟨hout, -⟩
    · cases hr
    · cases hout
  | sending =>
    simp only [MInv, hp, hst] at hinv
    have hsend := (h.timed hst).sending hinv.1
    simp only [masterRest, hp, hpc, WlPc.sendRest] at hsend
    omega

/-- After that time the slave has nothing to do. -/
theorem Punctual.idle (h : Punctual slack c a b) (hst : a.st = .sendAll) (hslack : 0 ≤ slack)
    (htime : time ≤ c.wake .id1 + slack)
    (hlate : a.llcTimer.startTime.micros + 2 * airTime + 2 * pollTime + 30 * slack < time) : ¬SlaveBusy c.state b := by
  intro hbusy
  have hrest := (h.timed hst).busy hbusy
  have hpos := slaveRest_pos c.state b hslack
  omega

/-- A slave that has nothing to do is not sending. -/
theorem Ordered.not_sending (h : Ordered n a b) (hidle : ¬SlaveBusy n b) : b.place ≠ .sending := by
  intro hp
  have hinv := h.slave.inv
  cases hst : b.st <;> simp only [SInv, hp, hst] at hinv
  exact hidle (Or.inl hinv.1)

theorem Ordered.no_packet (h : Ordered n a b) (hidle : ¬SlaveBusy n b) :
    b.load = 0 ∧ b.due = 0 ∧ (n.emul.pc .id1).sends = false ∧ (n.emul.pc .id1).carried = 0 ∧
      retPackets (n.ret .id1) = 0 := by
  have hcall := h.slaveCall
  have hplace := h.not_sending hidle
  simp only [SlaveBusy, not_or, Bool.not_eq_true, Option.isSome_eq_false_iff, Option.isNone_iff_eq_none, ne_eq,
    not_not] at hidle
  obtain ⟨hsend, hrecv, hst, -, hcopied⟩ := hidle
  obtain ⟨hcheck, hret⟩ := System.copied_false hcopied
  refine ⟨by simp [Station.load, hsend, hrecv], by simp [Station.due, hst], ?_⟩
  cases hp : b.place with
  | sending => exact absurd hp hplace
  | llc | mac =>
    rw [hp] at hcall
    rw [hcall.1, hcall.2]
    exact ⟨rfl, rfl, rfl⟩
  | receiving =>
    rw [hp] at hcall
    rcases hcall with ⟨hr, hnone⟩ | ⟨hout, res, hsome⟩
    · have hs : (n.emul.pc .id1).sends = false := Bool.eq_false_iff.mpr fun hs => WlPc.not_both hs hr
      exact ⟨hs, WlPc.carried_receive hs hcheck, by rw [hnone]; rfl⟩
    · refine ⟨by rw [hout]; rfl, by rw [hout]; rfl, ?_⟩
      cases res with
      | none => rw [hsome]; rfl
      | some d => exact absurd hsome (hret d)

/-- What an idle slave leaves to the master's input buffer. -/
theorem Punctual.nothing (h : Punctual slack c a b) (hidle : ¬SlaveBusy c.state b) {w : WlWait}
    (hpc : c.state.emul.pc .id0 = .dataRead w)
    (hempty : (c.state.emul.devs.dev .id0).inputBuff.isRecieved = false) : b.load + b.due + c.state.flight = 0 := by
  obtain ⟨hload, hdue, hsends, hcarried, hret⟩ := h.ordered.no_packet hidle
  have hout : ∀ id, (c.state.emul.devs.dev id).outputBuff.isSend = true := by
    intro id
    by_contra hair
    obtain ⟨hflush, -⟩ := h.flying id (Bool.eq_false_iff.mpr hair)
    cases id with
    | id0 =>
      rw [hpc] at hflush
      cases hflush
    | id1 =>
      rw [hflush] at hsends
      cases hsends
  have hin : (c.state.emul.devs.dev .id1).inputBuff.isRecieved = false := by
    by_contra hin
    exact hidle (Or.inr (Or.inr (Or.inr (Or.inl (Bool.not_eq_false _ ▸ hin)))))
  have hnone : c.state.ret .id0 = none := h.ordered.masterCall.inside fun hout => by
    rw [hpc] at hout
    cases hout
  have hcarried₀ : (c.state.emul.pc .id0).carried = 0 := by rw [hpc]; rfl
  have hret₀ : retPackets (c.state.ret .id0) = 0 := by rw [hnone]; rfl
  simp [hload, hdue, System.flight, Emul.flight, WlEmulGlobal.lane, ConnId.other, hout, hin, hempty, hcarried, hret,
    hcarried₀, hret₀]

/-- Nothing is under way. -/
theorem Ordered.still_of (h : Ordered n a b) (hsend : a.send = none) (hrecv : a.recv = none)
    (hidle : ¬SlaveBusy n b) (hflight : n.flight = 0) : n.still = true := by
  obtain ⟨cm, hrm⟩ := h.master.rel
  obtain ⟨cs, hrs⟩ := h.slave.rel
  simp only [SlaveBusy, not_or, Bool.not_eq_true, ne_eq, not_not] at hidle
  obtain ⟨hbsend, hbrecv, hst, hin₁, hcopied⟩ := hidle
  have hlanes : n.emul.devs.lane .id0 = 0 ∧ n.emul.devs.lane .id1 = 0 := by
    unfold System.flight Emul.flight at hflight
    omega
  simp only [WlEmulGlobal.lane, ConnId.other, Nat.add_eq_zero_iff, Bool.toNat_eq_zero, Bool.not_eq_false'] at hlanes
  simp [System.still, System.quiet, hrm.hasPackToSend, hrm.hasReceivedPack, hrs.hasPackToSend, hrs.hasReceivedPack,
    hrs.st, hsend, hrecv, hbsend, hbrecv, hst, hcopied, hlanes.1, hlanes.2]

/-- **The timer is read as expired only when nothing is under way.** -/
theorem Punctual.still {now : Timeval} (h : Punctual slack c a b) (hslack : 0 ≤ slack ∧ slack ≤ 2000)
    (hplace : a.place = .llc) (hst : a.st = .sendAll) (hrecv : a.recv = none)
    (hexp : ttTimerIsTimeouted a.llcTimer now = true) (hnow : now.Normal) (hread : now.micros ≤ time)
    (hallow : ∀ x, time ≤ c.wake x + slack) : c.state.still = true := by
  have ht := h.timed hst
  have hair : airTime = 100000 := rfl
  have hpoll : pollTime = 10000 := rfl
  have hexpired := (ttTimerIsTimeouted_iff ht.normal hnow).mp hexp
  have hinterval : a.llcTimer.intervalMs.toNat = 300 := by
    rw [ht.interval]
    decide
  rw [hinterval] at hexpired
  have htime₀ := hallow .id0
  have hsend : a.send = none := by
    cases hsend : a.send with
    | none => rfl
    | some d =>
      have hrest := ht.sending (by rw [hsend]; rfl)
      simp only [masterRest, hplace] at hrest
      omega
  have hidle : ¬SlaveBusy c.state b := h.idle hst hslack.1 (hallow .id1) (by omega)
  have hdrained := ht.drained (Or.inr (Or.inr ⟨hplace, hsend, hrecv, by omega⟩))
  exact h.ordered.still_of hsend hrecv hidle (by omega)

end LoraBridge
