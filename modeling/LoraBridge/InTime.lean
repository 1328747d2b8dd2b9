import LoraBridge.Punctual

/-!
# In time

The clock against the steps: `Punctual` holds at the start and is kept by the steps of the loops (`Punctual.master`,
`Punctual.slave`) and of the emulator (`Punctual.tick`).
-/

set_option autoImplicit false

namespace LoraBridge

open Transducer

variable {cfg : WlConfig} {id j : ConnId} {n n' : System} {a a' : Station LlcStateM} {b b' : Station LlcStateS}
  {slack : Int} {c : Clocked System ConnId} {time : Int}

/-! ## The steps of the loops -/

section Wake

variable {i : Input} {t : WlTick}

@[simp] theorem wake_master_id0 : (systemTiming.next c (.master i) time n').wake .id0 = time := by
  simp [Timing.next, systemTiming, SystemInput.side]
@[simp] theorem wake_master_id1 : (systemTiming.next c (.master i) time n').wake .id1 = c.wake .id1 := rfl
@[simp] theorem wake_slave_id0 : (systemTiming.next c (.slave i) time n').wake .id0 = c.wake .id0 := rfl
@[simp] theorem wake_slave_id1 : (systemTiming.next c (.slave i) time n').wake .id1 = time := by
  simp [Timing.next, systemTiming, SystemInput.side]
@[simp] theorem wake_tick : (systemTiming.next c (.tick id t) time n').wake id = time + (c.state.emul.pc id).sleep :=
  Function.update_self ..
theorem wake_tick_of_ne {j : ConnId} (hj : j ≠ id) : (systemTiming.next c (.tick id t) time n').wake j = c.wake j :=
  Function.update_of_ne hj ..

end Wake

theorem slave_congr (hdevs : n'.emul.devs = n.emul.devs) (hpc : n'.emul.pc .id1 = n.emul.pc .id1)
    (hret : n'.ret .id1 = n.ret .id1) :
    (SlaveBusy n' b ↔ SlaveBusy n b) ∧ slaveRest slack n' b = slaveRest slack n b := by
  unfold SlaveBusy slaveRest
  rw [copied_congr hpc hret, hdevs, hpc, hret]
  exact ⟨Iff.rfl, rfl⟩

/-- With the timer just started, a slave that still sends has its packet behind it. -/
theorem Punctual.fresh (h : Punctual slack c a b) (hslack : 0 ≤ slack) (hnone : b.load + b.due + c.state.flight = 0)
    (hbusy : SlaveBusy c.state b) : c.wake .id1 + slaveRest slack c.state b ≤ c.clock + pollTime + 3 * slack := by
  have hempty : (c.state.emul.devs.dev .id1).inputBuff.isRecieved = false := by
    by_contra hin
    have := flight_of_full (Bool.not_eq_false _ ▸ hin)
    omega
  have hcopied : c.state.copied = false := by
    by_contra hc
    have := flight_of_copied (Bool.not_eq_false _ ▸ hc)
    omega
  have hair : (c.state.emul.devs.dev .id1).outputBuff.isSend = true := by
    by_contra hair
    have hlane : 1 ≤ c.state.emul.devs.lane .id1 := by simp [WlEmulGlobal.lane, Bool.eq_false_iff.mpr hair]
    unfold System.flight Emul.flight at hnone
    omega
  have hawake := h.awake.resolve_right fun hc => by rw [hair] at hc; cases hc.1
  have hput : (c.state.emul.pc .id1).carried = 0 := by
    unfold System.flight Emul.flight at hnone
    omega
  have hsend := WlPc.sendRest_le hslack hput
  have hplace : b.place = .sending := by
    by_contra hp
    have hload : b.load = 0 ∧ b.due = 0 := by omega
    simp only [Station.load, hp, if_false, Nat.add_eq_zero_iff, List.length_eq_zero_iff, Option.toList_eq_nil_iff,
      Station.due, ite_eq_right_iff, one_ne_zero, imp_false, not_or] at hload
    obtain ⟨⟨hbsend, hbrecv⟩, hreceived, hresend⟩ := hload
    have hanswer := h.answering
    cases hst : b.st <;> simp_all [SlaveBusy]
  simp only [slaveRest, hplace, hempty, Bool.false_eq_true, if_false]
  omega

theorem allows_pass {now : Timeval} (h : systemTiming.Allows slack c (.master (.pass now)) time) :
    now.Normal ∧ c.clock ≤ now.micros ∧ c.wake .id0 ≤ now.micros ∧ now.micros ≤ time := by
  obtain ⟨hnormal, hlo, hhi⟩ := reads_iff.mp h.2.2 now List.mem_cons_self
  exact ⟨hnormal, (le_max_left _ _).trans hlo, (le_max_right _ _).trans hlo, hhi⟩

/-- The master has just started its timer. -/
theorem Punctual.started {now : Timeval} (h : Punctual slack c a b) (hslack : 0 ≤ slack)
    (hallow : systemTiming.Allows slack c (.master (.pass now)) time) (hnone : b.load + b.due + c.state.flight = 0)
    (hcongr : (SlaveBusy n' b ↔ SlaveBusy c.state b) ∧ slaveRest slack n' b = slaveRest slack c.state b)
    (hcall : n'.emul.pc .id0 = .out ∧ n'.ret .id0 = none) (hplace : a'.place = .llc) (hsend : a'.send.isSome = true)
    (htimer : a'.llcTimer = ttTimerStart now llcTimeoutMs) :
    Timed slack (systemTiming.next c (.master (.pass now)) time n') a' b := by
  obtain ⟨hnormal, hclock, hwake, hread⟩ := allows_pass hallow
  have hle := hallow.le_wake .id0
  refine ⟨?_, ?_, ?_, fun _ => ?_, fun hbusy => ?_, fun hp => ?_, fun hlate => ?_⟩
  · rw [htimer]
    exact hnormal
  · rw [htimer]
    rfl
  · rw [htimer, wake_master_id0]
    exact hread
  · simp only [htimer, wake_master_id0, masterRest, hplace, ttTimerStart]
    omega
  · have hrest := h.fresh hslack hnone (hcongr.1.mp hbusy)
    simp only [htimer, wake_master_id1, Timing.next_state, hcongr.2, ttTimerStart]
    unfold airTime pollTime at *
    omega
  · rw [hplace] at hp
    cases hp
  · rcases hlate with ⟨w, hw, -⟩ | hret | ⟨-, hsend', -⟩
    · rw [Timing.next_state, hcall.1] at hw
      cases hw
    · rw [Timing.next_state, hcall.2] at hret
      cases hret
    · rw [hsend'] at hsend
      cases hsend

/-- The timer goes on. -/
theorem Timed.master_step {i : Input} (h : Timed slack c a b) (hallow : systemTiming.Allows slack c (.master i) time)
    (hcongr : (SlaveBusy n' b ↔ SlaveBusy c.state b) ∧ slaveRest slack n' b = slaveRest slack c.state b)
    (htimer : a'.llcTimer = a.llcTimer)
    (hsending : a'.send.isSome = true →
      a.send.isSome = true ∧ masterRest slack n' a' + slack ≤ masterRest slack c.state a)
    (hwaiting : a'.place = .receiving → (n'.emul.pc .id0).Waited a.llcTimer.startTime.micros time)
    (hdrained : Late slack (systemTiming.next c (.master i) time n') a' → b.load + b.due + n'.flight = 0) :
    Timed slack (systemTiming.next c (.master i) time n') a' b := by
  have hwake : c.wake .id0 ≤ time := hallow.wake_le
  have hle := hallow.le_wake .id0
  refine ⟨?_, ?_, ?_, fun hsend => ?_, fun hbusy => ?_, fun hp => ?_, hdrained⟩
  · rw [htimer]
    exact h.normal
  · rw [htimer]
    exact h.interval
  · rw [htimer, wake_master_id0]
    exact h.since.trans hwake
  · obtain ⟨hsend, hrest⟩ := hsending hsend
    have hbound := h.sending hsend
    rw [htimer, wake_master_id0, Timing.next_state]
    omega
  · rw [htimer, wake_master_id1, Timing.next_state, hcongr.2]
    exact h.busy (hcongr.1.mp hbusy)
  · rw [htimer, wake_master_id0, Timing.next_state]
    exact hwaiting hp

/-- A call that goes on or has just begun is not late. -/
theorem not_late (hpc : ∀ w, c.state.emul.pc .id0 ≠ .dataCheck w false) (hret : c.state.ret .id0 = none)
    (hllc : a.place = .llc → a.send = none → a.recv = none →
      c.wake .id0 ≤ a.llcTimer.startTime.micros + airTime + 9 * slack) : ¬Late slack c a := by
  rintro (⟨w, hw, -⟩ | hr | ⟨hp, hsend, hrecv, hlate⟩)
  · exact hpc w hw
  · rw [hret] at hr
    cases hr
  · exact absurd (hllc hp hsend hrecv) (by omega)

/-- **A step of the master's loop.** -/
theorem Punctual.master_timed {i : Input} {o : List (Event LlcStateM)} (h : Punctual slack c a b) (hslack : 0 ≤ slack)
    (hallow : systemTiming.Allows slack c (.master i) time) (hmove : MMove a i a' o)
    (hcalled : Called a.macRecvTimeout .id0 i (transmitted o) c.state n')
    (hflight : n'.flight ≤ c.state.flight + (transmitted o).length) (hst' : a'.st = .sendAll) :
    Timed slack (systemTiming.next c (.master i) time n') a' b := by
  have hcongr : (SlaveBusy n' b ↔ SlaveBusy c.state b) ∧ slaveRest slack n' b = slaveRest slack c.state b :=
    slave_congr hcalled.devs (hcalled.other .id1 (by decide)).1 (hcalled.other .id1 (by decide)).2
  have hcall := h.ordered.masterCall
  have hwake : c.wake .id0 ≤ time := hallow.wake_le
  have hle := hallow.le_wake .id0
  cases hmove with
  | start hp hst hsend hrecv =>
    rw [hp] at hcall
    obtain ⟨hpc, hret⟩ := hcalled.move.pass_eq
    have hnone := h.ordered.turn.turn (by rw [hst]; decide)
    exact h.started hslack hallow (by omega) hcongr ⟨hpc.trans hcall.1, hret.trans hcall.2⟩ hp rfl rfl
  | retry hp hst hsend hrecv hresend =>
    rw [hp] at hcall
    obtain ⟨hpc, hret⟩ := hcalled.move.pass_eq
    have hnone := h.ordered.turn.turn (by rw [hst]; decide)
    exact h.started hslack hallow (by omega) hcongr ⟨hpc.trans hcall.1, hret.trans hcall.2⟩ hp rfl rfl
  | wait hp hst hrecv =>
    rw [hp] at hcall
    obtain ⟨hpc, hret⟩ := hcalled.move.pass_eq
    refine (h.timed hst).master_step hallow hcongr rfl (fun hsend => ⟨hsend, ?_⟩) (fun hp' => by cases hp')
      fun hlate => ?_
    · simp only [masterRest, hp]
      omega
    · refine absurd hlate (not_late ?_ (hret.trans hcall.2) fun hp' => by cases hp')
      intro w hw
      rw [Timing.next_state, hpc, hcall.1] at hw
      cases hw
  | call hp hst hrecv hresend hsend =>
    obtain ⟨hpc, hret⟩ := hcalled.move.send_eq
    refine (h.timed hst).master_step hallow hcongr rfl (fun hsend => ⟨hsend, ?_⟩) (fun hp' => by cases hp')
      fun hlate => ?_
    · simp only [masterRest, hp, hpc, WlPc.sendRest]
      omega
    · refine absurd hlate (not_late ?_ hret fun hp' => by cases hp')
      intro w hw
      rw [Timing.next_state, hpc] at hw
      cases hw
  | listen hp hst hrecv hresend hsend =>
    obtain ⟨hpc, hret⟩ := hcalled.move.listen_eq
    refine (h.timed hst).master_step hallow hcongr rfl ?_ (fun _ => ?_) fun hlate => ?_
    · intro hsome
      rw [hsend] at hsome
      cases hsome
    · rw [hpc]
      exact h.timeout
    · refine absurd hlate (not_late ?_ hret fun hp' => by cases hp')
      intro w hw
      rw [Timing.next_state, hpc] at hw
      cases hw
  | sent hp hst hrecv hresend =>
    obtain ⟨⟨hpc, -⟩, hpc', hret'⟩ := hcalled.move.sent_eq
    have hsend : a.send.isSome = true := by
      have hinv := h.ordered.master.inv
      simp only [MInv, hp, hst] at hinv
      exact hinv.1
    have hrest := (h.timed hst).sending hsend
    simp only [masterRest, hp, hpc, WlPc.sendRest] at hrest
    refine (h.timed hst).master_step hallow hcongr rfl (fun hs => by cases hs) (fun hp => by cases hp) fun hlate => ?_
    refine absurd hlate (not_late ?_ hret' fun _ _ _ => ?_)
    · intro w hw
      rw [Timing.next_state, hpc'] at hw
      cases hw
    · rw [wake_master_id0]
      dsimp only
      omega
  | @fail res hp hst hrecv hsend hresend hpacket =>
    obtain ⟨⟨hpc, hret⟩, hpc', hret'⟩ := hcalled.move.received_eq
    refine (h.timed hst).master_step hallow hcongr rfl ?_ (fun hp' => by cases hp') fun hlate => ?_
    · intro hsome
      rw [hsend] at hsome
      cases hsome
    · cases res with
      | none =>
        have hdrained := (h.timed hst).drained (Or.inr (Or.inl hret))
        simp only [transmitted_nil, List.length_nil] at hflight
        omega
      | some d =>
        -- the damaged packet was the only one
        have hone := h.ordered.turn.single
        obtain ⟨hpc₁, hret₁⟩ := hcalled.other .id1 (by decide)
        have hpacket : retPackets (c.state.ret .id0) = 1 := by rw [hret]; rfl
        have hgone : retPackets (n'.ret .id0) = 0 := by rw [hret']; rfl
        simp only [System.flight, Emul.flight, hcalled.devs, hpc, hpc', hpc₁, hret₁, hpacket, hgone] at hone ⊢
        omega
  | @arrive res d hp hst hrecv hsend hresend hpacket =>
    obtain ⟨-, hpc', hret'⟩ := hcalled.move.received_eq
    refine (h.timed hst).master_step hallow hcongr rfl ?_ (fun hp' => by cases hp') fun hlate => ?_
    · intro hsome
      rw [hsend] at hsome
      cases hsome
    · refine absurd hlate (not_late ?_ hret' fun _ _ hr => by cases hr)
      intro w hw
      rw [Timing.next_state, hpc'] at hw
      cases hw
  | _ => cases hst'

theorem CallMove.blocks {timeout : BitVec 32} {i : Input} {tx : List PackData} {pc pc' : WlPc} {r r' : Option WlRet}
    (h : CallMove timeout i tx pc r pc' r') (hb : pc.Blocks) : pc'.Blocks := by
  cases h with
  | pass => exact hb
  | send => exact (by decide : stkSendTimeout ≠ 0)
  | _ => trivial

/-- A step of a loop leaves what is in the air, and the thread that sleeps there. -/
theorem Punctual.flying_call {i : SystemInput} {timeout : BitVec 32} {x : Input} {tx : List PackData}
    (h : Punctual slack c a b) (hcalled : Called timeout i.side x tx c.state n') (hout : c.state.emul.pc i.side = .out)
    (hair : (n'.emul.devs.dev j).outputBuff.isSend = false) : Flying (systemTiming.next c i time n') j := by
  rw [hcalled.devs] at hair
  obtain ⟨hpc, hnormal, hwake⟩ := h.flying j hair
  have hj : j ≠ i.side := by
    rintro rfl
    rw [hout] at hpc
    cases hpc
  refine ⟨?_, ?_, ?_⟩
  · rw [Timing.next_state, (hcalled.other j hj).1, hpc]
  · rw [Timing.next_state, hcalled.devs]
    exact hnormal
  · rw [Timing.next_state, Timing.next_wake_of_ne hj, hcalled.devs]
    exact hwake

theorem Punctual.master {i : Input} {o : List (Event LlcStateM)} (h : Punctual slack c a b) (hslack : 0 ≤ slack)
    (hallow : systemTiming.Allows slack c (.master i) time) (hord : Ordered n' a' b) (hmove : MMove a i a' o)
    (hcalled : Called a.macRecvTimeout .id0 i (transmitted o) c.state n')
    (hflight : n'.flight ≤ c.state.flight + (transmitted o).length) :
    Punctual slack (systemTiming.next c (.master i) time n') a' b where
  ordered := hord
  timeout := by rw [hmove.fixed.2, h.timeout]
  answering := h.answering
  blocking id := by
    cases id with
    | id0 => exact hcalled.move.blocks (h.blocking .id0)
    | id1 =>
      rw [Timing.next_state, (hcalled.other .id1 (by decide)).1]
      exact h.blocking .id1
  flying j hair := h.flying_call (i := .master i) hcalled (hcalled.out hmove.places.1 h.ordered.masterCall) hair
  awake := by
    rw [Timing.next_state, wake_master_id1, Timing.next_clock, hcalled.devs]
    have hclock := hallow.clock_le
    exact h.awake.imp_left fun hawake => by omega
  timed := h.master_timed hslack hallow hmove hcalled hflight

theorem Punctual.slave {i : Input} {o : List (Event LlcStateS)} (h : Punctual slack c a b) (hslack : 0 ≤ slack)
    (hallow : systemTiming.Allows slack c (.slave i) time) (hord : Ordered n' a b') (hmove : SMove b i b' o)
    (hcalled : Called b.macRecvTimeout .id1 i (transmitted o) c.state n')
    (hpackets : b'.load + b'.due + n'.flight ≤ b.load + b.due + c.state.flight) :
    Punctual slack (systemTiming.next c (.slave i) time n') a b' where
  ordered := hord
  timeout := h.timeout
  answering := by
    intro hst'
    cases hmove with
    | respond => rfl
    | rest _ hst | discard _ hst | call _ hst | listen _ hst | sent _ hst | fail _ hst | arrive _ hst =>
      rw [show _ = LlcStateS.sendAll from hst'] at hst
      cases hst
    | _ => cases hst'
  blocking id := by
    cases id with
    | id0 =>
      rw [Timing.next_state, (hcalled.other .id0 (by decide)).1]
      exact h.blocking .id0
    | id1 => exact hcalled.move.blocks (h.blocking .id1)
  flying j hair := h.flying_call (i := .slave i) hcalled (hcalled.out hmove.places.1 h.ordered.slaveCall) hair
  awake := by
    refine Or.inl ?_
    rw [wake_slave_id1, Timing.next_clock]
    unfold pollTime
    omega
  timed := by
    intro hst
    have ht := h.timed hst
    obtain ⟨hpc, hret⟩ := hcalled.other .id0 (by decide)
    have hle := hallow.le_wake .id1
    refine ⟨ht.normal, ht.interval, ht.since, fun hsend => ?_, fun hbusy => ?_, fun hp => ?_, fun hlate => ?_⟩
    · have hrest := ht.sending hsend
      unfold masterRest at hrest ⊢
      rw [wake_slave_id0, Timing.next_state, hpc]
      exact hrest
    · obtain ⟨hbusy', hrest⟩ := h.ordered.slave_rest hmove hcalled hslack hbusy
      have hbound := ht.busy hbusy'
      rw [wake_slave_id1, Timing.next_state]
      omega
    · rw [wake_slave_id0, Timing.next_state, hpc]
      exact ht.waiting hp
    · have hlate' : Late slack c a := by
        unfold Late at hlate ⊢
        rw [Timing.next_state, hpc, hret] at hlate
        exact hlate
      have hnone := ht.drained hlate'
      rw [Timing.next_state]
      omega

/-! ## The steps of the emulator -/

section Ticks

variable {t : WlTick} {g g' : WlEmulGlobal} {pc pc' : WlPc} {ret : Option WlRet}

theorem CalmTick.blocks (h : CalmTick id t g g' pc pc' ret) (hb : pc.Blocks) : pc'.Blocks := by
  cases h with
  | sendBegin | sendTest => exact hb
  | sendPut => split_ifs <;> trivial
  | _ => trivial

theorem allows_tick (h : systemTiming.Allows slack c (.tick id t) time) (j : ConnId) :
    (t.now j).Normal ∧ c.clock ≤ (t.now j).micros ∧ c.wake id ≤ (t.now j).micros ∧ (t.now j).micros ≤ time := by
  obtain ⟨hnormal, hlo, hhi⟩ := reads_iff.mp h.2.2 (t.now j) (by cases j <;> simp [SystemInput.readings, WlTick.now])
  exact ⟨hnormal, (le_max_left _ _).trans hlo, (le_max_right _ _).trans hlo, hhi⟩

/-- What is in the air after a step of a call belongs to a thread that sleeps. -/
theorem Punctual.flying_tick (h : Punctual slack c a b) (hallow : systemTiming.Allows slack c (.tick id t) time)
    (htick : CalmTick id t c.state.emul.devs n'.emul.devs (c.state.emul.pc id) (n'.emul.pc id) ret)
    (hother : ∀ k, k ≠ id → n'.emul.pc k = c.state.emul.pc k)
    (hair : (n'.emul.devs.dev j).outputBuff.isSend = false) : Flying (systemTiming.next c (.tick id t) time n') j := by
  obtain ⟨hnormal, -, hwake, hread⟩ := allows_tick hallow j
  rcases htick.flying hair with ⟨hsame, hlook⟩ | ⟨rfl, ⟨payload, timeout, hpc⟩, hput⟩
  · rw [hsame] at hair
    obtain ⟨hpc, hsent, hdone⟩ := h.flying j hair
    have hj : j ≠ id := by
      -- the thread that has slept finds its packet done
      rintro rfl
      have hair' := hlook (by rw [hpc]; rfl)
      rw [(airDone_micros hsent hnormal).mpr (hdone.trans hwake)] at hair'
      cases hair'
    refine ⟨?_, ?_, ?_⟩
    · rw [Timing.next_state, hother j hj, hpc]
    · rw [Timing.next_state, hsame]
      exact hsent
    · rw [Timing.next_state, wake_tick_of_ne hj, hsame]
      exact hdone
  · have hblocks := h.blocking j
    rw [hpc] at hblocks
    have htimeout : timeout ≠ 0 := hblocks
    obtain ⟨hnormal₀, -, -, hread₀⟩ := allows_tick hallow .id0
    refine ⟨?_, ?_, ?_⟩
    · rw [Timing.next_state]
      rw [hpc] at htick
      generalize n'.emul.pc j = pc' at htick
      generalize n'.emul.devs = g' at htick
      cases htick
      rw [if_pos htimeout]
    · rw [Timing.next_state, hput]
      exact hnormal₀
    · rw [Timing.next_state, wake_tick, hput, hpc, WlPc.sleep, if_pos htimeout]
      exact Int.add_le_add_right hread₀ _

/-- The slave's thread does not sleep for long, but for a packet in the air. -/
theorem Punctual.awake_tick (h : Punctual slack c a b) (hslack : 0 ≤ slack ∧ slack ≤ 2000)
    (hallow : systemTiming.Allows slack c (.tick id t) time)
    (htick : CalmTick id t c.state.emul.devs n'.emul.devs (c.state.emul.pc id) (n'.emul.pc id) ret) :
    (systemTiming.next c (.tick id t) time n').wake .id1 ≤ time + pollTime ∨
      (n'.emul.devs.dev .id1).outputBuff.isSend = false ∧
        (systemTiming.next c (.tick id t) time n').wake .id1 ≤
          (n'.emul.devs.dev .id1).outputBuff.sendTime.micros + airTime + slack := by
  have hclock := hallow.clock_le
  cases id with
  | id1 =>
    rw [wake_tick]
    rcases (c.state.emul.pc .id1).sleep_le with hle | ⟨payload, timeout, hpc⟩
    · exact Or.inl (by omega)
    · refine Or.inr ?_
      obtain ⟨-, -, hwake, -⟩ := allows_tick hallow .id0
      have htime := hallow.le_wake .id1
      have hblocks := h.blocking .id1
      rw [hpc] at hblocks htick ⊢
      have htimeout : timeout ≠ 0 := hblocks
      generalize n'.emul.pc .id1 = pc' at htick
      generalize n'.emul.devs = g' at htick ⊢
      cases htick
      simp only [WlTick.now] at hwake
      simp only [WlPc.sleep, htimeout, WlEmulGlobal.put, setOut_out, ne_eq, not_false_iff, if_true, true_and]
      omega
  | id0 =>
    rw [wake_tick_of_ne (by decide)]
    rcases h.awake with hawake | ⟨hair, hawake⟩
    · exact Or.inl (by omega)
    · cases hsent : (n'.emul.devs.dev .id1).outputBuff.isSend with
      | false =>
        rcases htick.flying hsent with ⟨hsame, -⟩ | ⟨hid, -⟩
        · exact Or.inr ⟨rfl, by rw [hsame]; exact hawake⟩
        · cases hid
      | true =>
        obtain ⟨hnormal, -, -, hread⟩ := allows_tick hallow .id1
        have hdone := (airDone_micros (h.flying .id1 hair).2.1 hnormal).mp (htick.landed hair hsent)
        unfold pollTime
        exact Or.inl (by omega)

/-- A slave that gets a packet, or goes on with one. -/
theorem Punctual.busy_tick (h : Punctual slack c a b) (hslack : 0 ≤ slack ∧ slack ≤ 2000) (hst : a.st = .sendAll)
    (hallow : systemTiming.Allows slack c (.tick id t) time) (hord : Ordered n' a b)
    (htick : CalmTick id t c.state.emul.devs n'.emul.devs (c.state.emul.pc id) (n'.emul.pc id) (n'.ret id))
    (hother : ∀ k, k ≠ id → n'.emul.pc k = c.state.emul.pc k ∧ n'.ret k = c.state.ret k)
    (hin : c.state.emul.pc id ≠ .out) (hbusy : SlaveBusy n' b) :
    (systemTiming.next c (.tick id t) time n').wake .id1 + slaveRest slack n' b ≤
      a.llcTimer.startTime.micros + 2 * airTime + 2 * pollTime + 30 * slack := by
  have hle := hallow.le_wake .id1
  by_cases hfull : (n'.emul.devs.dev .id1).inputBuff.isRecieved = true ∧
      (c.state.emul.devs.dev .id1).inputBuff.isRecieved = false
  · -- the packet of the master has arrived: the rest is counted from now
    obtain ⟨hfull, hempty⟩ := hfull
    have hair : (c.state.emul.devs.dev .id0).outputBuff.isSend = false := by
      refine (htick.filled hfull).resolve_left ?_
      rw [hempty]
      exact Bool.false_ne_true
    have htime := h.in_time hst hair (hallow.le_wake .id0)
    have hput : (n'.emul.pc .id1).carried = 0 := by
      have hone := hord.turn.single
      have hlane : 1 ≤ n'.emul.devs.lane .id0 := by simp [WlEmulGlobal.lane, ConnId.other, hfull]
      unfold System.flight Emul.flight at hone
      omega
    have hrest := slaveRest_le n' b hslack.1 hput
    have hwake : (systemTiming.next c (.tick id t) time n').wake .id1 ≤ time + pollTime := by
      rcases h.awake_tick hslack hallow htick with hawake | ⟨hair₁, -⟩
      · exact hawake
      · have hlane₁ : n'.emul.devs.lane .id0 + n'.emul.devs.lane .id1 ≤ 1 := by
          have hone := hord.turn.single
          unfold System.flight Emul.flight at hone
          omega
        simp only [WlEmulGlobal.lane, ConnId.other, hfull, hair₁, Bool.not_false, Bool.toNat_true] at hlane₁
        omega
    omega
  · have hkept : (n'.emul.devs.dev .id1).inputBuff.isRecieved = true →
        (c.state.emul.devs.dev .id1).inputBuff.isRecieved = true := by
      intro hfull'
      by_contra hempty
      exact hfull ⟨hfull', Bool.eq_false_iff.mpr hempty⟩
    cases id with
    | id1 =>
      obtain ⟨hbusy', hrest⟩ := h.ordered.slave_tick htick hin hslack.1 hbusy hkept
      have hbound := (h.timed hst).busy hbusy'
      rw [wake_tick]
      omega
    | id0 =>
      obtain ⟨hpc, hret⟩ := hother .id1 (by decide)
      obtain ⟨hbusy', hrest⟩ := slave_mono hpc hret hslack.1 hkept hbusy
      have hbound := (h.timed hst).busy hbusy'
      rw [wake_tick_of_ne (by decide)]
      omega

/-- The master's receive counts its sleeps. -/
theorem CalmTick.waited {since : Int} {wake : Int} (h : CalmTick id t g g' pc pc' ret) (hr : pc.receives = true)
    (hw : pc.Waited since wake) (hsince : since ≤ wake) (htime : wake ≤ time) : pc'.Waited since (time + pc.sleep) := by
  cases h with
  | recvBegin => exact ⟨hw, by simp, by simpa [WlPc.sleep] using hsince.trans htime⟩
  | dataWorker | dataRead =>
    obtain ⟨htimeout, hlt, hle⟩ := hw
    exact ⟨htimeout, hlt, by simp only [WlPc.sleep]; omega⟩
  | @again w hwait hmore =>
    obtain ⟨htimeout, hlt, hle⟩ := hw
    have hsum : (w.timeSleep + configWlSleepGranularity).toNat = w.timeSleep.toNat + 10 := by
      rw [BitVec.toNat_add_of_lt] <;> simp [configWlSleepGranularity]
      omega
    rw [htimeout] at hmore hwait
    refine ⟨htimeout, ?_, ?_⟩
    · exact BitVec.lt_def.mp hmore
    · simp only [WlPc.sleep, htimeout, ne_eq, hwait, not_false_iff, if_true, hsum]
      unfold pollTime
      omega
  | _ => trivial

/-- The last look for the response comes when the slave has dealt with everything. -/
theorem Punctual.drained_tick (h : Punctual slack c a b) (hslack : 0 ≤ slack ∧ slack ≤ 2000) (hst : a.st = .sendAll)
    (hallow : systemTiming.Allows slack c (.tick .id0 t) time)
    (htick : CalmTick .id0 t c.state.emul.devs n'.emul.devs (c.state.emul.pc .id0) (n'.emul.pc .id0) (n'.ret .id0))
    (hin : c.state.emul.pc .id0 ≠ .out) (hlate : Late slack (systemTiming.next c (.tick .id0 t) time n') a) :
    b.load + b.due + c.state.flight = 0 := by
  have ht := h.timed hst
  have hinside := h.ordered.masterCall.within hin
  have hair : airTime = 100000 := rfl
  have hpoll : pollTime = 10000 := rfl
  rcases hlate with ⟨w, hw, hlong⟩ | hret | ⟨hp, -⟩
  · rw [Timing.next_state] at hw
    obtain ⟨hpc, hempty⟩ : c.state.emul.pc .id0 = .dataRead w ∧
        (c.state.emul.devs.dev .id0).inputBuff.isRecieved = false := by
      generalize c.state.emul.pc .id0 = pc at htick ⊢
      generalize n'.emul.pc .id0 = pc' at htick hw
      generalize n'.emul.devs = g' at htick
      generalize n'.ret .id0 = ret' at htick
      cases htick with
      | dataRead =>
        obtain ⟨rfl, hempty⟩ := WlPc.dataCheck.inj hw
        exact ⟨rfl, hempty⟩
      | sendPut => split_ifs at hw
      | _ => cases hw
    have hplace : a.place = .receiving := (hinside.resolve_left fun hs => by rw [hpc] at hs; cases hs.2).1
    have hcounts := ht.waiting hplace
    rw [hpc] at hcounts
    obtain ⟨-, -, hcount⟩ := hcounts
    have hwake := hallow.wake_le
    have hidle : ¬SlaveBusy c.state b := h.idle hst hslack.1 (hallow.le_wake .id1) (by
      simp only [systemTiming, SystemInput.side] at hwake
      omega)
    exact h.nothing hidle hpc hempty
  · rw [Timing.next_state] at hret
    obtain ⟨w, hpc, hwait, hend⟩ : ∃ w, c.state.emul.pc .id0 = .dataCheck w false ∧ w.timeout ≠ 0 ∧
        ¬w.timeout > w.timeSleep + configWlSleepGranularity := by
      generalize c.state.emul.pc .id0 = pc at htick ⊢
      generalize n'.emul.pc .id0 = pc' at htick
      generalize n'.emul.devs = g' at htick
      generalize n'.ret .id0 = ret' at htick hret
      cases htick with
      | @expired w hwait hend => exact ⟨w, rfl, hwait, hend⟩
      | _ => cases hret
    have hplace : a.place = .receiving := (hinside.resolve_left fun hs => by rw [hpc] at hs; cases hs.2).1
    have hcounts := ht.waiting hplace
    rw [hpc] at hcounts
    obtain ⟨htimeout, hlt, -⟩ := hcounts
    refine ht.drained (Or.inl ⟨w, hpc, ?_⟩)
    rw [htimeout, gt_iff_lt, BitVec.lt_def, BitVec.toNat_add_of_lt (by simp [configWlSleepGranularity]; omega)] at hend
    simp [llcTimeoutMs, configWlSleepGranularity, configWlStdTimeOnAirMs] at hend
    omega
  · rcases hinside with ⟨hs, -⟩ | ⟨hr, -⟩
    · rw [hs] at hp
      cases hp
    · rw [hr] at hp
      cases hp

theorem Punctual.tick (h : Punctual slack c a b) (hslack : 0 ≤ slack ∧ slack ≤ 2000)
    (hallow : systemTiming.Allows slack c (.tick id t) time) (hord : Ordered n' a b)
    (htick : CalmTick id t c.state.emul.devs n'.emul.devs (c.state.emul.pc id) (n'.emul.pc id) (n'.ret id))
    (hother : ∀ k, k ≠ id → n'.emul.pc k = c.state.emul.pc k ∧ n'.ret k = c.state.ret k)
    (hin : c.state.emul.pc id ≠ .out) (hflight : n'.flight ≤ c.state.flight) :
    Punctual slack (systemTiming.next c (.tick id t) time n') a b where
  ordered := hord
  timeout := h.timeout
  answering := h.answering
  blocking k := by
    by_cases hk : k = id
    · subst hk
      exact htick.blocks (h.blocking k)
    · rw [Timing.next_state, (hother k hk).1]
      exact h.blocking k
  flying k hair := h.flying_tick hallow htick (fun k hk => (hother k hk).1) hair
  awake := h.awake_tick hslack hallow htick
  timed := by
    intro hst
    have ht := h.timed hst
    have hwake := hallow.wake_le
    have hle := hallow.le_wake id
    have hsleep := (c.state.emul.pc id).sleep_nonneg
    have hbusy := h.busy_tick hslack hst hallow hord htick hother hin
    cases id with
    | id0 =>
      have hinside := h.ordered.masterCall.within hin
      have hsince : a.llcTimer.startTime.micros ≤ time := ht.since.trans hwake
      refine ⟨ht.normal, ht.interval, ?_, fun hsend => ?_, hbusy, fun hp => ?_, fun hlate => ?_⟩
      · rw [wake_tick]
        omega
      · obtain ⟨hp, hs⟩ := hinside.resolve_right fun hr => by
          have hinv := h.ordered.master.inv
          simp only [MInv, hr.1, hst] at hinv
          rw [hinv.1] at hsend
          cases hsend
        have hrest := htick.sendRest hs hslack.1
        have hbound := ht.sending hsend
        simp only [masterRest, hp] at hbound
        simp only [masterRest, hp, wake_tick, Timing.next_state]
        omega
      · obtain ⟨-, hr⟩ := hinside.resolve_left fun hs => by rw [hs.1] at hp; cases hp
        rw [wake_tick]
        exact htick.waited hr (ht.waiting hp) ht.since hwake
      · have hnone := h.drained_tick hslack hst hallow htick hin hlate
        rw [Timing.next_state]
        omega
    | id1 =>
      obtain ⟨hpc, hret⟩ := hother .id0 (by decide)
      have hwake₀ : (systemTiming.next c (.tick .id1 t) time n').wake .id0 = c.wake .id0 := wake_tick_of_ne (by decide)
      refine ⟨ht.normal, ht.interval, ?_, fun hsend => ?_, hbusy, fun hp => ?_, fun hlate => ?_⟩
      · rw [hwake₀]
        exact ht.since
      · have hrest := ht.sending hsend
        unfold masterRest at hrest ⊢
        rw [hwake₀, Timing.next_state, hpc]
        exact hrest
      · rw [hwake₀, Timing.next_state, hpc]
        exact ht.waiting hp
      · have hlate' : Late slack c a := by
          unfold Late at hlate ⊢
          rw [Timing.next_state, hpc, hret, hwake₀] at hlate
          exact hlate
        have hnone := ht.drained hlate'
        rw [Timing.next_state]
        omega

end Ticks

/-! ## The runs -/

theorem System.pass_place {now : Timeval} {o : List SystemEvent} (hm : MRel n.m a)
    (h : systemStep cfg n (.master (.pass now)) = some (n', o)) : a.place = .llc := by
  simp only [systemStep, Option.bind_eq_bind, Option.bind_eq_some_iff, Prod.exists] at h
  obtain ⟨m, om, hpass, -⟩ := h
  obtain ⟨c, hrel⟩ := hm.rel
  rw [← hrel.place]
  simp only [mStep] at hpass
  split at hpass
  · rename_i hpc
    rw [hpc]
    rfl
  · cases hpass

/-- A step of the emulator is one of a call, and leaves the other. -/
theorem Ordered.calm_tick {t : WlTick} {o : List WlEvent} (h : Ordered n a b)
    (hmove : WlMove cfg n.emul (.tick id t) n'.emul o) (hret : n'.ret = setReturned n.ret o) :
    n.emul.pc id ≠ .out ∧
      CalmTick id t n.emul.devs n'.emul.devs (n.emul.pc id) (n'.emul.pc id) (n'.ret id) ∧
      ∀ k, k ≠ id → n'.emul.pc k = n.emul.pc k ∧ n'.ret k = n.ret k := by
  have hone : n.emul.flight ≤ 1 := by
    have hsingle := h.turn.single
    unfold System.flight at hsingle
    omega
  obtain ⟨hin, hpcs, -⟩ := hmove.call_step
  have hfits : Fits (if id = .id0 then a.place else b.place) (n.emul.pc id) (n.ret id) := by
    cases id
    · exact h.masterCall
    · exact h.slaveCall
  have htick := hmove.calm_tick h.calm hone ((hfits.within hin).imp And.right And.right) (hfits.inside hin)
  have hothers := (hmove.fits hfits).2.2
  rw [← hret] at htick hothers
  exact ⟨hin, htick, hothers⟩

/-- The timer is read as expired only when nothing is under way. -/
theorem Punctual.expires {i : SystemInput} (h : Punctual slack c a b) (hslack : 0 ≤ slack ∧ slack ≤ 2000)
    (hallow : systemTiming.Allows slack c i time) (hplace : ∀ now, i = .master (.pass now) → a.place = .llc) :
    ExpiresWhen System.still c.state i := by
  cases i with
  | master j =>
    cases j with
    | pass now =>
      intro hst hrecv hexp
      obtain ⟨hnormal, -, -, hread⟩ := allows_pass hallow
      obtain ⟨cm, hrm⟩ := h.ordered.master.rel
      rw [hrm.st] at hst
      rw [hrm.hasReceivedPack, Option.isSome_eq_false_iff, Option.isNone_iff_eq_none] at hrecv
      rw [hrm.llcTimer] at hexp
      exact h.still hslack (hplace now rfl) hst hrecv hexp hnormal hread hallow.le_wake
    | _ => trivial
  | _ => trivial

/-- **One step of the threads**: the timer is read in time, and time goes on. -/
theorem Punctual.next {i : SystemInput} {o : List SystemEvent} (h : Punctual slack c a b)
    (hslack : 0 ≤ slack ∧ slack ≤ 2000) (hallow : systemTiming.Allows slack c i time)
    (hs : systemStep cfg c.state i = some (n', o)) :
    ExpiresWhen System.still c.state i ∧
      ∃ a' b', Punctual slack (systemTiming.next c i time n') a' b' ∧ Advance cfg c.state n' a b i o a' b' := by
  have hexpires := h.expires hslack hallow (by
    rintro now rfl
    exact System.pass_place h.ordered.master hs)
  refine ⟨hexpires, ?_⟩
  obtain ⟨⟨a', b', hord, hadvance⟩, -⟩ := h.ordered.advance hexpires hs
  refine ⟨a', b', ?_, hadvance⟩
  cases hadvance with
  | master hmove hlate hcalled hflight => exact h.master hslack.1 hallow hord hmove hcalled hflight
  | slave hmove hcalled hpackets => exact h.slave hslack.1 hallow hord hmove hcalled hpackets
  | tick hmove hret hflight =>
    obtain ⟨hin, htick, hothers⟩ := h.ordered.calm_tick hmove hret
    exact h.tick hslack hallow hord htick hothers hin hflight

theorem Punctual.start {m : Loop LlcStateM} {s : Loop LlcStateS} {tm ts : Tsm} (g : WlEmulGlobal) (time delay : Int)
    (hm : MRel m (mStationStart tm)) (hs : SRel s (sStationStart ts)) :
    Punctual slack (clockedStart ⟨m, s, emulStart g, fun _ => none⟩ time delay) (mStationStart tm)
      (sStationStart ts) where
  ordered := Ordered.start g hm hs
  timeout := rfl
  answering hst := by cases hst
  blocking _ := trivial
  flying _ hair := by cases hair
  awake := by
    refine Or.inl ?_
    simp only [clockedStart]
    unfold pollTime
    omega
  timed hst := by cases hst

end LoraBridge
