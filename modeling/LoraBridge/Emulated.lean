import LoraBridge.Lossless
import LoraBridge.Collision
import LoraBridge.Discipline

/-!
# The emulator as a channel

Seen from the two loops, `env-core.c` is a channel with one place in the air and one in the input buffer for each
direction: what is on its way in a send call or in an output buffer is in the air, what is in an input buffer or on its
way out of a receive call is in the input buffer (`System.net`). Every step of the stack over the emulator is a run of
the two loops over that channel (`Ordered.net_step`), so every run is one (`emulator_channel`), and the two parties
agree (`emulated_agreement`).
-/

set_option autoImplicit false

namespace LoraBridge

open Transducer

/-! ## The channel in the emulator -/

def Side.conn : Side → ConnId
  | .master => .id0
  | .slave => .id1

/-- The packet that a send is going to put. -/
def WlPc.outgoing : WlPc → Option PackData
  | .sendBegin payload _ => some payload
  | .sendTest payload _ => some payload
  | .sendBusy payload _ => some payload
  | .sendPut payload _ => some payload
  | _ => none

/-- The packet that a receive has copied. -/
def WlPc.incoming : WlPc → Option PackData
  | .recvCheck data => some data
  | _ => none

/-- The packet that a receive has returned. -/
def WlRet.incoming : WlRet → Option PackData
  | .recv res => res
  | _ => none

def WlEmulGlobal.outPacket (g : WlEmulGlobal) (id : ConnId) : Option PackData :=
  if (g.dev id).outputBuff.isSend then none else some (packOfData (g.dev id).outputBuff.sendData)

def WlEmulGlobal.inPacket (g : WlEmulGlobal) (id : ConnId) : Option PackData :=
  if (g.dev id).inputBuff.isRecieved then some (packOfData (g.dev id).inputBuff.recvData) else none

/-- The packet of the side that is on its way. -/
def Emul.air (e : Emul) (id : ConnId) : Option PackData := (e.pc id).outgoing.or (e.devs.outPacket id)

/-- The packet for the side that has arrived. -/
def Emul.inbuf (e : Emul) (id : ConnId) : Option PackData := (e.pc id).incoming.or (e.devs.inPacket id)

def System.inbuf (n : System) (id : ConnId) : Option PackData := ((n.ret id).bind WlRet.incoming).or (n.emul.inbuf id)

/-- The two loops over the channel that the emulator is. -/
def System.net (n : System) : Net := ⟨n.m, n.s, fun x => n.emul.air x.conn, fun x => n.inbuf x.conn⟩

/-- The events of the loops. -/
def netEvents (os : List SystemEvent) : List NetEvent :=
  os.filterMap fun
    | .master e => some (.master e)
    | .slave e => some (.slave e)
    | .emul _ => none

/-- What arrives is as it was sent, or fails the checksum. -/
def Detected (g g' : WlEmulGlobal) (id : ConnId) : Prop :=
  ∀ d ∈ g'.inPacket id, g.inPacket id = none → g.outPacket id.other = some d ∨ stkTestPackChecksumm d = false

-- named: the search would go through all packets
instance (g g' : WlEmulGlobal) (id : ConnId) : Decidable (Detected g g' id) := Option.decidableForallMem _

/-- So it is after the step, in both directions. -/
def DamageDetected (cfg : WlConfig) (n : System) (i : SystemInput) : Prop :=
  ∀ r ∈ systemStep cfg n i, ∀ x ∈ [ConnId.id0, .id1], Detected n.emul.devs r.1.emul.devs x

instance (cfg : WlConfig) (n : System) (i : SystemInput) : Decidable (DamageDetected cfg n i) :=
  inferInstanceAs (Decidable (∀ r ∈ systemStep cfg n i, ∀ x ∈ [ConnId.id0, .id1], Detected n.emul.devs r.1.emul.devs x))

section Reading

variable (os ps : List SystemEvent) (o : List (Event LlcStateM)) (o' : List (Event LlcStateS)) (oe : List WlEvent)

@[simp] theorem netEvents_append : netEvents (os ++ ps) = netEvents os ++ netEvents ps := List.filterMap_append
@[simp] theorem netEvents_master : netEvents (o.map .master) = o.map .master := by
  simp [netEvents, List.filterMap_map]
@[simp] theorem netEvents_slave : netEvents (o'.map .slave) = o'.map .slave := by
  simp [netEvents, List.filterMap_map]
@[simp] theorem netEvents_emul : netEvents (oe.map .emul) = [] := by
  simp [netEvents, List.filterMap_map]

end Reading

variable {cfg : WlConfig} {id src : ConnId} {n n' : System} {e e' : Emul} {g g' : WlEmulGlobal} {o : List WlEvent}
  {a : Station LlcStateM} {b : Station LlcStateS}

@[simp] theorem Side.conn_other (x : Side) : x.other.conn = x.conn.other := by cases x <;> rfl

theorem Side.conn_inj {x z : Side} : x.conn = z.conn ↔ x = z := by cases x <;> cases z <;> simp [Side.conn]

/-! ## Packets and their number -/

theorem outPacket_none : g.outPacket id = none ↔ (g.dev id).outputBuff.isSend = true := by
  rw [WlEmulGlobal.outPacket]
  split_ifs with h <;> simp [h]

theorem inPacket_none : g.inPacket id = none ↔ (g.dev id).inputBuff.isRecieved = false := by
  rw [WlEmulGlobal.inPacket]
  split_ifs with h <;> simp [h]

theorem WlPc.outgoing_carried {pc : WlPc} (h : pc.carried = 0) : pc.outgoing = none ∧ pc.incoming = none := by
  cases pc <;> first | exact ⟨rfl, rfl⟩ | cases h

theorem WlRet.incoming_packets {ret : Option WlRet} (h : retPackets ret = 0) : ret.bind WlRet.incoming = none := by
  match ret with
  | none | some .send | some (.avail _) | some (.recv none) => rfl
  | some (.recv (some d)) => cases h

/-! ## What the channel does by itself -/

/-- A packet in the air stays there, gets lost, or arrives; what is damaged fails the checksum. -/
inductive Passage (cfg : WlConfig) (net : Net) : Net → Prop
  | stay : Passage cfg net net
  | lost {x : Side} {d : PackData} : cfg.losePackets = true → net.air x = some d →
      Passage cfg net { net with air := Function.update net.air x none }
  | arrived {x : Side} {d d' : PackData} : net.air x = some d → net.inbuf x.other = none →
      d = d' ∨ cfg.errData = true ∧ stkTestPackChecksumm d' = false →
      Passage cfg net { net with
        air := Function.update net.air x none, inbuf := Function.update net.inbuf x.other (some d') }

/-- The channel loses and damages packets only if the emulator is built to do so. -/
def NetInput.Occurs (cfg : WlConfig) : NetInput → Prop
  | .lose _ => cfg.losePackets = true
  | .spoil _ _ => cfg.errData = true
  | _ => True

/-- What a step of the channel keeps to. -/
def Orderly (cfg : WlConfig) (net : Net) (j : NetInput) : Prop := QuietTimeout net j ∧ j.Occurs cfg

theorem Passage.run {net net' : Net} (h : Passage cfg net net') :
    ∃ js, run netStep net js = some (net', []) ∧ Along netStep (Orderly cfg) net js := by
  have hone : ∀ {net net' : Net} (j : NetInput), netStep net j = some (net', []) → Orderly cfg net j →
      Transducer.run netStep net [j] = some (net', []) ∧ Along netStep (Orderly cfg) net [j] :=
    fun _ hs hq => ⟨run_single.mpr hs, Along.cons hq fun _ _ _ => Along.nil⟩
  cases h with
  | stay => exact ⟨[], rfl, Along.nil⟩
  | @lost x d hcfg hair => exact ⟨[.lose x], hone (.lose x) (by simp [netStep, hair]) ⟨trivial, hcfg⟩⟩
  | @arrived x d d' hair hin hsame =>
    rcases hsame with rfl | ⟨hcfg, hbad⟩
    · exact ⟨[.deliver x], hone (.deliver x) (by simp [netStep, hair, hin]) ⟨trivial, trivial⟩⟩
    · have hspoil : netStep net (.spoil x d') = some ({ net with air := Function.update net.air x (some d') }, []) := by
        simp [netStep, hair, hbad]
      have hdeliver : netStep { net with air := Function.update net.air x (some d') } (.deliver x) =
          some ({ net with
            air := Function.update net.air x none, inbuf := Function.update net.inbuf x.other (some d') }, []) := by
        simp [netStep, hin]
      obtain ⟨hrun, halong⟩ := hone (.deliver x) hdeliver ⟨trivial, trivial⟩
      refine ⟨[.spoil x d', .deliver x], run_cons.mpr ⟨_, [], [], hspoil, hrun, rfl⟩, Along.cons ⟨trivial, hcfg⟩ ?_⟩
      rintro s₁ o₁ hs
      cases hspoil.symm.trans hs
      exact halong

/-- The emulator with other buffers. -/
def System.setDevs (n : System) (g : WlEmulGlobal) : System := { n with emul := { n.emul with devs := g } }

/-- Nothing of a side is outside the buffers. -/
def System.Bare (n : System) (id : ConnId) : Prop :=
  (n.emul.pc id).outgoing = none ∧ (n.emul.pc id).incoming = none ∧ (n.ret id).bind WlRet.incoming = none

theorem System.Bare.air (h : n.Bare id) : n.emul.air id = n.emul.devs.outPacket id := by
  rw [Emul.air, h.1, Option.none_or]

theorem System.Bare.inbuf (h : n.Bare id) : n.inbuf id = n.emul.devs.inPacket id := by
  rw [System.inbuf, h.2.2, Option.none_or, Emul.inbuf, h.2.1, Option.none_or]

/-- The net after a change of the buffers, read off side by side. -/
theorem System.net_setDevs (air inbuf : Side → Option PackData)
    (hair : ∀ z, (n.emul.pc z.conn).outgoing.or (g.outPacket z.conn) = air z)
    (hinbuf : ∀ z, ((n.ret z.conn).bind WlRet.incoming).or ((n.emul.pc z.conn).incoming.or (g.inPacket z.conn)) =
      inbuf z) : (n.setDevs g).net = { n.net with air := air, inbuf := inbuf } := by
  rw [← funext hair, ← funext hinbuf]
  rfl

theorem wlPackBreak_intact {draws : List Draw} {pack data : WlData} {ret : BitVec 32} (hcfg : cfg.errData = false)
    (h : wlPackBreak cfg draws pack = some (data, ret)) : data = pack := by
  unfold wlPackBreak at h
  rw [hcfg] at h
  cases h
  rfl

theorem arrive_passage {now : Timeval} {x : Side} (h : WlArrive cfg now x.conn n.emul.devs g' o)
    (hbare : (n.emul.devs.dev x.conn).outputBuff.isSend = false → n.Bare x.conn ∧ n.Bare x.other.conn)
    (herr : errors o = 0) (hdet : Detected n.emul.devs g' x.other.conn) : Passage cfg n.net (n.setDevs g').net := by
  have hair : (n.emul.devs.dev x.conn).outputBuff.isSend = false →
      n.net.air x = some (packOfData (n.emul.devs.dev x.conn).outputBuff.sendData) := fun hsend => by
    rw [show n.net.air x = n.emul.air x.conn from rfl, (hbare hsend).1.air, WlEmulGlobal.outPacket, hsend]
    rfl
  cases h with
  | none hsend => exact .stay
  | flying hsend hdone => exact .stay
  | lost hsend hdone hcfg =>
    rw [System.net_setDevs (Function.update n.net.air x none) n.net.inbuf]
    · exact .lost hcfg (hair hsend)
    · intro z
      by_cases hz : z = x
      · subst hz
        simp [(hbare hsend).1.1, WlEmulGlobal.outPacket]
      · have hne : z.conn ≠ x.conn := fun he => hz (Side.conn_inj.mp he)
        simp [hz, System.net, Emul.air, WlEmulGlobal.outPacket, setOut_out_of_ne _ _ _ hne]
    · intro z
      simp [System.net, System.inbuf, Emul.inbuf, WlEmulGlobal.inPacket]
  | dropped hsend hdone hbreak hfull => cases herr
  | @delivered data draws ret hsend hdone hbreak hempty =>
    obtain ⟨hsrc, hdst⟩ := hbare hsend
    have hin : n.net.inbuf x.other = none := by
      rw [show n.net.inbuf x.other = n.inbuf x.other.conn from rfl, hdst.inbuf, inPacket_none, Side.conn_other]
      exact hempty
    rw [System.net_setDevs (Function.update n.net.air x none)
      (Function.update n.net.inbuf x.other (some (packOfData data)))]
    · refine .arrived (hair hsend) hin ?_
      have hin' : n.emul.devs.inPacket x.other.conn = none := by
        rw [Side.conn_other, inPacket_none]
        exact hempty
      have hsame := hdet (packOfData data) (by simp [WlEmulGlobal.inPacket]) hin'
      rw [Side.conn_other, ConnId.other_other, WlEmulGlobal.outPacket, hsend] at hsame
      cases hcfg : cfg.errData with
      | false => exact Or.inl (by rw [wlPackBreak_intact hcfg hbreak])
      | true => exact hsame.imp (fun he => Option.some.inj he) fun hbad => ⟨rfl, hbad⟩
    · intro z
      by_cases hz : z = x
      · subst hz
        simp [hsrc.1, WlEmulGlobal.outPacket]
      · have hne : z.conn ≠ x.conn := fun he => hz (Side.conn_inj.mp he)
        simp [hz, System.net, Emul.air, WlEmulGlobal.outPacket, setOut_out_of_ne _ _ _ hne]
    · intro z
      by_cases hz : z = x.other
      · subst hz
        rw [hdst.2.2, hdst.2.1, Option.none_or, Option.none_or, Side.conn_other]
        simp [WlEmulGlobal.inPacket]
      · have hne : z.conn ≠ x.conn.other := fun he => hz (Side.conn_inj.mp (by rw [he, Side.conn_other]))
        simp [hz, System.net, System.inbuf, Emul.inbuf, WlEmulGlobal.inPacket, setIn_inp_of_ne _ _ _ hne]

/-- With one packet in all, a packet in a buffer is the only one. -/
theorem System.bare_of_lane (hone : n.flight ≤ 1) (hfull : 0 < n.emul.devs.lane .id0 + n.emul.devs.lane .id1)
    (id : ConnId) : n.Bare id := by
  simp only [System.flight, Emul.flight] at hone
  have hcarried : (n.emul.pc id).carried = 0 := by cases id <;> omega
  have hret : retPackets (n.ret id) = 0 := by cases id <;> omega
  obtain ⟨hout, hin⟩ := WlPc.outgoing_carried hcarried
  exact ⟨hout, hin, WlRet.incoming_packets hret⟩

theorem lane_of_air (h : (g.dev id).outputBuff.isSend = false) : 0 < g.lane .id0 + g.lane .id1 := by
  have hlane := lane_sum g id
  have hpos : 0 < g.lane id := by simp [WlEmulGlobal.lane, h]
  omega

/-- The shadow worker: with one packet in all, at most one of its two halves does anything. -/
theorem worker_passage {t : WlTick} (h : wlShadowWorker cfg t n.emul.devs = some (g', o)) (hone : n.flight ≤ 1)
    (hdet : ∀ id, Detected n.emul.devs g' id) : Passage cfg n.net (n.setDevs g').net := by
  have hlanes : n.emul.devs.lane .id0 + n.emul.devs.lane .id1 ≤ 1 := by
    simp only [System.flight, Emul.flight] at hone
    omega
  obtain ⟨g₀, g₁, o₀, o₁, h₀, h₁, rfl, rfl⟩ := wlShadowWorker_arrive h
  obtain ⟨hle₀, heq₀, herr₀⟩ := h₀.lane
  obtain ⟨hle₁, heq₁, herr₁⟩ := h₁.lane
  simp only [ConnId.other] at heq₀ heq₁
  rw [chanelCheck_lane g₁ (by omega)] at hdet ⊢
  have hbare : ∀ x : Side, (n.emul.devs.dev x.conn).outputBuff.isSend = false →
      n.Bare x.conn ∧ n.Bare x.other.conn := fun x hsend =>
    ⟨n.bare_of_lane hone (lane_of_air hsend) _, n.bare_of_lane hone (lane_of_air hsend) _⟩
  cases hsend : (n.emul.devs.dev .id0).outputBuff.isSend with
  | true =>
    obtain rfl : g₀ = n.emul.devs := by
      cases h₀ with
      | none | flying => rfl
      | lost hair | dropped hair | delivered hair =>
        rw [hsend] at hair
        cases hair
    exact arrive_passage (x := .slave) h₁ (hbare .slave) (herr₁ (by omega)) (hdet _)
  | false =>
    have hother : (n.emul.devs.dev .id1).outputBuff.isSend = true := by
      by_contra hair
      simp only [WlEmulGlobal.lane, hsend, Bool.eq_false_iff.mpr hair, Bool.not_false, Bool.toNat_true] at hlanes
      omega
    have hsame : g₁ = g₀ := by
      rw [← h₀.out_of_ne (j := .id1) (by decide)] at hother
      cases h₁ with
      | none | flying => rfl
      | lost hair | dropped hair | delivered hair =>
        rw [hother] at hair
        cases hair
    subst hsame
    exact arrive_passage (x := .master) h₀ (hbare .master) (herr₀ (by omega)) (hdet _)

/-! ## The steps of the emulator -/

theorem WlPc.worked_packets {pc pc' : WlPc} (h : pc.worked = some pc') :
    pc'.outgoing = pc.outgoing ∧ pc'.incoming = pc.incoming := by
  cases pc <;> cases h <;> exact ⟨rfl, rfl⟩

theorem WlPc.checked_packets {pc pc' : WlPc} {r : Option WlRet} (h : pc.checked = some (pc', r)) :
    pc'.outgoing = pc.outgoing ∧ (r.bind WlRet.incoming).or pc'.incoming = pc.incoming := by
  cases pc with
  | dataCheck w ret =>
    simp only [WlPc.checked, wlWaitNext, Option.some.injEq] at h
    split_ifs at h <;> cases h <;> exact ⟨rfl, rfl⟩
  | sendCheck => cases h; exact ⟨rfl, rfl⟩
  | recvCheck data => cases h; exact ⟨rfl, rfl⟩
  | _ => cases h

/-- A step of a side in which its packets stay where they are for the loops. -/
theorem System.net_goto {pc : WlPc} (ret : ConnId → Option WlRet)
    (hair : ∀ j, (if j = id then pc else n.emul.pc j).outgoing.or (g.outPacket j) = n.emul.air j)
    (hinbuf : ∀ j, ((ret j).bind WlRet.incoming).or
      ((if j = id then pc else n.emul.pc j).incoming.or (g.inPacket j)) = n.inbuf j) :
    System.net { n with emul := n.emul.goto id g pc, ret := ret } = n.net := by
  simp only [System.net, Net.mk.injEq, true_and]
  refine ⟨funext fun x => ?_, funext fun x => ?_⟩
  · rw [← hair x.conn]
    simp [Emul.air, Emul.goto, Function.update_apply]
  · rw [← hinbuf x.conn]
    simp [System.inbuf, Emul.inbuf, Emul.goto, Function.update_apply]

/-- A side that goes on with what it had. -/
theorem System.net_goto_same {pc : WlPc}
    (h : (pc.outgoing, pc.incoming) = ((n.emul.pc id).outgoing, (n.emul.pc id).incoming)) :
    System.net { n with emul := n.emul.goto id n.emul.devs pc, ret := n.ret } = n.net := by
  obtain ⟨hout, hin⟩ := Prod.mk.inj h
  refine System.net_goto n.ret (fun j => ?_) fun j => ?_
  · split_ifs with hj
    · rw [hout, hj]
      rfl
    · rfl
  · split_ifs with hj
    · rw [hin, hj]
      rfl
    · rfl

/-- **A step of the emulator is a passage of its channel.** -/
theorem tick_passage {t : WlTick} (h : WlMove cfg n.emul (.tick id t) e' o) (hcalm : Calm n.emul) (hone : n.flight ≤ 1)
    (hnone : n.ret id = none) (hdet : ∀ j, Detected n.emul.devs e'.devs j) :
    Passage cfg n.net (System.net { n with emul := e', ret := setReturned n.ret o }) := by
  have hlanes : n.emul.devs.lane .id0 + n.emul.devs.lane .id1 ≤ 1 := by
    simp only [System.flight, Emul.flight] at hone
    omega
  have hflight : n.emul.flight ≤ 1 := by
    simp only [System.flight] at hone
    omega
  cases h with
  | @work _ _ pc g o hpc hw =>
    obtain ⟨hout, hin⟩ := WlPc.worked_packets hpc
    have hret : setReturned n.ret o = n.ret := by
      rw [setReturned, returned_ofWorker (wlShadowWorker_ofWorker hw)]
      rfl
    have hsame : System.net { n with emul := n.emul.goto id g pc, ret := n.ret } = (n.setDevs g).net := by
      simp only [System.net, System.setDevs, Net.mk.injEq, true_and]
      refine ⟨funext fun x => ?_, funext fun x => ?_⟩
      · by_cases hx : x.conn = id
        · simp [Emul.air, hx, hout]
        · simp [Emul.air, goto_pc_of_ne _ _ _ _ hx]
      · by_cases hx : x.conn = id
        · simp [System.inbuf, Emul.inbuf, hx, hin]
        · simp [System.inbuf, Emul.inbuf, goto_pc_of_ne _ _ _ _ hx]
    rw [hret, hsame]
    exact worker_passage hw hone hdet
  | @check _ _ pc r hpc =>
    obtain ⟨hout, hin⟩ := WlPc.checked_packets hpc
    rw [chanelCheck_lane n.emul.devs hlanes, List.nil_append, setReturned_checked n.ret id r hnone, System.net_goto]
    · exact .stay
    · intro j
      split_ifs with hj
      · rw [hout, hj]
        rfl
      · rfl
    · intro j
      split_ifs with hj
      · rw [hj, Function.update_self, ← Option.or_assoc, hin, System.inbuf, hnone]
        rfl
      · rw [Function.update_of_ne hj]
        rfl
  | @test _ _ payload timeout hpc =>
    have hsent : (n.emul.devs.dev id).outputBuff.isSend = true := sent_of_carried hflight (by rw [hpc]; rfl)
    rw [if_pos hsent, show setReturned n.ret [] = n.ret from rfl, System.net_goto_same (by rw [hpc]; rfl)]
    exact .stay
  | @busy _ _ payload timeout hpc =>
    have htimely := hcalm.timely id
    rw [hpc] at htimely
    cases htimely
  | @put _ _ payload timeout hpc =>
    have hsent : (n.emul.devs.dev id).outputBuff.isSend = true := sent_of_carried hflight (by rw [hpc]; rfl)
    rw [if_pos hsent, System.net_goto (setReturned n.ret _)]
    · exact .stay
    · intro j
      by_cases hj : j = id
      · have hput : (n.emul.devs.put id payload t.now₀).outPacket id = some payload := by
          simp [WlEmulGlobal.outPacket, WlEmulGlobal.put, packOfData_payload]
        rw [if_pos hj, hj, hput, Emul.air, hpc]
        split_ifs <;> rfl
      · simp [hj, Emul.air, WlEmulGlobal.outPacket, WlEmulGlobal.put, setOut_out_of_ne _ _ _ hj]
    · intro j
      have hin : (n.emul.devs.put id payload t.now₀).inPacket j = n.emul.devs.inPacket j := by
        simp [WlEmulGlobal.inPacket, WlEmulGlobal.put]
      rw [hin, System.inbuf, Emul.inbuf]
      by_cases hj : j = id
      · rw [if_pos hj, hj, hpc]
        split_ifs <;> rfl
      · rw [if_neg hj]
        rfl
  | @read _ _ w hpc =>
    rw [show setReturned n.ret [] = n.ret from rfl, System.net_goto_same (by rw [hpc]; rfl)]
    exact .stay
  | @empty _ _ hpc =>
    have htimely := hcalm.timely id
    rw [hpc] at htimely
    cases htimely
  | @copy _ _ hpc =>
    have hfull := hcalm.ready id (Or.inl hpc)
    rw [System.net_goto]
    · exact .stay
    · intro j
      have hout : (n.emul.devs.take id).outPacket j = n.emul.devs.outPacket j := by
        simp [WlEmulGlobal.outPacket, WlEmulGlobal.take]
      rw [hout, Emul.air]
      split_ifs with hj
      · rw [hj, hpc]
        rfl
      · rfl
    · intro j
      split_ifs with hj
      · have hin : n.emul.devs.inPacket id = some (packOfData (n.emul.devs.dev id).inputBuff.recvData) := by
          simp [WlEmulGlobal.inPacket, hfull]
        rw [hj, System.inbuf, Emul.inbuf, hpc, hin]
        rfl
      · rw [System.inbuf, Emul.inbuf]
        simp [WlEmulGlobal.inPacket, WlEmulGlobal.take, setIn_inp_of_ne _ _ _ hj, setReturned, returned]

/-! ## The steps of the loops -/

/-- What a loop's step does to its call, as the channel's part in it. -/
theorem Called.channel {timeout : BitVec 32} {i : Input} {tx : List PackData} (h : Called timeout id i tx n n')
    (hone : n.flight ≤ 1) :
    takes (n.inbuf id) i = some (n'.inbuf id) ∧ n'.emul.air id = tx.head?.or (n.emul.air id) ∧
      ∀ j, j ≠ id → n'.inbuf j = n.inbuf j ∧ n'.emul.air j = n.emul.air j := by
  obtain ⟨hmove, hdevs, hother⟩ := h
  have hothers : ∀ j, j ≠ id → n'.inbuf j = n.inbuf j ∧ n'.emul.air j = n.emul.air j := by
    intro j hj
    obtain ⟨hpc, hret⟩ := hother j hj
    simp only [System.inbuf, Emul.inbuf, Emul.air, hdevs, hpc, hret, and_self]
  refine ⟨?_, ?_, hothers⟩
  · have hflight : n.flight = (n.emul.devs.lane id + n.emul.devs.lane id.other) +
        ((n.emul.pc .id0).carried + (n.emul.pc .id1).carried) +
          (retPackets (n.ret id) + retPackets (n.ret id.other)) := by
      rw [System.flight, Emul.flight, lane_sum n.emul.devs id, ret_sum n.ret id]
    simp only [System.inbuf, Emul.inbuf, hdevs]
    generalize n.emul.pc id = pc at hmove
    generalize n'.emul.pc id = pc' at hmove
    generalize n.ret id = ret at hmove hflight
    generalize n'.ret id = ret' at hmove
    cases hmove with
    | pass | send | listen | sent => rfl
    | @received res =>
      cases res with
      | none => rfl
      | some d =>
        -- the packet returned is the only one
        have hempty : n.emul.devs.inPacket id = none := by
          have hfree : n.emul.devs.lane id.other = 0 := by
            simp only [retPackets, Option.map_some, Option.getD_some, WlRet.packets] at hflight
            omega
          simp only [WlEmulGlobal.lane, ConnId.other_other, Nat.add_eq_zero_iff, Bool.toNat_eq_zero] at hfree
          exact inPacket_none.mpr hfree.2
        rw [hempty]
        exact if_pos rfl
  · simp only [Emul.air, hdevs]
    generalize n.emul.pc id = pc at hmove
    generalize n'.emul.pc id = pc' at hmove
    generalize n.ret id = ret at hmove
    generalize n'.ret id = ret' at hmove
    cases hmove <;> rfl

/-- A still system is a quiet net. -/
theorem Ordered.net_quiet (h : Ordered n a b) (hplace : a.place = .llc) (hq : n.still = true) : n.net.quiet = true := by
  obtain ⟨hsend, hload⟩ := h.still hplace hq
  have hflight : n.flight = 0 := by omega
  have hbare : ∀ id, n.emul.air id = none ∧ n.inbuf id = none := by
    intro id
    simp only [System.flight, Emul.flight] at hflight
    have hlane := lane_sum n.emul.devs id
    have hlane' := lane_sum n.emul.devs id.other
    have hfree : n.Bare id := by
      have hcarried : (n.emul.pc id).carried = 0 := by cases id <;> omega
      obtain ⟨hout, hin⟩ := WlPc.outgoing_carried hcarried
      exact ⟨hout, hin, WlRet.incoming_packets (by cases id <;> omega)⟩
    have hout : n.emul.devs.lane id = 0 := by omega
    have hin : n.emul.devs.lane id.other = 0 := by omega
    simp only [WlEmulGlobal.lane, ConnId.other_other, Nat.add_eq_zero_iff, Bool.toNat_eq_zero,
      Bool.not_eq_false'] at hout hin
    exact ⟨by rw [hfree.air]; exact outPacket_none.mpr hout.1, by rw [hfree.inbuf]; exact inPacket_none.mpr hin.2⟩
  rw [System.still, Bool.and_eq_true, System.quiet, Bool.and_eq_true] at hq
  rw [Net.quiet, Bool.and_eq_true]
  refine ⟨hq.1.1, ?_⟩
  simp [System.net, (hbare _).1, (hbare _).2]

theorem ExpiresWhen.quiet {j : Input} (h : ExpiresWhen System.still n (.master j)) (hordered : Ordered n a b)
    (hplace : ∀ now, j = .pass now → a.place = .llc) : QuietTimeout n.net (.master j) := by
  cases j with
  | pass now => exact fun hst hrecv hexp => hordered.net_quiet (hplace now rfl) (h hst hrecv hexp)
  | _ => trivial

/-- **Every step of the stack over the emulator is a run of the two loops over the channel.** -/
theorem Ordered.net_step {i : SystemInput} {o : List SystemEvent} (h : Ordered n a b)
    (hi : ExpiresWhen System.still n i) (hd : DamageDetected cfg n i) (hs : systemStep cfg n i = some (n', o)) :
    ∃ js, run netStep n.net js = some (n'.net, netEvents o) ∧ Along netStep (Orderly cfg) n.net js := by
  have hone : n.flight ≤ 1 := by
    have hsingle := h.turn.single
    omega
  have hdet : ∀ id, Detected n.emul.devs n'.emul.devs id := fun id => hd _ hs id (by cases id <;> simp)
  cases i with
  | master j =>
    simp only [systemStep, Option.bind_eq_bind, Option.bind_eq_some_iff, Prod.exists, Option.pure_def,
      Option.some.injEq, Prod.mk.injEq] at hs
    obtain ⟨m, om, hm, n₁, hradio, rfl, rfl⟩ := hs
    obtain ⟨a', hrel, hmove, -⟩ := h.master.move (r := b.load + b.due + n.flight) hm (by
      rintro now rfl hplace hst hrecv hexp
      exact h.still hplace (hi hst hrecv hexp))
    obtain ⟨c', hr'⟩ := hrel.rel
    obtain ⟨hplaces, -⟩ := hmove.places
    obtain ⟨hcalled, hloopm, hloops⟩ := System.radio_calls (by rw [hr'.place]; exact hplaces)
      (connId_eq (j := .id0) (by rw [hr'.id, hmove.fixed.1, h.masterId.1]; rfl)) h.masterCall hradio
    obtain ⟨htake, hair, hother⟩ := hcalled.channel hone
    obtain ⟨hin₁, hair₁⟩ := hother .id1 (by decide)
    have hquiet := hi.quiet h (by
      rintro now rfl
      exact hplaces.pass_llc)
    have hstep : netStep n.net (.master j) = some (System.net { n₁ with m := m }, om.map .master) := by
      have htake' : takes (n.net.inbuf .master) j = some (n₁.inbuf .id0) := htake
      simp only [netStep, htake', show mStep n.net.m j = some (m, om) from hm, Option.bind_eq_bind, Option.bind_some,
        Option.pure_def, Option.some.injEq, Prod.mk.injEq, and_true]
      simp only [System.net, Net.mk.injEq, true_and]
      refine ⟨hloops.symm, funext fun x => ?_, funext fun x => ?_⟩
      · cases x
        · exact hair.symm
        · exact hair₁.symm
      · cases x
        · rfl
        · exact hin₁.symm
    refine ⟨[.master j], by rw [netEvents_master]; exact run_single.mpr hstep, ?_⟩
    exact Along.cons ⟨hquiet, trivial⟩ fun _ _ _ => Along.nil
  | slave j =>
    simp only [systemStep, Option.bind_eq_bind, Option.bind_eq_some_iff, Prod.exists, Option.pure_def,
      Option.some.injEq, Prod.mk.injEq] at hs
    obtain ⟨s, os, hs, n₁, hradio, rfl, rfl⟩ := hs
    obtain ⟨b', hrel, hmove⟩ := h.slave.move hs
    obtain ⟨c', hr'⟩ := hrel.rel
    obtain ⟨hplaces, -⟩ := hmove.places
    obtain ⟨hcalled, hloopm, hloops⟩ := System.radio_calls (by rw [hr'.place]; exact hplaces)
      (connId_eq (j := .id1) (by rw [hr'.id, hmove.fixed.1, h.slaveId.1]; rfl)) h.slaveCall hradio
    obtain ⟨htake, hair, hother⟩ := hcalled.channel hone
    obtain ⟨hin₀, hair₀⟩ := hother .id0 (by decide)
    have hstep : netStep n.net (.slave j) = some (System.net { n₁ with s := s }, os.map .slave) := by
      have htake' : takes (n.net.inbuf .slave) j = some (n₁.inbuf .id1) := htake
      simp only [netStep, htake', show sStep n.net.s j = some (s, os) from hs, Option.bind_eq_bind, Option.bind_some,
        Option.pure_def, Option.some.injEq, Prod.mk.injEq, and_true]
      simp only [System.net, Net.mk.injEq, true_and]
      refine ⟨hloopm.symm, funext fun x => ?_, funext fun x => ?_⟩
      · cases x
        · exact hair₀.symm
        · exact hair.symm
      · cases x
        · exact hin₀.symm
        · rfl
    refine ⟨[.slave j], by rw [netEvents_slave]; exact run_single.mpr hstep, ?_⟩
    exact Along.cons ⟨trivial, trivial⟩ fun _ _ _ => Along.nil
  | tick id t =>
    simp only [systemStep, Option.bind_eq_bind, Option.bind_eq_some_iff, Prod.exists, Option.pure_def,
      Option.some.injEq, Prod.mk.injEq] at hs
    obtain ⟨e', o, he, rfl, rfl⟩ := hs
    have hmove := emulStep_move he
    have hin := hmove.call_step.1
    have hnone : n.ret id = none := by
      cases id
      · exact h.masterCall.inside hin
      · exact h.slaveCall.inside hin
    obtain ⟨js, hrun, halong⟩ := (tick_passage hmove h.calm hone hnone hdet).run
    exact ⟨js, by rw [netEvents_emul]; exact hrun, halong⟩

/-! ## Runs -/

/-- What the timer and the damage keep to. -/
def Undisrupted (cfg : WlConfig) (n : System) (i : SystemInput) : Prop :=
  ExpiresWhen System.still n i ∧ DamageDetected cfg n i

instance (cfg : WlConfig) (n : System) (i : SystemInput) : Decidable (Undisrupted cfg n i) :=
  inferInstanceAs (Decidable (_ ∧ _))

theorem systemStart_net (tm ts : Tsm) (g : WlEmulGlobal) : ∃ n₀, systemStart tm ts g = some n₀ ∧
    netStart tm ts = some n₀.net ∧ Ordered n₀ (mStationStart tm) (sStationStart ts) := by
  obtain ⟨m, hm, hmrel⟩ := mStart_rel tm
  obtain ⟨s, hs, hsrel⟩ := sStart_rel ts
  refine ⟨⟨m, s, emulStart g, fun _ => none⟩, by simp only [systemStart, hm, hs]; rfl, ?_, Ordered.start g hmrel hsrel⟩
  simp only [netStart, hm, hs]
  rfl

theorem systemRun_net {is : List SystemInput} {os : List SystemEvent} (h : Ordered n a b)
    (hr : run (systemStep cfg) n is = some (n', os)) (halong : Along (systemStep cfg) (Undisrupted cfg) n is) :
    ∃ js, run netStep n.net js = some (n'.net, netEvents os) ∧ Along netStep (Orderly cfg) n.net js := by
  refine (run_refine_along (I := fun n => ∃ a b, Ordered n a b) (C := Undisrupted cfg) ?_ ⟨a, b, h⟩ hr halong).2
  rintro n i n' o ⟨a, b, h⟩ ⟨hi, hd⟩ hs
  exact ⟨(h.step hi hs).1, h.net_step hi hd hs⟩

/-- **The emulator is a channel.** A run of the two loops over the emulator is one of the two loops over the channel,
with the same loops after it and the same events; the timer is read as expired only when that channel is quiet, and
packets are lost or damaged only if the emulator is built to do so. -/
theorem emulator_channel (cfg : WlConfig) (tm ts : Tsm) (g : WlEmulGlobal) :
    ∃ n₀, systemStart tm ts g = some n₀ ∧ netStart tm ts = some n₀.net ∧
      ∀ (is : List SystemInput) (n : System) (os : List SystemEvent), run (systemStep cfg) n₀ is = some (n, os) →
        Along (systemStep cfg) (Undisrupted cfg) n₀ is →
        ∃ js, run netStep n₀.net js = some (n.net, netEvents os) ∧ Along netStep (Orderly cfg) n₀.net js := by
  obtain ⟨n₀, hstart, hnet, hordered⟩ := systemStart_net tm ts g
  exact ⟨n₀, hstart, hnet, fun is n os hr halong => systemRun_net hordered hr halong⟩

/-! ## Agreement on the emulator -/

def systemSlave (os : List SystemEvent) : List (Event LlcStateS) :=
  os.filterMap fun
    | .slave e => some e
    | _ => none

section Masters

variable (os ps : List SystemEvent) (o : List (Event LlcStateM)) (o' : List (Event LlcStateS)) (oe : List WlEvent)

theorem systemMaster_append : systemMaster (os ++ ps) = systemMaster os ++ systemMaster ps := by
  simp only [systemMaster, List.filterMap_append]
theorem systemMaster_of_master : systemMaster (o.map .master) = o := by
  simp [systemMaster, List.filterMap_map]
theorem systemMaster_of_slave : systemMaster (o'.map .slave) = [] := by
  simp [systemMaster, List.filterMap_map]
theorem systemMaster_of_emul : systemMaster (oe.map .emul) = [] := by
  simp [systemMaster, List.filterMap_map]

end Masters

theorem masterEvents_net (os : List SystemEvent) : masterEvents (netEvents os) = systemMaster os := by
  rw [masterEvents, netEvents, List.filterMap_filterMap, systemMaster]
  congr 1
  funext x
  cases x <;> rfl

theorem slaveEvents_net (os : List SystemEvent) : slaveEvents (netEvents os) = systemSlave os := by
  rw [slaveEvents, netEvents, List.filterMap_filterMap, systemSlave]
  congr 1
  funext x
  cases x <;> rfl

/-- The master has completed transactions `1..c`, the slave has accepted these or one more, and what either has received
and not consumed yet is the packet of transaction `c + 1`, byte for byte. -/
structure SystemAgreement (n : System) (os : List SystemEvent) : Prop where
  agreed : ∃ c, entered .idle (systemMaster os) = transactions c ∧
    (entered .receivedAll (systemSlave os) = transactions c ∨
      n.m.llcState ≠ .idle ∧ entered .receivedAll (systemSlave os) = transactions (c + 1)) ∧
    ∃ cm cs, Linked n.m.tsm cm ∧ Linked n.s.tsm cs ∧ (∀ p ∈ cm.recvList, n.m.tsm.data p = frame (c + 1)) ∧
      ∀ p ∈ cs.recvList, n.s.tsm.data p = frame (c + 1)
  silent : n.m.tsm.stderr = [] ∧ n.s.tsm.stderr = []

/-- Outside a transaction nothing is received. -/
theorem Joint.received {net : Net} {os : List NetEvent} {c k j : Nat} (h : Joint os net c k j a b) :
    ∃ cm cs, Linked net.m.tsm cm ∧ Linked net.s.tsm cs ∧ (∀ p ∈ cm.recvList, net.m.tsm.data p = frame (c + 1)) ∧
      ∀ p ∈ cs.recvList, net.s.tsm.data p = frame (c + 1) := by
  obtain ⟨cm, hrm⟩ := h.master.rel
  obtain ⟨cs, hrs⟩ := h.slave.rel
  have hcount := h.agreeing.count
  refine ⟨cm, cs, hrm.linked, hrs.linked, fun p hp => ?_, fun p hp => ?_⟩
  · have hrecv : a.recv = some (net.m.tsm.data p) := by
      have hmem := List.mem_map_of_mem (f := net.m.tsm.data) hp
      rw [hrm.recv, Option.mem_toList] at hmem
      exact hmem
    have hst : a.st ≠ .idle := fun hidle => by
      have hload := h.agreeing.turn.turn (by rw [hidle]; decide)
      simp [Station.load, hrecv] at hload
    rw [if_neg hst] at hcount
    rw [(h.agreeing.responded _ hrecv).1, hcount]
  · have hrecv : b.recv = some (net.s.tsm.data p) := by
      have hmem := List.mem_map_of_mem (f := net.s.tsm.data) hp
      rw [hrs.recv, Option.mem_toList] at hmem
      exact hmem
    have hst : a.st ≠ .idle := fun hidle => by
      have hload := (h.agreeing.empty (by rw [hidle]; decide)).1
      simp [Station.load, hrecv] at hload
    rw [if_neg hst] at hcount
    rw [h.agreeing.requested _ hrecv, hcount]

theorem Joint.systemAgreement {os : List SystemEvent} {c k j : Nat} (h : Joint (netEvents os) n.net c k j a b) :
    SystemAgreement n os := by
  obtain ⟨⟨c', hcompleted, haccepted⟩, hsilent⟩ := h.agreement
  have hc := h.completed
  rw [masterEvents_net] at hc hcompleted
  rw [slaveEvents_net] at haccepted
  have hlen := congrArg List.length (hc.symm.trans hcompleted)
  simp only [transactions, List.length_map, List.length_range] at hlen
  subst hlen
  exact ⟨⟨c, hc, haccepted, h.received⟩, hsilent⟩

/-- **Agreement on the emulator.** In every run of the two loops over `env-core.c`, in any order of their steps and with
packets lost and damaged, each transaction is completed once and in order, accepted once, and only intact packets of the
transaction that runs reach a receive queue. -/
theorem emulated_agreement (cfg : WlConfig) (tm ts : Tsm) (g : WlEmulGlobal) :
    ∃ n₀, systemStart tm ts g = some n₀ ∧
      ∀ (is : List SystemInput) (n : System) (os : List SystemEvent), run (systemStep cfg) n₀ is = some (n, os) →
        Along (systemStep cfg) (Undisrupted cfg) n₀ is → SystemAgreement n os := by
  obtain ⟨n₀, hstart, hnet, hordered⟩ := systemStart_net tm ts g
  refine ⟨n₀, hstart, fun is n os hr halong => ?_⟩
  obtain ⟨js, hrun, hquiet⟩ := systemRun_net hordered hr halong
  obtain ⟨c, k, j, a, b, hjoint⟩ := netRun_joint hnet hrun (Along.mono hquiet fun _ _ hj => hj.1)
  exact hjoint.systemAgreement

/-- The run with the noise is such a run. -/
theorem noisy_run : ∃ n₀ n os, systemStart Tsm.zeroed Tsm.zeroed .zeroed = some n₀ ∧
    run (systemStep .noisy) n₀ noisyInputs = some (n, os) ∧
    Along (systemStep .noisy) (Undisrupted .noisy) n₀ noisyInputs ∧ entered .idle (systemMaster os) = [1] ∧
    entered .receivedAll (systemSlave os) = [1] := by
  have heval : (systemStart Tsm.zeroed Tsm.zeroed .zeroed).bind (fun n₀ =>
      (run (systemStep .noisy) n₀ noisyInputs).map fun r =>
        (checkAlong (systemStep .noisy) (fun n i => decide (Undisrupted .noisy n i)) n₀ noisyInputs,
          entered .idle (systemMaster r.2), entered .receivedAll (systemSlave r.2))) = some (true, [1], [1]) := by
    decide +kernel
  obtain ⟨n₀, h₀, hrun⟩ := Option.bind_eq_some_iff.mp heval
  obtain ⟨⟨n, os⟩, hr, hfacts⟩ := Option.map_eq_some_iff.mp hrun
  simp only [Prod.mk.injEq] at hfacts
  exact ⟨n₀, n, os, h₀, hr, along_of_check hfacts.1, hfacts.2.1, hfacts.2.2⟩

theorem emulator_channel_noisy : ∃ n₀ n os js, systemStart Tsm.zeroed Tsm.zeroed .zeroed = some n₀ ∧
    run (systemStep .noisy) n₀ noisyInputs = some (n, os) ∧ run netStep n₀.net js = some (n.net, netEvents os) := by
  obtain ⟨n₀, n, os, h₀, hr, halong, -⟩ := noisy_run
  obtain ⟨n₁, h₁, -, hall⟩ := emulator_channel .noisy Tsm.zeroed Tsm.zeroed .zeroed
  cases h₀.symm.trans h₁
  obtain ⟨js, hrun, -⟩ := hall _ _ _ hr halong
  exact ⟨n₀, n, os, js, h₀, hr, hrun⟩

theorem emulated_agreement_noisy : ∃ n₀ n os, systemStart Tsm.zeroed Tsm.zeroed .zeroed = some n₀ ∧
    run (systemStep .noisy) n₀ noisyInputs = some (n, os) ∧ entered .idle (systemMaster os) = [1] ∧
    entered .receivedAll (systemSlave os) = [1] ∧ SystemAgreement n os := by
  obtain ⟨n₀, n, os, h₀, hr, halong, hidle, haccepted⟩ := noisy_run
  obtain ⟨n₁, h₁, hall⟩ := emulated_agreement .noisy Tsm.zeroed Tsm.zeroed .zeroed
  cases h₀.symm.trans h₁
  exact ⟨n₀, n, os, h₀, hr, hidle, haccepted, hall _ _ _ hr halong⟩

end LoraBridge
