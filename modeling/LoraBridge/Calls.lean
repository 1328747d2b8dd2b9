import LoraBridge.System

/-!
# Places and calls

A loop moves from place to place (`PlaceMove`), and its radio call from step to step (`CallStep`). `Fits` ties the one
to the other: while the loop is in a call, the emulator is in that call or has returned from it.
-/

set_option autoImplicit false

namespace LoraBridge

open Transducer

/-! ## Places -/

/-- How an input moves a loop from place to place, and which packets it hands to the radio. -/
inductive PlaceMove : Place → Input → Place → List PackData → Prop
  | pass {now : Timeval} {p : Place} : p = .llc ∨ p = .mac → PlaceMove .llc (.pass now) p []
  | send {d : PackData} : PlaceMove .mac .call .sending [d]
  | listen : PlaceMove .mac .call .receiving []
  | sent : PlaceMove .sending .sent .llc []
  | received {res : Option PackData} : PlaceMove .receiving (.received res) .llc []

theorem PlaceMove.pass_llc {p q : Place} {now : Timeval} {tx : List PackData} (h : PlaceMove p (.pass now) q tx) :
    p = .llc := by
  cases h
  rfl

theorem MMove.places {a a' : Station LlcStateM} {i : Input} {o : List (Event LlcStateM)} (h : MMove a i a' o) :
    PlaceMove a.place i a'.place (transmitted o) ∧ (transmitted o).length ≤ a.load := by
  cases h with
  | response hp | complete hp =>
    rw [hp]
    exact ⟨.pass (Or.inl (by simp [hp])), Nat.zero_le _⟩
  | wait hp =>
    rw [hp]
    exact ⟨.pass (Or.inr rfl), Nat.zero_le _⟩
  | call hp _ _ _ hsend =>
    rw [hp]
    exact ⟨.send, by simp [Station.load, hp, hsend]⟩
  | listen hp =>
    rw [hp]
    exact ⟨.listen, Nat.zero_le _⟩
  | sent hp =>
    rw [hp]
    exact ⟨.sent, Nat.zero_le _⟩
  | fail hp | arrive hp =>
    rw [hp]
    exact ⟨.received, Nat.zero_le _⟩
  | start hp | timeout hp | retry hp =>
    rw [hp]
    exact ⟨.pass (Or.inl rfl), Nat.zero_le _⟩

theorem SMove.places {b b' : Station LlcStateS} {i : Input} {o : List (Event LlcStateS)} (h : SMove b i b' o) :
    PlaceMove b.place i b'.place (transmitted o) ∧ (transmitted o).length ≤ b.load := by
  cases h with
  | rest hp | discard hp =>
    rw [hp]
    exact ⟨.pass (Or.inr rfl), Nat.zero_le _⟩
  | call hp _ _ hsend =>
    rw [hp]
    exact ⟨.send, by simp [Station.load, hp, hsend]⟩
  | listen hp =>
    rw [hp]
    exact ⟨.listen, Nat.zero_le _⟩
  | sent hp =>
    rw [hp]
    exact ⟨.sent, Nat.zero_le _⟩
  | fail hp | arrive hp =>
    rw [hp]
    exact ⟨.received, Nat.zero_le _⟩
  | again hp | accept hp | respond hp | finish hp | repeatLast hp | echo hp =>
    rw [hp]
    exact ⟨.pass (Or.inl rfl), Nat.zero_le _⟩

/-- The identity and the receive timeout of a station never change. -/
theorem MMove.fixed {a a' : Station LlcStateM} {i : Input} {o : List (Event LlcStateM)} (h : MMove a i a' o) :
    a'.id = a.id ∧ a'.macRecvTimeout = a.macRecvTimeout := by
  cases h with
  | response => exact ⟨by simp, by simp⟩
  | complete => exact ⟨by simp, by simp⟩
  | _ => exact ⟨rfl, rfl⟩

theorem SMove.fixed {b b' : Station LlcStateS} {i : Input} {o : List (Event LlcStateS)} (h : SMove b i b' o) :
    b'.id = b.id ∧ b'.macRecvTimeout = b.macRecvTimeout := by
  cases h <;> exact ⟨rfl, rfl⟩

/-! ## Calls -/

def WlPc.sends : WlPc → Bool
  | .sendBegin _ _ => true
  | .sendTest _ _ => true
  | .sendBusy _ _ => true
  | .sendPut _ _ => true
  | .sendFlush => true
  | .sendCheck => true
  | _ => false

def WlPc.receives : WlPc → Bool
  | .recvBegin _ => true
  | .dataWorker w => w.recv
  | .dataRead w => w.recv
  | .dataCheck w _ => w.recv
  | .recvEmpty => true
  | .recvCopy => true
  | .recvCheck _ => true
  | _ => false

/-- The call that a loop at the place has made has come to `pc`, or has returned. -/
def Fits : Place → WlPc → Option WlRet → Prop
  | .sending, pc, ret => pc.sends = true ∧ ret = none ∨ pc = .out ∧ ret = some .send
  | .receiving, pc, ret => pc.receives = true ∧ ret = none ∨ pc = .out ∧ ∃ res, ret = some (.recv res)
  | _, pc, ret => pc = .out ∧ ret = none

theorem Fits.inside {p : Place} {pc : WlPc} {ret : Option WlRet} (h : Fits p pc ret) (hin : pc ≠ .out) :
    ret = none := by
  cases p with
  | sending => exact (h.resolve_right fun hc => hin hc.1).2
  | receiving => exact (h.resolve_right fun hc => hin hc.1).2
  | _ => exact h.2

theorem Fits.within {p : Place} {pc : WlPc} {ret : Option WlRet} (h : Fits p pc ret) (hin : pc ≠ .out) :
    p = .sending ∧ pc.sends = true ∨ p = .receiving ∧ pc.receives = true := by
  cases p with
  | sending => exact Or.inl ⟨rfl, (h.resolve_right fun hc => hin hc.1).1⟩
  | receiving => exact Or.inr ⟨rfl, (h.resolve_right fun hc => hin hc.1).1⟩
  | _ => exact absurd h.1 hin

/-- A step of a call: it stays in the call, or returns what such a call returns. -/
inductive CallStep (id : ConnId) (pc pc' : WlPc) : List (ConnId × WlRet) → Prop
  | inside : (pc.sends = true → pc'.sends = true) → (pc.receives = true → pc'.receives = true) →
      CallStep id pc pc' []
  | sent : pc.sends = true → pc' = .out → CallStep id pc pc' [(id, .send)]
  | available {b : Bool} : pc.sends = false → pc.receives = false → CallStep id pc pc' [(id, .avail b)]
  | received {res : Option PackData} : pc.receives = true → pc' = .out → CallStep id pc pc' [(id, .recv res)]

theorem WlPc.not_both {pc : WlPc} (hs : pc.sends = true) (hr : pc.receives = true) : False := by
  cases pc <;> first | exact absurd hs Bool.false_ne_true | exact absurd hr Bool.false_ne_true

variable {cfg : WlConfig} {id : ConnId} {t : WlTick} {e e' : Emul} {o : List WlEvent} {ret : ConnId → Option WlRet}
  {n n' : System}

theorem WlPc.checked_step {pc pc' : WlPc} {r : Option WlRet} (h : pc.checked = some (pc', r)) (id : ConnId) :
    CallStep id pc pc' (r.map fun r => (id, r)).toList := by
  cases pc with
  | sendCheck =>
    cases h
    exact .sent rfl rfl
  | recvCheck data =>
    cases h
    exact .received rfl rfl
  | dataCheck w ret =>
    simp only [WlPc.checked, wlWaitNext, Option.some.injEq] at h
    split_ifs at h with hret hrecv hzero hrecv hmore hrecv <;> cases h
    · exact .inside (fun hs => by cases hs) fun _ => rfl
    · exact .available rfl ((Bool.not_eq_true _).mp hrecv)
    · exact .inside (fun hs => by cases hs) fun _ => rfl
    · exact .available rfl ((Bool.not_eq_true _).mp hrecv)
    · exact .inside (fun hs => by cases hs) fun hr => hr
    · exact .received hrecv rfl
    · exact .available rfl ((Bool.not_eq_true _).mp hrecv)
  | _ => cases h

theorem WlMove.call_step (h : WlMove cfg e (.tick id t) e' o) :
    e.pc id ≠ .out ∧ (∀ j, j ≠ id → e'.pc j = e.pc j) ∧ CallStep id (e.pc id) (e'.pc id) (returned o) := by
  cases h with
  | @work _ _ pc g _ hpc hw =>
    refine ⟨fun hout => (by rw [hout] at hpc; cases hpc), fun j hj => goto_pc_of_ne _ _ _ _ hj, ?_⟩
    rw [returned_ofWorker (wlShadowWorker_ofWorker hw), goto_pc]
    cases hfrom : e.pc id <;> rw [hfrom] at hpc <;> cases hpc
    · exact .inside (fun _ => rfl) nofun
    · exact .inside (fun _ => rfl) nofun
    · exact .inside nofun fun _ => rfl
    · exact .inside nofun fun hr => hr
  | @check _ _ pc r hpc =>
    refine ⟨fun hout => (by rw [hout] at hpc; cases hpc), fun j hj => goto_pc_of_ne _ _ _ _ hj, ?_⟩
    have hret : returned ((wlShadowWorkerChanelCheck e.devs).2 ++ (r.map (WlEvent.ret id)).toList) =
        (r.map fun r => (id, r)).toList := by
      rw [returned_append, returned_ofWorker (chanelCheck_ofWorker e.devs)]
      cases r <;> rfl
    rw [hret, goto_pc]
    exact WlPc.checked_step hpc id
  | @test _ _ payload timeout hpc =>
    refine ⟨by rw [hpc]; nofun, fun j hj => goto_pc_of_ne _ _ _ _ hj, ?_⟩
    rw [goto_pc, hpc]
    exact .inside (fun _ => by split_ifs <;> rfl) nofun
  | @busy _ _ payload timeout hpc =>
    refine ⟨by rw [hpc]; nofun, fun j hj => goto_pc_of_ne _ _ _ _ hj, ?_⟩
    rw [goto_pc, hpc]
    exact .inside (fun _ => rfl) nofun
  | @put _ _ payload timeout hpc =>
    refine ⟨by rw [hpc]; nofun, fun j hj => goto_pc_of_ne _ _ _ _ hj, ?_⟩
    rw [goto_pc, hpc, returned_append, show returned (if (e.devs.dev id).outputBuff.isSend = true then []
      else [WlEvent.overwritten id (e.devs.dev id).outputBuff.num]) = [] by split_ifs <;> rfl]
    exact .inside (fun _ => by split_ifs <;> rfl) nofun
  | @read _ _ w hpc =>
    refine ⟨by rw [hpc]; nofun, fun j hj => goto_pc_of_ne _ _ _ _ hj, ?_⟩
    rw [goto_pc, hpc]
    exact .inside nofun fun hr => hr
  | @empty _ _ hpc =>
    refine ⟨by rw [hpc]; nofun, fun j hj => goto_pc_of_ne _ _ _ _ hj, ?_⟩
    rw [goto_pc, hpc]
    exact .received rfl rfl
  | @copy _ _ hpc =>
    refine ⟨by rw [hpc]; nofun, fun j hj => goto_pc_of_ne _ _ _ _ hj, ?_⟩
    rw [goto_pc, hpc]
    exact .inside nofun fun _ => rfl

/-- A loop keeps to its call, and what the call returns is there for the loop. -/
theorem WlMove.fits {p : Place} (h : WlMove cfg e (.tick id t) e' o) (hf : Fits p (e.pc id) (ret id)) :
    Fits p (e'.pc id) (setReturned ret o id) ∧ retPackets (setReturned ret o id) = retPackets (ret id) + handed o ∧
      ∀ j, j ≠ id → e'.pc j = e.pc j ∧ setReturned ret o j = ret j := by
  obtain ⟨hin, hother, hstep⟩ := h.call_step
  have hnone : ret id = none := by
    cases p with
    | sending => exact (hf.resolve_right fun hc => hin hc.1).2
    | receiving => exact (hf.resolve_right fun hc => hin hc.1).2
    | _ => exact hf.2
  rw [setReturned, handed]
  generalize returned o = rs at hstep
  cases hstep with
  | inside hs hr =>
    refine ⟨?_, by simp, fun j hj => ⟨hother j hj, rfl⟩⟩
    cases p with
    | sending => exact Or.inl ((hf.resolve_right fun hc => hin hc.1).imp hs fun h => h)
    | receiving => exact Or.inl ((hf.resolve_right fun hc => hin hc.1).imp hr fun h => h)
    | _ => exact absurd hf.1 hin
  | sent hs hout =>
    refine ⟨?_, by simp [hnone, retPackets], fun j hj => ⟨hother j hj, by simp [hj]⟩⟩
    cases p with
    | sending => exact Or.inr ⟨hout, by simp⟩
    | receiving => exact (WlPc.not_both hs (hf.resolve_right fun hc => hin hc.1).1).elim
    | _ => exact absurd hf.1 hin
  | available hs hr =>
    cases p with
    | sending => rw [(hf.resolve_right fun hc => hin hc.1).1] at hs; cases hs
    | receiving => rw [(hf.resolve_right fun hc => hin hc.1).1] at hr; cases hr
    | _ => exact absurd hf.1 hin
  | @received res hr hout =>
    refine ⟨?_, by simp [hnone, retPackets], fun j hj => ⟨hother j hj, by simp [hj]⟩⟩
    cases p with
    | sending => exact (WlPc.not_both (hf.resolve_right fun hc => hin hc.1).1 hr).elim
    | receiving => exact Or.inr ⟨hout, res, by simp⟩
    | _ => exact absurd hf.1 hin

theorem ret_sum (ret : ConnId → Option WlRet) (id : ConnId) :
    retPackets (ret .id0) + retPackets (ret .id1) = retPackets (ret id) + retPackets (ret id.other) := by
  cases id
  · rfl
  · exact Nat.add_comm ..

theorem setReturned_silent (ret : ConnId → Option WlRet) (h : returned o = []) : setReturned ret o = ret := by
  rw [setReturned, h]
  rfl

theorem setReturned_checked (ret : ConnId → Option WlRet) (id : ConnId) (r : Option WlRet) (hnone : ret id = none) :
    setReturned ret (r.map (WlEvent.ret id)).toList = Function.update ret id r := by
  cases r with
  | none => exact (Function.update_eq_self_iff.mpr hnone.symm).symm
  | some r => rfl

theorem Pc.sending_of_place {pc : Pc} (h : pc.place = .sending) : pc = .sending := by
  cases pc <;> first | rfl | cases h

theorem Pc.receiving_of_place {pc : Pc} (h : pc.place = .receiving) : ∃ p, pc = .receiving p := by
  cases pc <;> first | exact ⟨_, rfl⟩ | cases h

/-- What a loop's step does to the rest: it enters the radio call, or takes its return. -/
structure Served (id : ConnId) (n n' : System) (p : Place) (packets tx : Nat) : Prop where
  fits : Fits p (n'.emul.pc id) (n'.ret id)
  other : ∀ j, j ≠ id → n'.emul.pc j = n.emul.pc j ∧ n'.ret j = n.ret j
  calm : Calm n'.emul
  flight : n'.flight + packets ≤ n.flight + tx
  loops : n'.m = n.m ∧ n'.s = n.s

/-- A call of the radio. -/
theorem Served.call {c : WlCall} {p : Place} (hcalm : Calm n.emul) (hin : n.emul.pc id = .out ∧ n.ret id = none)
    (hone : n.flight + (WlInput.call id c).brought ≤ 1) (htimely : c.enter.timely = true)
    (hp : Fits p c.enter none)
    (h : emulStep cfg n.emul (.call id c) = some (e', o)) :
    Served id n { n with emul := e' } p 0 (WlInput.call id c).brought := by
  obtain ⟨hcalm', -, hflight⟩ := (emulStep_move h).calm hcalm (by rw [System.flight] at hone; omega)
    (fun id' c' he => by cases he; exact htimely)
  have henter : e' = n.emul.goto id n.emul.devs c.enter := by
    simp only [emulStep, if_pos hin.1, Option.some.injEq, Prod.mk.injEq] at h
    exact h.1.symm
  subst henter
  refine ⟨by rw [goto_pc, hin.2]; exact hp, fun j hj => ⟨goto_pc_of_ne _ _ _ _ hj, rfl⟩, hcalm', ?_, rfl, rfl⟩
  simp only [System.flight]
  omega

theorem System.radio_served {σ : Type} {l : Loop σ} {os : List (Event σ)} {i : Input} {p : Place}
    (hp : PlaceMove p i l.pc.place (transmitted os)) (hid : connId l.tsm.id = some id)
    (htimeout : l.tsm.macRecvTimeout ≠ 0) (hf : Fits p (n.emul.pc id) (n.ret id)) (hcalm : Calm n.emul)
    (hone : n.flight + (transmitted os).length ≤ 1) (h : n.radio cfg l os i = some n') :
    Served id n n' l.pc.place i.packet.toList.length (transmitted os).length := by
  simp only [System.radio, hid, Option.bind_eq_bind, Option.bind_some] at h
  have hsum := ret_sum n.ret id
  generalize hq : l.pc.place = q at hp ⊢
  generalize htx : transmitted os = tx at hp hone ⊢
  cases hp with
  | pass hplace =>
    cases h
    refine ⟨?_, fun _ _ => ⟨rfl, rfl⟩, hcalm, Nat.le_refl _, rfl, rfl⟩
    rcases hplace with rfl | rfl <;> exact hf
  | @send d =>
    simp only [radioCall, Pc.sending_of_place hq, htx, List.head?_cons, Option.map_some, Option.bind_some,
      Option.bind_eq_some_iff, Prod.exists, Option.pure_def, Option.some.injEq] at h
    obtain ⟨e', o, hs, rfl⟩ := h
    exact Served.call (c := .send d stkSendTimeout) hcalm hf hone rfl (Or.inl ⟨rfl, rfl⟩) hs
  | listen =>
    obtain ⟨pack, hpc⟩ := Pc.receiving_of_place hq
    simp only [radioCall, hpc, Option.bind_some, Option.bind_eq_some_iff, Prod.exists, Option.pure_def,
      Option.some.injEq] at h
    obtain ⟨e', o, hs, rfl⟩ := h
    exact Served.call (c := .recv l.tsm.macRecvTimeout) hcalm hf hone (decide_eq_true htimeout) (Or.inl ⟨rfl, rfl⟩) hs
  | sent =>
    dsimp only at h
    split_ifs at h with hret
    cases h
    have hfree : n.emul.pc id = .out := by
      rcases hf with ⟨-, hnone⟩ | ⟨hout, -⟩
      · rw [hnone] at hret
        cases hret
      · exact hout
    refine ⟨⟨hfree, by simp⟩, fun j hj => ⟨rfl, by simp [hj]⟩, hcalm, ?_, rfl, rfl⟩
    have hsum' := ret_sum (Function.update n.ret id none) id
    simp only [Function.update_self, ne_eq, ConnId.other_ne, not_false_eq_true, Function.update_of_ne] at hsum'
    have hzero : retPackets none = 0 := rfl
    simp only [System.flight, Input.packet, Option.toList_none, List.length_nil]
    omega
  | @received res =>
    dsimp only at h
    split_ifs at h with hret
    cases h
    have hreturned : n.emul.pc id = .out ∧ n.ret id = some (.recv res) := by
      rcases hf with ⟨-, hnone⟩ | ⟨hout, res', hsome⟩
      · rw [hnone] at hret
        cases hret
      · rw [hsome] at hret
        cases hret
        exact ⟨hout, hsome⟩
    refine ⟨⟨hreturned.1, by simp⟩, fun j hj => ⟨rfl, by simp [hj]⟩, hcalm, ?_, rfl, rfl⟩
    have hsum' := ret_sum (Function.update n.ret id none) id
    simp only [Function.update_self, ne_eq, ConnId.other_ne, not_false_eq_true, Function.update_of_ne] at hsum'
    have hzero : retPackets none = 0 := rfl
    have hpacket : (Input.received res).packet.toList.length ≤ retPackets (n.ret id) := by
      rw [hreturned.2]
      cases res with
      | none => exact Nat.le_refl _
      | some d =>
        rw [Input.packet]
        split_ifs
        · exact Nat.le_refl _
        · exact Nat.zero_le _
    simp only [System.flight]
    omega

/-- How the step of a loop moves its call: `tx` is handed to the radio, `timeout` is the loop's receive timeout. -/
inductive CallMove (timeout : BitVec 32) : Input → List PackData → WlPc → Option WlRet → WlPc → Option WlRet → Prop
  | pass {now : Timeval} {pc : WlPc} {ret : Option WlRet} : CallMove timeout (.pass now) [] pc ret pc ret
  | send {d : PackData} : CallMove timeout .call [d] .out none (.sendBegin d stkSendTimeout) none
  | listen : CallMove timeout .call [] .out none (.recvBegin timeout) none
  | sent : CallMove timeout .sent [] .out (some .send) .out none
  | received {res : Option PackData} : CallMove timeout (.received res) [] .out (some (.recv res)) .out none

section Inversion

variable {timeout : BitVec 32} {now : Timeval} {tx : List PackData} {d : PackData} {res : Option PackData}
  {pc pc' : WlPc} {r r' : Option WlRet}

theorem CallMove.pass_eq (h : CallMove timeout (.pass now) tx pc r pc' r') : pc' = pc ∧ r' = r := by
  cases h
  exact ⟨rfl, rfl⟩

theorem CallMove.send_eq (h : CallMove timeout .call [d] pc r pc' r') :
    pc' = .sendBegin d stkSendTimeout ∧ r' = none := by
  cases h
  exact ⟨rfl, rfl⟩

theorem CallMove.listen_eq (h : CallMove timeout .call [] pc r pc' r') : pc' = .recvBegin timeout ∧ r' = none := by
  cases h
  exact ⟨rfl, rfl⟩

theorem CallMove.sent_eq (h : CallMove timeout .sent tx pc r pc' r') :
    (pc = .out ∧ r = some .send) ∧ pc' = .out ∧ r' = none := by
  cases h
  exact ⟨⟨rfl, rfl⟩, rfl, rfl⟩

theorem CallMove.received_eq (h : CallMove timeout (.received res) tx pc r pc' r') :
    (pc = .out ∧ r = some (.recv res)) ∧ pc' = .out ∧ r' = none := by
  cases h
  exact ⟨⟨rfl, rfl⟩, rfl, rfl⟩

end Inversion

/-- The step of a loop leaves the buffers and the other side's call as they are. -/
structure Called (timeout : BitVec 32) (id : ConnId) (i : Input) (tx : List PackData) (n n' : System) : Prop where
  move : CallMove timeout i tx (n.emul.pc id) (n.ret id) (n'.emul.pc id) (n'.ret id)
  devs : n'.emul.devs = n.emul.devs
  other : ∀ j, j ≠ id → n'.emul.pc j = n.emul.pc j ∧ n'.ret j = n.ret j

/-- A loop steps outside its calls. -/
theorem Called.out {timeout : BitVec 32} {i : Input} {tx : List PackData} {p q : Place}
    (h : Called timeout id i tx n n')
    (hp : PlaceMove p i q tx) (hf : Fits p (n.emul.pc id) (n.ret id)) : n.emul.pc id = .out := by
  obtain ⟨hmove, -, -⟩ := h
  generalize n.emul.pc id = pc at hmove hf ⊢
  generalize n.ret id = ret at hmove hf
  generalize n'.emul.pc id = pc' at hmove
  generalize n'.ret id = ret' at hmove
  cases hmove with
  | pass =>
    cases hp
    exact hf.1
  | _ => rfl

theorem Called.enter {timeout : BitVec 32} {i : Input} {tx : List PackData} {c : WlCall}
    (hout : n.emul.pc id = .out) (hmove : CallMove timeout i tx .out (n.ret id) c.enter (n.ret id))
    (h : emulStep cfg n.emul (.call id c) = some (e', o)) : Called timeout id i tx n { n with emul := e' } := by
  have henter : e' = n.emul.goto id n.emul.devs c.enter := by
    simp only [emulStep, if_pos hout, Option.some.injEq, Prod.mk.injEq] at h
    exact h.1.symm
  subst henter
  exact ⟨by rw [goto_pc, hout]; exact hmove, rfl, fun j hj => ⟨goto_pc_of_ne _ _ _ _ hj, rfl⟩⟩

/-- **The radio's part in a step of a loop.** -/
theorem System.radio_calls {σ : Type} {l : Loop σ} {os : List (Event σ)} {i : Input} {p : Place}
    (hp : PlaceMove p i l.pc.place (transmitted os)) (hid : connId l.tsm.id = some id)
    (hf : Fits p (n.emul.pc id) (n.ret id)) (h : n.radio cfg l os i = some n') :
    Called l.tsm.macRecvTimeout id i (transmitted os) n n' ∧ n'.m = n.m ∧ n'.s = n.s := by
  simp only [System.radio, hid, Option.bind_eq_bind, Option.bind_some] at h
  generalize hq : l.pc.place = q at hp
  generalize htx : transmitted os = tx at hp ⊢
  cases hp with
  | pass hplace =>
    cases h
    exact ⟨⟨.pass, rfl, fun _ _ => ⟨rfl, rfl⟩⟩, rfl, rfl⟩
  | @send d =>
    obtain ⟨hout, hnone⟩ := hf
    simp only [radioCall, Pc.sending_of_place hq, htx, List.head?_cons, Option.map_some, Option.bind_some,
      Option.bind_eq_some_iff, Prod.exists, Option.pure_def, Option.some.injEq] at h
    obtain ⟨e', o, hs, rfl⟩ := h
    exact ⟨Called.enter hout (by rw [hnone]; exact .send) hs, rfl, rfl⟩
  | listen =>
    obtain ⟨hout, hnone⟩ := hf
    obtain ⟨pack, hpc⟩ := Pc.receiving_of_place hq
    simp only [radioCall, hpc, Option.bind_some, Option.bind_eq_some_iff, Prod.exists, Option.pure_def,
      Option.some.injEq] at h
    obtain ⟨e', o, hs, rfl⟩ := h
    exact ⟨Called.enter hout (by rw [hnone]; exact .listen) hs, rfl, rfl⟩
  | sent =>
    dsimp only at h
    split_ifs at h with hret
    cases h
    have hreturned : n.emul.pc id = .out ∧ n.ret id = some .send := by
      rcases hf with ⟨-, hnone⟩ | hreturned
      · rw [hnone] at hret
        cases hret
      · exact hreturned
    refine ⟨⟨?_, rfl, fun j hj => ⟨rfl, by simp [hj]⟩⟩, rfl, rfl⟩
    simp only [hreturned.1, hreturned.2, Function.update_self]
    exact .sent
  | @received res =>
    dsimp only at h
    split_ifs at h with hret
    cases h
    have hreturned : n.emul.pc id = .out ∧ n.ret id = some (.recv res) := by
      rcases hf with ⟨-, hnone⟩ | ⟨hout, res', hsome⟩
      · rw [hnone] at hret
        cases hret
      · rw [hsome] at hret
        cases hret
        exact ⟨hout, hsome⟩
    refine ⟨⟨?_, rfl, fun j hj => ⟨rfl, by simp [hj]⟩⟩, rfl, rfl⟩
    simp only [hreturned.1, hreturned.2, Function.update_self]
    exact .received

end LoraBridge
