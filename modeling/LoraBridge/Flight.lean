import LoraBridge.Accounting

/-!
# Packets in flight

The packets that the emulator has, from the call of a send to the return of a receive. A step of a side makes none
(`WlMove.flight`), and while there is at most one, and no receive is called with timeout zero, nothing is counted as an
error (`WlMove.calm`).
-/

set_option autoImplicit false

namespace LoraBridge

/-- The packet of `id` in its output buffer, and that in the other side's input buffer. -/
def WlEmulGlobal.lane (g : WlEmulGlobal) (id : ConnId) : Nat :=
  (!(g.dev id).outputBuff.isSend).toNat + (g.dev id.other).inputBuff.isRecieved.toNat

/-- The packets that a call of the side has, outside the buffers. -/
def WlPc.carried : WlPc → Nat
  | .sendBegin _ _ => 1
  | .sendTest _ _ => 1
  | .sendBusy _ _ => 1
  | .sendPut _ _ => 1
  | .recvCheck _ => 1
  | _ => 0

/-- The packets that the emulator has. -/
def Emul.flight (e : Emul) : Nat :=
  (e.devs.lane .id0 + e.devs.lane .id1) + ((e.pc .id0).carried + (e.pc .id1).carried)

/-- No error is counted at this place or after a wait that began before it, unless two packets meet. -/
def WlPc.timely : WlPc → Bool
  | .sendBusy _ _ => false
  | .recvEmpty => false
  | .recvBegin timeout => timeout ≠ 0
  | .dataWorker w => w.timeout ≠ 0
  | .dataRead w => w.timeout ≠ 0
  | .dataCheck w _ => w.timeout ≠ 0
  | _ => true

/-- The packets that an input brings into the emulator. -/
def WlInput.brought : WlInput → Nat
  | .call _ (.send _ _) => 1
  | _ => 0

def WlRet.packets : WlRet → Nat
  | .recv (some _) => 1
  | _ => 0

/-- What the calls return. -/
def returned (o : List WlEvent) : List (ConnId × WlRet) :=
  o.filterMap fun
    | .ret id r => some (id, r)
    | _ => none

/-- The packets that leave it. -/
def handed (o : List WlEvent) : Nat := ((returned o).map fun r => r.2.packets).sum

@[simp] theorem returned_append (o o' : List WlEvent) : returned (o ++ o') = returned o ++ returned o' :=
  List.filterMap_append

/-- No error has been counted, and no side has come to a place where one is counted. -/
structure Calm (e : Emul) : Prop where
  timely : ∀ id, (e.pc id).timely = true
  ready : ∀ id, e.pc id = .recvCopy ∨ (∃ w, e.pc id = .dataCheck w true) →
    (e.devs.dev id).inputBuff.isRecieved = true
  err : e.devs.err = 0

variable {cfg : WlConfig} {id src : ConnId} {g g' : WlEmulGlobal} {o : List WlEvent} {now : Timeval} {e e' : Emul}
  {i : WlInput}

/-! ## Buffers -/

theorem lane_sum (g : WlEmulGlobal) (id : ConnId) :
    g.lane .id0 + g.lane .id1 = g.lane id + g.lane id.other := by
  cases id
  · rfl
  · exact Nat.add_comm ..

/-- Of the packet in the air at most one is left, in one of the buffers; an error needs a second one. -/
theorem WlArrive.lane (h : WlArrive cfg now src g g' o) :
    g'.lane src ≤ g.lane src ∧ g'.lane src.other = g.lane src.other ∧ (g.lane src ≤ 1 → errors o = 0) := by
  cases h with
  | none hsend => exact ⟨Nat.le_refl _, rfl, fun _ => rfl⟩
  | flying hsend hair => exact ⟨Nat.le_refl _, rfl, fun _ => rfl⟩
  | lost hsend hair hcfg =>
    refine ⟨by simp [WlEmulGlobal.lane], ?_, fun _ => rfl⟩
    simp [WlEmulGlobal.lane, setOut_out_of_ne _ _ _ (ConnId.other_ne src)]
  | dropped hsend hair hbreak hfull =>
    refine ⟨by simp [WlEmulGlobal.lane], ?_, fun hone => ?_⟩
    · simp [WlEmulGlobal.lane, setOut_out_of_ne _ _ _ (ConnId.other_ne src)]
    · simp [WlEmulGlobal.lane, hsend, hfull] at hone
  | delivered hsend hair hbreak hempty =>
    refine ⟨by simp [WlEmulGlobal.lane, hsend], ?_, fun _ => rfl⟩
    simp [WlEmulGlobal.lane, setOut_out_of_ne _ _ _ (ConnId.other_ne src), setIn_inp_of_ne _ _ _ (ConnId.ne_other src)]

/-- Two packets in the air are two packets. -/
theorem chanelCheck_lane (g : WlEmulGlobal) (hone : g.lane .id0 + g.lane .id1 ≤ 1) :
    wlShadowWorkerChanelCheck g = (g, []) := by
  rcases chanelCheck_cases g with ⟨h₀, h₁, -⟩ | ⟨-, hc⟩
  · simp only [WlEmulGlobal.lane, h₀, h₁, Bool.not_false, Bool.toNat_true] at hone
    omega
  · exact hc

theorem wlShadowWorker_lane {t : WlTick} (h : wlShadowWorker cfg t g = some (g', o))
    (hone : g.lane .id0 + g.lane .id1 ≤ 1) :
    g'.lane .id0 + g'.lane .id1 ≤ g.lane .id0 + g.lane .id1 ∧ errors o = 0 := by
  obtain ⟨g₀, g₁, o₀, o₁, h₀, h₁, rfl, rfl⟩ := wlShadowWorker_arrive h
  obtain ⟨hle₀, heq₀, herr₀⟩ := h₀.lane
  obtain ⟨hle₁, heq₁, herr₁⟩ := h₁.lane
  simp only [ConnId.other] at heq₀ heq₁
  rw [chanelCheck_lane g₁ (by omega), errors_append, errors_append, herr₀ (by omega), herr₁ (by omega)]
  exact ⟨by dsimp only; omega, rfl⟩

/-! ## Steps -/

theorem WlPc.worked_carried {pc pc' : WlPc} (h : pc.worked = some pc') :
    pc'.carried = pc.carried ∧ (pc.timely = true → pc'.timely = true) := by
  cases pc <;> cases h <;> exact ⟨rfl, id⟩

theorem WlPc.checked_carried {pc pc' : WlPc} {r : Option WlRet} (h : pc.checked = some (pc', r)) :
    pc'.carried + (r.map WlRet.packets).getD 0 = pc.carried ∧ (pc.timely = true → pc'.timely = true) := by
  cases pc with
  | dataCheck w ret =>
    simp only [WlPc.checked, wlWaitNext, Option.some.injEq] at h
    cases ret with
    | true =>
      rw [if_pos rfl] at h
      split_ifs at h <;> cases h <;> exact ⟨rfl, fun _ => rfl⟩
    | false =>
      rw [if_neg (by simp)] at h
      split_ifs at h with hzero hrecv hmore hrecv <;> cases h
      · exact ⟨rfl, fun ht => absurd hzero (of_decide_eq_true ht)⟩
      · exact ⟨rfl, fun _ => rfl⟩
      · exact ⟨rfl, id⟩
      · exact ⟨rfl, fun _ => rfl⟩
      · exact ⟨rfl, fun _ => rfl⟩
  | sendCheck => cases h; exact ⟨rfl, id⟩
  | recvCheck data => cases h; exact ⟨rfl, id⟩
  | _ => cases h

theorem goto_flight (e : Emul) (id : ConnId) (g : WlEmulGlobal) (pc : WlPc) :
    (e.goto id g pc).flight + (e.pc id).carried + (e.devs.lane .id0 + e.devs.lane .id1) =
      e.flight + pc.carried + (g.lane .id0 + g.lane .id1) := by
  cases id <;> simp [Emul.flight, Emul.goto] <;> omega

/-- A packet that is yet to be put is the one in flight, so the output buffer is free. -/
theorem sent_of_carried (hone : e.flight ≤ 1) (hpc : (e.pc id).carried = 1) :
    (e.devs.dev id).outputBuff.isSend = true := by
  by_contra hsend
  rw [Bool.not_eq_true] at hsend
  have hfull : 1 ≤ e.devs.lane id := by simp [WlEmulGlobal.lane, hsend]
  have hlane := lane_sum e.devs id
  have hcarried : (e.pc id).carried ≤ (e.pc .id0).carried + (e.pc .id1).carried := by
    cases id
    · exact Nat.le_add_right ..
    · exact Nat.le_add_left ..
  rw [Emul.flight] at hone
  omega

theorem Calm.goto (h : Calm e) {pc : WlPc} (htimely : pc.timely = true)
    (hready : pc = .recvCopy ∨ (∃ w, pc = .dataCheck w true) → (g.dev id).inputBuff.isRecieved = true)
    (hrecv : ∀ j, j ≠ id → (e.devs.dev j).inputBuff.isRecieved = true → (g.dev j).inputBuff.isRecieved = true)
    (herr : g.err = 0) : Calm (e.goto id g pc) := by
  refine ⟨fun j => ?_, fun j hj => ?_, herr⟩
  · by_cases hne : j = id
    · rw [hne, goto_pc, htimely]
    · rw [goto_pc_of_ne _ _ _ _ hne, h.timely j]
  · by_cases hne : j = id
    · subst hne
      rw [goto_pc] at hj
      exact hready hj
    · rw [goto_pc_of_ne _ _ _ _ hne] at hj
      exact hrecv j hne (h.ready j hj)

theorem returned_ofWorker (ho : ∀ x ∈ o, x.ofWorker = true) : returned o = [] :=
  filterMap_ofWorker ho fun x hx => by cases x <;> first | rfl | cases hx

/-- **A step with at most one packet in flight**, the one it brings included: it makes no packet, and no error. -/
theorem WlMove.calm (h : WlMove cfg e i e' o) (hc : Calm e) (hone : e.flight + i.brought ≤ 1)
    (hcall : ∀ id c, i = .call id c → c.enter.timely = true) :
    Calm e' ∧ errors o = 0 ∧ e'.flight + handed o ≤ e.flight + i.brought := by
  have hlanes : e.devs.lane .id0 + e.devs.lane .id1 + ((e.pc .id0).carried + (e.pc .id1).carried) = e.flight := rfl
  cases h with
  | @call id c hpc =>
    have hgoto := goto_flight e id e.devs c.enter
    have hcarried : c.enter.carried = (WlInput.call id c).brought := by cases c <;> rfl
    rw [hpc, hcarried] at hgoto
    refine ⟨hc.goto (hcall id c rfl) ?_ (fun _ _ h => h) hc.err, rfl, ?_⟩
    · cases c <;> rintro (hp | ⟨w, hp⟩) <;> cases hp
    · simp only [handed, returned, List.filterMap_nil, List.map_nil, List.sum_nil, WlPc.carried] at hgoto ⊢
      omega
  | @work id t pc g o hpc hw =>
    obtain ⟨hcarried, htimely⟩ := WlPc.worked_carried hpc
    obtain ⟨hle, herrors⟩ := wlShadowWorker_lane hw (by omega)
    obtain ⟨-, herr, -, -, hrecv⟩ := @wlShadowWorker_keeps cfg e.devs g [] o t hw
    have hgoto := goto_flight e id g pc
    have hplain := WlPc.worked_plain hpc
    refine ⟨hc.goto (htimely (hc.timely id)) ?_ (fun j _ => hrecv j) ?_, herrors, ?_⟩
    · rintro (rfl | ⟨w, rfl⟩) <;> cases hplain
    · rw [herr, hc.err, herrors]
      rfl
    · rw [handed, returned_ofWorker (wlShadowWorker_ofWorker hw)]
      simp only [List.map_nil, List.sum_nil]
      omega
  | @check id t pc r hpc =>
    obtain ⟨hcarried, htimely⟩ := WlPc.checked_carried hpc
    have hgoto := goto_flight e id e.devs pc
    rw [chanelCheck_lane e.devs (by omega)]
    dsimp only
    refine ⟨hc.goto (htimely (hc.timely id)) ?_ (fun _ _ h => h) hc.err, by cases r <;> rfl, ?_⟩
    · rcases WlPc.checked_plain hpc with hplain | ⟨rfl, w, hw⟩
      · rintro (rfl | ⟨w, rfl⟩) <;> cases hplain
      · exact fun _ => hc.ready id (Or.inr ⟨w, hw⟩)
    · have hhanded : handed ([] ++ (r.map (WlEvent.ret id)).toList) = (r.map WlRet.packets).getD 0 := by
        cases r <;> simp [handed, returned]
      rw [hhanded]
      omega
  | @test id t payload timeout hpc =>
    have hsent := sent_of_carried (Nat.le_of_add_right_le hone) (by rw [hpc]; rfl)
    have hgoto := goto_flight e id e.devs (.sendPut payload timeout)
    rw [if_pos hsent]
    rw [hpc] at hgoto
    refine ⟨hc.goto rfl (by rintro (hp | ⟨w, hp⟩) <;> cases hp) (fun _ _ h => h) hc.err, rfl, ?_⟩
    simp only [handed, returned, List.filterMap_nil, List.map_nil, List.sum_nil, WlPc.carried] at hgoto ⊢
    omega
  | @busy id t payload timeout hpc =>
    have htimely := hc.timely id
    rw [hpc] at htimely
    cases htimely
  | @put id t payload timeout hpc =>
    have hlane := lane_sum e.devs id
    have hsent := sent_of_carried (Nat.le_of_add_right_le hone) (by rw [hpc]; rfl)
    have hput : (e.devs.put id payload t.now₀).lane id = e.devs.lane id + 1 ∧
        (e.devs.put id payload t.now₀).lane id.other = e.devs.lane id.other := by
      constructor
      · simp [WlEmulGlobal.lane, WlEmulGlobal.put, hsent, Nat.add_comm]
      · simp [WlEmulGlobal.lane, WlEmulGlobal.put, setOut_out_of_ne _ _ _ (ConnId.other_ne id)]
    have hlane' := lane_sum (e.devs.put id payload t.now₀) id
    have hgoto := goto_flight e id (e.devs.put id payload t.now₀) (if timeout ≠ 0 then .sendFlush else .sendCheck)
    have hafter : (if timeout ≠ 0 then WlPc.sendFlush else .sendCheck).carried = 0 := by split_ifs <;> rfl
    rw [hpc, hafter] at hgoto
    rw [if_pos hsent]
    refine ⟨hc.goto (by split_ifs <;> rfl) ?_ ?_ hc.err, rfl, ?_⟩
    · split_ifs <;> rintro (hp | ⟨w, hp⟩) <;> cases hp
    · intro j _ hj
      simpa [WlEmulGlobal.put] using hj
    · simp only [handed, returned, List.nil_append, List.filterMap_cons, List.filterMap_nil, List.map_nil,
        List.sum_nil, WlPc.carried] at hgoto ⊢
      omega
  | @read id t w hpc =>
    have htimely := hc.timely id
    rw [hpc] at htimely
    have hgoto := goto_flight e id e.devs (.dataCheck w (e.devs.dev id).inputBuff.isRecieved)
    rw [hpc] at hgoto
    refine ⟨hc.goto htimely ?_ (fun _ _ h => h) hc.err, rfl, ?_⟩
    · rintro (hp | ⟨w', hp⟩)
      · cases hp
      · exact (WlPc.dataCheck.inj hp).2
    · simp only [handed, returned, List.filterMap_nil, List.map_nil, List.sum_nil, WlPc.carried] at hgoto ⊢
      omega
  | @empty id t hpc =>
    have htimely := hc.timely id
    rw [hpc] at htimely
    cases htimely
  | @copy id t hpc =>
    have hlane := lane_sum e.devs id
    have hfull := hc.ready id (Or.inl hpc)
    have htake : (e.devs.take id).lane id = e.devs.lane id ∧
        (e.devs.take id).lane id.other + 1 = e.devs.lane id.other := by
      constructor
      · simp [WlEmulGlobal.lane, WlEmulGlobal.take, setIn_inp_of_ne _ _ _ (ConnId.other_ne id)]
      · simp [WlEmulGlobal.lane, WlEmulGlobal.take, hfull]
    have hlane' := lane_sum (e.devs.take id) id
    have hgoto := goto_flight e id (e.devs.take id) (.recvCheck (packOfData (e.devs.dev id).inputBuff.recvData))
    rw [hpc] at hgoto
    refine ⟨hc.goto rfl (by rintro (hp | ⟨w, hp⟩) <;> cases hp) ?_ hc.err, rfl, ?_⟩
    · intro j hne hj
      rw [WlEmulGlobal.take, setIn_inp_of_ne _ _ _ hne]
      exact hj
    · simp only [handed, returned, List.filterMap_cons, List.filterMap_nil, List.map_nil, List.sum_nil,
        WlPc.carried] at hgoto ⊢
      omega

end LoraBridge
