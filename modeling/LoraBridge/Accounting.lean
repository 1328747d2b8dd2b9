import LoraBridge.Lanes

/-!
# What becomes of every packet

Over a whole run every packet passed to a send is put into the output buffer once, and every packet put has exactly one
fate or is in one buffer; the packets returned come in order, each with the flips of the `wl_pack_break` of the tick in
which it landed (`Landed`), and what was dropped or overwritten is counted as errors (`packets_accounted`).
-/

set_option autoImplicit false

namespace LoraBridge

open Pipeline Transducer

variable {cfg : WlConfig} {R : ConnId → Nat → PackData → PackData → Prop} {id src : ConnId} {g g' : WlEmulGlobal}
  {os o : List WlEvent} {now : Timeval}

/-! ## Runs -/

/-- The packet that a receive has copied and is about to return. -/
def Emul.held (e : Emul) (id : ConnId) : List PackData :=
  match e.pc id with
  | .recvCheck data => [data]
  | _ => []

/-- A packet is about to overwrite another one; the error is counted already. -/
def Emul.pending (e : Emul) (id : ConnId) : Nat :=
  match e.pc id with
  | .sendPut _ _ => if (e.devs.dev id).outputBuff.isSend then 0 else 1
  | _ => 0

/-- What holds of a run whose packets land as `R` says. -/
structure Accounts (R : ConnId → Nat → PackData → PackData → Prop) (e : Emul) (os : List WlEvent) : Prop where
  lane : ∀ id, Lane (R id) id e.devs os
  err : e.devs.err = BitVec.ofNat 32 (errors os)
  ready : ∀ id, e.pc id = .recvCopy ∨ (∃ w, e.pc id = .dataCheck w true) →
    (e.devs.dev id).inputBuff.isRecieved = true
  budget : discards os + e.pending .id0 + e.pending .id1 ≤ errors os
  calls : ∀ id, (returns id.other os).map Prod.snd = results id os ++ e.held id

variable {e e' : Emul}

theorem pending_sum (e : Emul) (id : ConnId) : e.pending .id0 + e.pending .id1 = e.pending id + e.pending id.other := by
  cases id
  · rfl
  · exact Nat.add_comm ..

theorem pending_le {i : ConnId} (hpc : e'.pc i = e.pc i)
    (hsend : (e.devs.dev i).outputBuff.isSend = true → (e'.devs.dev i).outputBuff.isSend = true) :
    e'.pending i ≤ e.pending i := by
  rw [Emul.pending, Emul.pending, hpc]
  split
  · cases h : (e.devs.dev i).outputBuff.isSend with
    | true => rw [if_pos (hsend h)]; exact Nat.zero_le _
    | false =>
      simp only [Bool.false_eq_true, if_false]
      split_ifs
      · exact Nat.zero_le _
      · exact Nat.le_refl _
  · exact Nat.le_refl _

theorem pending_zero {i : ConnId} (h : ∀ payload timeout, e.pc i ≠ .sendPut payload timeout) : e.pending i = 0 := by
  rw [Emul.pending]
  split
  · rename_i hpc
    exact absurd hpc (h _ _)
  · rfl

/-- A place that asks for nothing: neither a write of the output buffer nor a copy of the input buffer is next. -/
def WlPc.plain : WlPc → Bool
  | .sendPut _ _ => false
  | .recvCopy => false
  | .dataCheck _ _ => false
  | _ => true

theorem WlPc.worked_plain {pc pc' : WlPc} (h : pc.worked = some pc') : pc'.plain = true := by
  cases pc <;> cases h <;> rfl

theorem WlPc.checked_plain {pc pc' : WlPc} {r : Option WlRet} (h : pc.checked = some (pc', r)) :
    pc'.plain = true ∨ pc' = .recvCopy ∧ ∃ w, pc = .dataCheck w true := by
  cases pc with
  | dataCheck w ret =>
    simp only [WlPc.checked, wlWaitNext, Option.some.injEq] at h
    cases ret with
    | true =>
      rw [if_pos rfl] at h
      split_ifs at h <;> cases h
      · exact Or.inr ⟨rfl, w, rfl⟩
      · exact Or.inl rfl
    | false =>
      rw [if_neg nofun] at h
      split_ifs at h <;> cases h <;> exact Or.inl rfl
  | sendCheck => cases h; exact Or.inl rfl
  | recvCheck data => cases h; exact Or.inl rfl
  | _ => cases h

/-- The errors that a step counts are those of its history. -/
theorem WlMove.err {i : WlInput} (h : WlMove cfg e i e' o) : e'.devs.err = e.devs.err + BitVec.ofNat 32 (errors o) := by
  cases h with
  | @work k t pc g o hpc hw => exact (@wlShadowWorker_keeps cfg e.devs g [] o t hw).2.1
  | @check k t pc r hpc =>
    have hret : errors (r.map (WlEvent.ret k)).toList = 0 := by cases r <;> rfl
    rw [errors_append, hret, Nat.add_zero]
    exact (chanelCheck_keeps e.devs).1
  | busy | empty => rfl
  | @put k t payload timeout hpc => split_ifs <;> simp [WlEmulGlobal.put, errors, WlEvent.isError]
  | _ => simp [WlEmulGlobal.take, errors, WlEvent.isError]

/-- A step that only moves the side to a plain place, or changes what the others need for the better. -/
theorem Accounts.goto (h : Accounts R e os) {id : ConnId} {g : WlEmulGlobal} {pc : WlPc}
    (hlane : ∀ i, Lane (R i) i g (os ++ o)) (herr : g.err = e.devs.err + BitVec.ofNat 32 (errors o))
    (hsend : ∀ i, i ≠ id → (e.devs.dev i).outputBuff.isSend = true → (g.dev i).outputBuff.isSend = true)
    (hrecv : ∀ i, i ≠ id → (e.devs.dev i).inputBuff.isRecieved = true → (g.dev i).inputBuff.isRecieved = true)
    (hready : pc = .recvCopy ∨ (∃ w, pc = .dataCheck w true) → (g.dev id).inputBuff.isRecieved = true)
    (hbudget : discards o + (e.goto id g pc).pending id ≤ errors o + e.pending id)
    (hcalls : e.held id ++ (returns id.other o).map Prod.snd = results id o ++ (e.goto id g pc).held id)
    (hquiet : returns id o = [] ∧ results id.other o = []) :
    Accounts R (e.goto id g pc) (os ++ o) := by
  refine ⟨hlane, ?_, fun i hi => ?_, ?_, fun i => ?_⟩
  · rw [goto_devs, herr, h.err, errors_append, BitVec.ofNat_add]
  · by_cases hne : i = id
    · subst hne
      rw [goto_pc] at hi
      exact hready hi
    · rw [goto_pc_of_ne _ _ _ _ hne] at hi
      exact hrecv i hne (h.ready i hi)
  · have hother : (e.goto id g pc).pending id.other ≤ e.pending id.other :=
      pending_le (goto_pc_of_ne _ _ _ _ (ConnId.other_ne id)) (hsend _ (ConnId.other_ne id))
    have hold := h.budget
    rw [Nat.add_assoc, pending_sum e id] at hold
    rw [Nat.add_assoc, pending_sum _ id, discards_append, errors_append]
    omega
  · rw [returns_append, results_append, List.map_append, h.calls i, List.append_assoc, List.append_assoc]
    congr 1
    rcases id.eq_or_other i with rfl | rfl
    · exact hcalls
    · rw [ConnId.other_other, hquiet.1, hquiet.2, Emul.held, Emul.held, goto_pc_of_ne _ _ _ _ (ConnId.other_ne id)]
      simp

theorem goto_pending_plain {id : ConnId} {g : WlEmulGlobal} {pc : WlPc}
    (hpc : ∀ payload timeout, pc ≠ .sendPut payload timeout) : (e.goto id g pc).pending id = 0 :=
  pending_zero (by rw [goto_pc]; exact hpc)

theorem held_nil {id : ConnId} (h : ∀ data, e.pc id ≠ .recvCheck data) : e.held id = [] := by
  rw [Emul.held]
  split
  · rename_i hpc
    exact absurd hpc (h _)
  · rfl

theorem goto_held_nil {id : ConnId} {g : WlEmulGlobal} {pc : WlPc} (h : ∀ data, pc ≠ .recvCheck data) :
    (e.goto id g pc).held id = [] := held_nil (by rw [goto_pc]; exact h)

/-- A checker hands over the packet a receive holds, and nothing else. -/
theorem WlPc.checked_calls {pc pc' : WlPc} {r : Option WlRet} (h : pc.checked = some (pc', r)) :
    (∃ d, pc = .recvCheck d ∧ pc' = .out ∧ r = some (.recv (some d))) ∨
      ((∀ d, pc ≠ .recvCheck d) ∧ (∀ d, pc' ≠ .recvCheck d) ∧ ∀ d, r ≠ some (.recv (some d))) := by
  cases pc with
  | recvCheck d =>
    cases h
    exact Or.inl ⟨d, rfl, rfl, rfl⟩
  | sendCheck =>
    cases h
    exact Or.inr ⟨nofun, nofun, nofun⟩
  | dataCheck w ret =>
    refine Or.inr ⟨nofun, ?_⟩
    simp only [WlPc.checked, wlWaitNext, Option.some.injEq] at h
    split_ifs at h <;> cases h <;> exact ⟨nofun, nofun⟩
  | _ => cases h

/-- A step with no history that neither copies nor returns a packet. -/
theorem Accounts.quiet (h : Accounts R e os) {id : ConnId} {pc : WlPc} (hfrom : ∀ d, e.pc id ≠ .recvCheck d)
    (hto : ∀ d, pc ≠ .recvCheck d)
    (hready : pc = .recvCopy ∨ (∃ w, pc = .dataCheck w true) → (e.devs.dev id).inputBuff.isRecieved = true)
    (hbudget : (e.goto id e.devs pc).pending id = 0) : Accounts R (e.goto id e.devs pc) (os ++ []) :=
  h.goto (fun i => (h.lane i).same rfl rfl rfl rfl rfl rfl) (by simp [errors]) (fun _ _ h => h) (fun _ _ h => h) hready
    (by rw [hbudget]; exact Nat.zero_le _) (by rw [held_nil hfrom, goto_held_nil hto]; rfl) ⟨rfl, rfl⟩

theorem Accounts.mono {R' : ConnId → Nat → PackData → PackData → Prop} (h : Accounts R e os)
    (hR : ∀ id n d d', R id n d d' → R' id n d d') : Accounts R' e os :=
  ⟨fun id => (h.lane id).mono (hR id), h.err, h.ready, h.budget, h.calls⟩

theorem Accounts.step {i : WlInput} (h : Accounts R e os) (hmove : WlMove cfg e i e' o)
    (hpass : ∀ id, Delivers (R id) id e.devs e'.devs) : Accounts R e' (os ++ o) := by
  have herr := hmove.err
  cases hmove with
  | @call id c hpc =>
    refine h.quiet (fun _ => hpc.trans_ne (by simp)) (by cases c <;> simp [WlCall.enter]) ?_ ?_
    · cases c <;> rintro (hc | ⟨w, hc⟩) <;> cases hc
    · exact goto_pending_plain (fun _ _ hc => by cases c <;> cases hc)
  | @work id t pc g o hpc hw =>
    obtain ⟨hlane, -, hdis, hsend, hrecv⟩ := wlShadowWorker_keeps hw
    have hcalls := returns_ofWorker (wlShadowWorker_ofWorker hw)
    have hplain := WlPc.worked_plain hpc
    refine h.goto (fun i => hlane _ i (hpass i) (h.lane i)) herr (fun i _ => hsend i) (fun i _ => hrecv i) ?_ ?_ ?_
      ⟨(hcalls _).1, (hcalls _).2⟩
    · rintro (rfl | ⟨w, rfl⟩) <;> cases hplain
    · rw [goto_pending_plain (by rintro p t rfl; cases hplain)]
      omega
    · rw [held_nil (fun d hd => by rw [hd] at hpc; cases hpc),
        goto_held_nil (by rintro d rfl; cases hw' : e.pc id <;> rw [hw'] at hpc <;> cases hpc), (hcalls _).1,
        (hcalls _).2]
      rfl
  | @check id t pc r hpc =>
    obtain ⟨-, hdis, hdev⟩ := chanelCheck_keeps e.devs
    have hcalls := returns_ofWorker (chanelCheck_ofWorker e.devs)
    have hret : discards (r.map (WlEvent.ret id)).toList = 0 := by cases r <;> rfl
    have hno : ∀ i, returns i (r.map (WlEvent.ret id)).toList = [] := fun i => by cases r <;> rfl
    refine h.goto (fun i => ?_) herr (fun i _ hi => by rw [hdev]; exact hi) (fun i _ hi => by rw [hdev]; exact hi)
      ?_ ?_ ?_ ?_
    · rw [← List.append_assoc]
      cases r <;> exact (h.lane i).check.same rfl rfl rfl rfl rfl rfl
    · rw [hdev]
      rcases WlPc.checked_plain hpc with hplain | ⟨rfl, w, hw⟩
      · rintro (rfl | ⟨w, rfl⟩) <;> cases hplain
      · exact fun _ => h.ready id (Or.inr ⟨w, hw⟩)
    · rw [goto_pending_plain, discards_append, errors_append, hdis, hret]
      · omega
      · rcases WlPc.checked_plain hpc with hplain | ⟨rfl, -⟩
        · rintro p t rfl
          cases hplain
        · simp
    · rw [returns_append, (hcalls _).1, hno, results_append, (hcalls _).2]
      rcases WlPc.checked_calls hpc with ⟨d, hw, rfl, rfl⟩ | ⟨hfrom, hto, hr⟩
      · simp [Emul.held, hw, results]
      · rw [held_nil hfrom, goto_held_nil hto]
        cases r with
        | none => rfl
        | some r =>
          cases r with
          | recv res =>
            cases res with
            | none => rfl
            | some d => exact absurd rfl (hr d)
          | _ => rfl
    · rw [returns_append, (hcalls _).1, hno, results_append, (hcalls _).2]
      refine ⟨rfl, ?_⟩
      rcases r with _ | _ | _ | _ | d <;> simp [results]
  | @test id t payload timeout hpc =>
    refine h.quiet (fun _ => hpc.trans_ne (by simp)) (fun d => by split_ifs <;> simp) ?_ ?_
    · split_ifs <;> rintro (hc | ⟨w, hc⟩) <;> cases hc
    · cases hsend : (e.devs.dev id).outputBuff.isSend <;> simp [Emul.pending, hsend]
  | @busy id t payload timeout hpc =>
    refine h.goto (fun i => (h.lane i).same rfl rfl rfl rfl rfl rfl) herr (fun _ _ h => h) (fun _ _ h => h)
      (by rintro (hc | ⟨w, hc⟩) <;> cases hc) ?_
      (by rw [held_nil (fun _ => hpc.trans_ne (by simp)), goto_held_nil (fun _ hc => by cases hc)]; rfl) ⟨rfl, rfl⟩
    have hone : (e.goto id e.devs.incErr (.sendPut payload timeout)).pending id ≤ 1 := by
      simp only [Emul.pending, goto_pc]
      split_ifs <;> simp
    have hdis : discards [WlEvent.busy id] = 0 ∧ errors [WlEvent.busy id] = 1 := ⟨rfl, rfl⟩
    omega
  | @put id t payload timeout hpc =>
    refine h.goto (fun i => (h.lane i).put payload) herr (fun i hne hi => ?_) (fun i _ hi => ?_) ?_ ?_ ?_ ?_
    · simpa [WlEmulGlobal.put, setOut_out_of_ne _ _ _ hne] using hi
    · simpa [WlEmulGlobal.put] using hi
    · split_ifs <;> rintro (hc | ⟨w, hc⟩) <;> cases hc
    · rw [goto_pending_plain (by split_ifs <;> simp)]
      simp only [Emul.pending, hpc]
      cases hsend : (e.devs.dev id).outputBuff.isSend <;> exact Nat.le_refl _
    · rw [held_nil (fun _ => hpc.trans_ne (by simp)), goto_held_nil (fun d => by split_ifs <;> simp)]
      split_ifs <;> rfl
    · split_ifs <;> exact ⟨rfl, rfl⟩
  | @read id t w hpc =>
    refine h.quiet (fun _ => hpc.trans_ne (by simp)) (by simp) ?_ ?_
    · rintro (hc | ⟨w, hc⟩)
      · cases hc
      · exact (WlPc.dataCheck.inj hc).2
    · exact goto_pending_plain (fun _ _ hc => by cases hc)
  | @empty id t hpc =>
    refine h.goto (fun i => (h.lane i).same rfl rfl rfl rfl rfl rfl) herr
      (fun _ _ h => h) (fun _ _ h => h) (by rintro (hc | ⟨w, hc⟩) <;> cases hc) ?_
      (by rw [held_nil (fun _ => hpc.trans_ne (by simp)), goto_held_nil (fun _ hc => by cases hc)]; rfl) ⟨rfl, rfl⟩
    rw [goto_pending_plain (fun _ _ hc => by cases hc)]
    exact Nat.zero_le _
  | @copy id t hpc =>
    refine h.goto (fun i => (h.lane i).take (h.ready id (Or.inl hpc))) herr
      (fun i _ hi => by simpa [WlEmulGlobal.take] using hi)
      (fun i hne hi => by simpa [WlEmulGlobal.take, setIn_inp_of_ne _ _ _ hne] using hi)
      (by rintro (hc | ⟨w, hc⟩) <;> cases hc) ?_ ?_ ?_
    · rw [goto_pending_plain (fun _ _ hc => by cases hc)]
      exact Nat.zero_le _
    · rw [held_nil (fun _ => hpc.trans_ne (by simp))]
      simp [returns, results, Emul.held]
    · simp [returns, results]

theorem Accounts.start (R : ConnId → Nat → PackData → PackData → Prop) (g : WlEmulGlobal) :
    Accounts R (emulStart g) [] where
  lane _ := ⟨rfl, .nil, nofun, nofun, by simp [returns]⟩
  err := rfl
  ready _ h := by rcases h with h | ⟨w, h⟩ <;> cases h
  budget := Nat.le_refl _
  calls _ := rfl

/-- Only the shadow worker fills an input buffer. -/
theorem WlMove.fills {i : WlInput} (h : WlMove cfg e i e' o) (hfront : e.devs.front id = none) :
    e'.devs.front id = none ∨
      ∃ j t, i = .tick j t ∧ (e.pc j).worked ≠ none ∧ wlShadowWorker cfg t e.devs = some (e'.devs, o) := by
  cases h with
  | @work j t pc g o hpc hw => exact Or.inr ⟨j, t, rfl, by rw [hpc]; simp, hw⟩
  | call | test | busy | read | empty => exact Or.inl hfront
  | check hpc =>
    rw [goto_devs, WlEmulGlobal.front, chanelCheck_dev]
    exact Or.inl hfront
  | put hpc => exact Or.inl (by simpa [WlEmulGlobal.front, WlEmulGlobal.put] using hfront)
  | @copy j t hpc =>
    refine Or.inl ?_
    by_cases hj : id.other = j
    · subst hj
      simp [WlEmulGlobal.front, WlEmulGlobal.take]
    · simpa [WlEmulGlobal.front, WlEmulGlobal.take, setIn_inp_of_ne _ _ _ hj] using hfront

/-- In the run of `is` from `e₀` there is a tick in which packet `n` of `id`, sent as `d`, lands as `d'`. -/
def Landed (cfg : WlConfig) (e₀ : Emul) (is : List WlInput) (id : ConnId) (n : Nat) (d d' : PackData) : Prop :=
  ∃ pre j t post e os e' o, is = pre ++ .tick j t :: post ∧ run (emulStep cfg) e₀ pre = some (e, os) ∧
    emulStep cfg e (.tick j t) = some (e', o) ∧ Lands cfg t e.devs e'.devs id n d d'

theorem Landed.snoc {e₀ : Emul} {is : List WlInput} {n : Nat} {d d' : PackData} (h : Landed cfg e₀ is id n d d')
    (i : WlInput) : Landed cfg e₀ (is ++ [i]) id n d d' := by
  obtain ⟨pre, j, t, post, e, os, e', o, rfl, hlanded⟩ := h
  exact ⟨pre, j, t, post ++ [i], e, os, e', o, by simp, hlanded⟩

/-- A packet passes only where a worker is called, and there it lands. -/
theorem emulStep_landed {e₀ : Emul} {is : List WlInput} {i : WlInput}
    (hr : run (emulStep cfg) e₀ is = some (e, os)) (hs : emulStep cfg e i = some (e', o)) (id : ConnId) :
    Delivers (Landed cfg e₀ (is ++ [i]) id) id e.devs e'.devs := by
  intro n hfront hback hfront'
  rcases (emulStep_move hs).fills hfront with hnone | ⟨j, t, rfl, -, hw⟩
  · rw [hnone] at hfront'
    cases hfront'
  · exact ⟨is, j, t, [], e, os, e', o, rfl, hr, hs, wlShadowWorker_lands hw id n hfront hback hfront'⟩

theorem emulRun_accounts {is : List WlInput} (hr : run (emulStep cfg) (emulStart g) is = some (e, os)) :
    Accounts (Landed cfg (emulStart g) is) e os := by
  refine (run_induct (P := fun is os e => run (emulStep cfg) (emulStart g) is = some (e, os) ∧
    Accounts (Landed cfg (emulStart g) is) e os) ⟨rfl, Accounts.start _ g⟩ ?_ hr).2
  rintro is os e i e' o ⟨hr, h⟩ hs
  refine ⟨run_snoc.mpr ⟨e, os, o, hr, hs, rfl⟩, ?_⟩
  exact (h.mono fun _ _ _ _ hlanded => hlanded.snoc i).step (emulStep_move hs) (emulStep_landed hr hs)

/-- The packet of a send that has not written the output buffer yet. -/
def WlPc.unsent : WlPc → List PackData
  | .sendBegin payload _ => [payload]
  | .sendTest payload _ => [payload]
  | .sendBusy payload _ => [payload]
  | .sendPut payload _ => [payload]
  | _ => []

theorem WlPc.worked_unsent {pc pc' : WlPc} (h : pc.worked = some pc') : pc.unsent = pc'.unsent := by
  cases pc <;> cases h <;> rfl

theorem WlPc.checked_unsent {pc pc' : WlPc} {r : Option WlRet} (h : pc.checked = some (pc', r)) :
    pc.unsent = [] ∧ pc'.unsent = [] := by
  cases pc with
  | dataCheck w ret =>
    simp only [WlPc.checked, wlWaitNext, Option.some.injEq] at h
    split_ifs at h <;> cases h <;> exact ⟨rfl, rfl⟩
  | _ => cases h <;> exact ⟨rfl, rfl⟩

/-- A packet passed to a send is put into the output buffer by it, once. -/
theorem WlMove.passed {i : WlInput} (h : WlMove cfg e i e' o) (id : ConnId) :
    (e.pc id).unsent ++ LoraBridge.passed id [i] = sends id o ++ (e'.pc id).unsent := by
  have hgoto : ∀ {j : ConnId} {g : WlEmulGlobal} {pc : WlPc} {ps ds : List PackData},
      (j = id → (e.pc id).unsent ++ ps = ds ++ pc.unsent) → (j ≠ id → ps = [] ∧ ds = []) →
      (e.pc id).unsent ++ ps = ds ++ ((e.goto j g pc).pc id).unsent := by
    intro j g pc ps ds heq hne
    by_cases hj : j = id
    · subst hj
      rw [goto_pc, heq rfl]
    · obtain ⟨rfl, rfl⟩ := hne hj
      rw [goto_pc_of_ne _ _ _ _ (Ne.symm hj), List.append_nil, List.nil_append]
  cases h with
  | @call j c hpc =>
    refine hgoto (fun hj => ?_) (fun hj => ?_)
    · subst hj
      rw [hpc]
      cases c <;> simp [LoraBridge.passed, sends, WlCall.enter, WlPc.unsent]
    · cases c <;> simp [LoraBridge.passed, sends, hj]
  | @work j t pc g o hpc hw =>
    rw [sends_ofWorker (wlShadowWorker_ofWorker hw)]
    refine hgoto (fun hj => ?_) (fun _ => ⟨rfl, rfl⟩)
    subst hj
    simp [LoraBridge.passed, WlPc.worked_unsent hpc]
  | @check j t pc r hpc =>
    have hnone : sends id ((wlShadowWorkerChanelCheck e.devs).2 ++ (r.map (WlEvent.ret j)).toList) = [] := by
      rw [sends_append, sends_ofWorker (chanelCheck_ofWorker e.devs)]
      cases r <;> rfl
    rw [hnone]
    refine hgoto (fun hj => ?_) (fun _ => ⟨rfl, rfl⟩)
    subst hj
    rw [(WlPc.checked_unsent hpc).1, (WlPc.checked_unsent hpc).2]
    rfl
  | @test j t payload timeout hpc =>
    refine hgoto (fun hj => ?_) (fun _ => ⟨rfl, rfl⟩)
    subst hj
    rw [hpc]
    split_ifs <;> rfl
  | @put j t payload timeout hpc =>
    have hput : sends id ((if (e.devs.dev j).outputBuff.isSend then []
        else [WlEvent.overwritten j (e.devs.dev j).outputBuff.num]) ++ [.put j (e.devs.puts j) payload]) =
        if j = id then [payload] else [] := by
      split_ifs <;> simp_all [sends]
    rw [hput]
    refine hgoto (fun hj => ?_) (fun hj => ⟨rfl, if_neg hj⟩)
    subst hj
    rw [hpc, if_pos rfl]
    split_ifs <;> rfl
  | busy hpc | read hpc | empty hpc | copy hpc =>
    refine hgoto (fun hj => ?_) (fun _ => ⟨rfl, rfl⟩)
    subst hj
    rw [hpc]
    rfl

theorem emulRun_passed {is : List WlInput} (hr : run (emulStep cfg) (emulStart g) is = some (e, os)) (id : ConnId) :
    passed id is = sends id os ++ (e.pc id).unsent :=
  run_induct (P := fun is os e => passed id is = sends id os ++ (e.pc id).unsent) rfl
    (fun _ _ _ _ _ _ h hs => by
      rw [passed_append, h, List.append_assoc, (emulStep_move hs).passed id, sends_append, List.append_assoc]) hr

/-! ## An emulator that neither loses nor damages packets -/

theorem WlMove.lossless {i : WlInput} (h : WlMove cfg e i e' o) (hcfg : cfg.losePackets = false) (id : ConnId)
    (n : Nat) : WlEvent.lost id n ∉ o := by
  have harrive : ∀ {now src g g' o}, WlArrive cfg now src g g' o → WlEvent.lost id n ∉ o := by
    intro now src g g' o ha
    cases ha with
    | lost hsend hair hlose => rw [hcfg] at hlose; cases hlose
    | _ => simp
  have hcheck : ∀ g, WlEvent.lost id n ∉ (wlShadowWorkerChanelCheck g).2 := by
    intro g
    rcases chanelCheck_cases g with ⟨-, -, hc⟩ | ⟨-, hc⟩ <;> rw [hc] <;> simp
  cases h with
  | work hpc hw =>
    obtain ⟨g₀, g₁, o₀, o₁, h₀, h₁, -, rfl⟩ := wlShadowWorker_arrive hw
    simp [harrive h₀, harrive h₁, hcheck g₁]
  | check hpc => simp [hcheck]
  | put hpc => split_ifs <;> simp
  | _ => simp

theorem emulRun_lossless {is : List WlInput} (hr : run (emulStep cfg) (emulStart g) is = some (e, os))
    (hcfg : cfg.losePackets = false) (id : ConnId) (n : Nat) : WlEvent.lost id n ∉ os :=
  run_induct (P := fun _ os _ => WlEvent.lost id n ∉ os) (List.not_mem_nil)
    (fun _ _ _ _ _ _ h hs => by simp [h, (emulStep_move hs).lossless hcfg id n]) hr

/-- With nothing lost, dropped or overwritten, every settled packet has been returned. -/
theorem fates_eq_returns (hlost : ∀ n, WlEvent.lost id n ∉ os) (hdis : discards os = 0) :
    fates id os = (returns id os).map Prod.fst := by
  induction os with
  | nil => rfl
  | cons x os ih =>
    rw [discards, List.countP_eq_zero] at hdis
    have htail := ih (fun n hn => hlost n (List.mem_cons_of_mem _ hn))
      (List.countP_eq_zero.mpr fun y hy => hdis y (List.mem_cons_of_mem _ hy))
    have hhead := hdis x (List.mem_cons_self ..)
    cases x with
    | overwritten i n => exact absurd rfl hhead
    | dropped i n => exact absurd rfl hhead
    | lost i n =>
      have hne : i ≠ id := fun he => hlost n (by rw [he]; exact List.mem_cons_self ..)
      simpa [fates, returns, hne] using htail
    | returned i n d =>
      by_cases hi : i = id
      · simpa [fates, returns, hi] using htail
      · simpa [fates, returns, hi] using htail
    | _ => simpa [fates, returns] using htail

theorem Landed.intact {e₀ : Emul} {is : List WlInput} {n : Nat} {d d' : PackData} (h : Landed cfg e₀ is id n d d')
    (hcfg : cfg.errData = false) : d' = d := by
  obtain ⟨_, _, _, _, _, _, _, _, -, -, -, -, -, rfl, ⟨draws, data, ret, -, hbreak, rfl⟩, -⟩ := h
  simp only [wlPackBreak, hcfg, Bool.false_eq_true, if_false, Option.some.injEq, Prod.mk.injEq] at hbreak
  rw [hbreak.1]

/-- The packet of `id` in the other side's input buffer. -/
def WlEmulGlobal.arrived (g : WlEmulGlobal) (id : ConnId) : Option PackData :=
  (g.front id).map fun _ => packOfData (g.dev id.other).inputBuff.recvData

/-- The packet of `id` in its output buffer. -/
def WlEmulGlobal.flying (g : WlEmulGlobal) (id : ConnId) : Option PackData :=
  (g.back id).map fun _ => packOfData (g.dev id).outputBuff.sendData

theorem map_getElem?_range {α : Type} (l : List α) : (List.range l.length).map (fun n => l[n]?) = l.map some := by
  refine List.ext_getElem? fun k => ?_
  by_cases hk : k < l.length
  · simp [hk]
  · simp [hk]

theorem Lane.all {R : Nat → PackData → PackData → Prop} (h : Lane R id g os) (hR : ∀ n d d', R n d d' → d' = d)
    (hfates : fates id os = (returns id os).map Prod.fst) :
    (returns id os).map Prod.snd ++ (g.arrived id).toList ++ (g.flying id).toList = sends id os := by
  have hl := h.ledger
  rw [hfates, h.puts] at hl
  refine List.map_injective_iff.mpr (Option.some_injective _) ?_
  have hreturned : ((returns id os).map Prod.snd).map some =
      ((returns id os).map Prod.fst).map (fun n => (sends id os)[n]?) := by
    rw [List.map_map, List.map_map]
    refine List.map_congr_left fun x hx => ?_
    obtain ⟨d, hd, hlanded⟩ := h.returned x.1 x.2 hx
    simp [hd, hR _ _ _ hlanded]
  have harrived : (g.arrived id).toList.map some = (g.front id).toList.map (fun n => (sends id os)[n]?) := by
    cases hfront : g.front id with
    | none => simp [WlEmulGlobal.arrived, hfront]
    | some n =>
      obtain ⟨d, hd, hlanded⟩ := h.front n hfront
      simp [WlEmulGlobal.arrived, hfront, hd, hR _ _ _ hlanded]
  have hflying : (g.flying id).toList.map some = (g.back id).toList.map (fun n => (sends id os)[n]?) := by
    cases hback : g.back id with
    | none => simp [WlEmulGlobal.flying, hback]
    | some n => simp [WlEmulGlobal.flying, hback, h.back n hback]
  rw [List.map_append, List.map_append, hreturned, harrived, hflying, ← List.map_append, ← List.map_append, hl.all,
    map_getElem?_range]

/-! ## The account -/

/-- What has become of the packets of `id`. -/
structure Accounted (cfg : WlConfig) (e₀ e : Emul) (is : List WlInput) (os : List WlEvent) (id : ConnId) : Prop where
  /-- each packet passed to a send is put into the output buffer once, unless the send has yet to do so -/
  passed : passed id is = sends id os ++ (e.pc id).unsent
  /-- each one has exactly one fate, or is in exactly one buffer -/
  fate : (fates id os ++ (e.devs.front id).toList ++ (e.devs.back id).toList).Perm
    (List.range (sends id os).length)
  once : ((returns id os).map Prod.fst).Sublist (fates id os)
  order : ((returns id os).map Prod.fst).Pairwise (· < ·)
  /-- the one that a receive is about to return counts as returned -/
  receives : (returns id os).map Prod.snd = results id.other os ++ e.held id.other
  /-- each one returned is the one sent, as the tick in which it landed has left it -/
  content : ∀ n d', (n, d') ∈ returns id os → ∃ d, (sends id os)[n]? = some d ∧ Landed cfg e₀ is id n d d'

/-- **Every packet is accounted for**, in every run of the emulator with less than `2^32` errors. -/
theorem packets_accounted (cfg : WlConfig) (g : WlEmulGlobal) (is : List WlInput) (e : Emul) (os : List WlEvent)
    (hr : run (emulStep cfg) (emulStart g) is = some (e, os)) (herrors : errors os < 2 ^ 32) :
    (∀ id, Accounted cfg (emulStart g) e is os id) ∧ discards os ≤ e.devs.err.toNat ∧
      (cfg.losePackets = false → cfg.errData = false → e.devs.err = 0 → ∀ id,
        (returns id os).map Prod.snd ++ (e.devs.arrived id).toList ++ (e.devs.flying id).toList = sends id os) := by
  have h := emulRun_accounts hr
  have herr : e.devs.err.toNat = errors os := by rw [h.err, BitVec.toNat_ofNat, Nat.mod_eq_of_lt herrors]
  have hbudget := h.budget
  refine ⟨fun id => ?_, by omega, fun hlose hdata hzero id => ?_⟩
  · obtain ⟨hputs, hledger, -, -, hreturned⟩ := h.lane id
    have horder := List.pairwise_append.mp (List.pairwise_append.mp hledger.order).1
    exact ⟨emulRun_passed hr id, hputs ▸ hledger.perm, hledger.sub, horder.1, by simpa using h.calls id.other,
      hreturned⟩
  · rw [hzero] at herr
    exact (h.lane id).all (fun _ _ _ hlanded => hlanded.intact hdata)
      (fates_eq_returns (emulRun_lossless hr hlose id) (by simp at herr; omega))

/-- A tick of a step that reads the clock as `ms` milliseconds, and no random value. -/
def tickAt (id : ConnId) (ms : Int) : WlInput := .tick id ⟨⟨0, ms * 1000⟩, ⟨0, ms * 1000⟩, [], []⟩

/-- An emulator that neither loses nor damages packets. -/
def WlConfig.clean : WlConfig := ⟨false, 10, false, 2, 80⟩

/-- A second packet overwrites the first in the air, and is received. -/
def overwriteInputs : List WlInput :=
  let first : PackData := Vector.replicate 19 1
  let second : PackData := Vector.replicate 19 2
  [.call .id0 (.send first 0), tickAt .id0 0, tickAt .id0 0, tickAt .id0 0, tickAt .id0 0,
    .call .id0 (.send second 0), tickAt .id0 50, tickAt .id0 50, tickAt .id0 50, tickAt .id0 50, tickAt .id0 50,
    .call .id1 (.recv 300), tickAt .id1 150, tickAt .id1 150, tickAt .id1 150, tickAt .id1 150, tickAt .id1 150,
    tickAt .id1 150]

theorem packets_accounted_overwrite : ∃ e os,
    run (emulStep .clean) (emulStart .zeroed) overwriteInputs = some (e, os) ∧
    fates .id0 os = [0, 1] ∧ results .id1 os = [Vector.replicate 19 2] ∧ errors os = 1 ∧
    ∀ id, Accounted .clean (emulStart .zeroed) e overwriteInputs os id := by
  have heval : (run (emulStep .clean) (emulStart .zeroed) overwriteInputs).map (fun r =>
      (fates .id0 r.2, results .id1 r.2, errors r.2)) = some ([0, 1], [Vector.replicate 19 2], 1) := by decide +kernel
  obtain ⟨⟨e, os⟩, hr, hfacts⟩ := Option.map_eq_some_iff.mp heval
  simp only [Prod.mk.injEq] at hfacts
  obtain ⟨hfates, hresults, herrors⟩ := hfacts
  exact ⟨e, os, hr, hfates, hresults, herrors,
    (packets_accounted _ _ _ _ _ hr (by rw [herrors]; decide)).1⟩

end LoraBridge
