import LoraBridge.Calls

/-!
# Waiting for a packet

`wl_availableData` looks at the input buffer again and again, sleeping in between, until its 32-bit count of the time
slept has reached the timeout. `RecvMove` lists what a step of the emulator does to one side's receive. While the count
does not wrap, the call is over after at most as many looks as there are sleeps in the timeout (`Waiting`); from the
first timeout on with which it wraps, a call that nothing arrives for goes on (`bounded_wait`).
-/

set_option autoImplicit false

namespace LoraBridge

open Transducer

variable {cfg : WlConfig} {id : ConnId} {g g' : WlEmulGlobal} {o os : List WlEvent} {e e' : Emul} {i : WlInput}

/-! ## Reading a run -/

/-- What a step looks at for the side: the input buffer, in `wl_is_data`. -/
def pollOf (id : ConnId) (e : Emul) : WlInput → List Bool
  | .tick i _ =>
    if i = id then
      match e.pc id with
      | .dataRead _ => [(e.devs.dev id).inputBuff.isRecieved]
      | _ => []
    else []
  | .call _ _ => []

/-- What the polls of the side find, in a run from `e`. -/
def polls (cfg : WlConfig) (id : ConnId) (e : Emul) (is : List WlInput) : List Bool :=
  looked (emulStep cfg) (pollOf id) e is

def WlInput.isTickOf (id : ConnId) : WlInput → Bool
  | .tick i _ => i = id
  | .call _ _ => false

/-- How many steps the side takes. -/
def ticks (id : ConnId) (is : List WlInput) : Nat := is.countP (WlInput.isTickOf id)

def WlEvent.ofReceiver (id : ConnId) : WlEvent → Bool
  | .returned i _ _ => i = id.other
  | .empty i => i = id
  | .ret i _ => i = id
  | _ => false

/-- The packets copied for the side, its reads of an empty buffer, and what its calls return. -/
def receiverEvents (id : ConnId) (os : List WlEvent) : List WlEvent := os.filter (WlEvent.ofReceiver id)

@[simp] theorem receiverEvents_append (id : ConnId) (os o : List WlEvent) :
    receiverEvents id (os ++ o) = receiverEvents id os ++ receiverEvents id o := List.filter_append ..

@[simp] theorem receiverEvents_nil (id : ConnId) : receiverEvents id [] = [] := rfl

theorem receiverEvents_ofWorker (ho : ∀ x ∈ o, x.ofWorker = true) : receiverEvents id o = [] := by
  rw [receiverEvents, List.filter_eq_nil_iff]
  intro x hx
  have hworker := ho x hx
  cases x with
  | returned | empty | ret => cases hworker
  | _ => simp [WlEvent.ofReceiver]

/-! ## The moves of a receive -/

/-- A full buffer stays as it is. -/
def Arrives (inp inp' : WlEmulBuffI) : Prop := inp.isRecieved = true → inp' = inp

/-- What a step does to the receiving part of a side: its place, its input buffer, its events, and what it polls. -/
inductive RecvMove (id : ConnId) (i : WlInput) :
    WlPc → WlEmulBuffI → WlPc → WlEmulBuffI → List WlEvent → List Bool → Prop
  /-- a step of the other side -/
  | keep {pc : WlPc} {inp inp' : WlEmulBuffI} : (∀ t, i ≠ .tick id t) → Arrives inp inp' →
      RecvMove id i pc inp pc inp' [] []
  | call {c : WlCall} {inp : WlEmulBuffI} : i = .call id c → RecvMove id i .out inp c.enter inp [] []
  | work {t : WlTick} {pc pc' : WlPc} {inp inp' : WlEmulBuffI} : i = .tick id t → pc.worked = some pc' →
      Arrives inp inp' → RecvMove id i pc inp pc' inp' [] []
  | check {t : WlTick} {pc pc' : WlPc} {r : Option WlRet} {inp : WlEmulBuffI} : i = .tick id t →
      pc.checked = some (pc', r) → RecvMove id i pc inp pc' inp (r.map (WlEvent.ret id)).toList []
  | send {t : WlTick} {pc pc' : WlPc} {inp : WlEmulBuffI} : i = .tick id t → pc.sends = true →
      RecvMove id i pc inp pc' inp [] []
  | read {t : WlTick} {w : WlWait} {inp : WlEmulBuffI} : i = .tick id t →
      RecvMove id i (.dataRead w) inp (.dataCheck w inp.isRecieved) inp [] [inp.isRecieved]
  | empty {t : WlTick} {inp : WlEmulBuffI} : i = .tick id t →
      RecvMove id i .recvEmpty inp .out inp [.empty id, .ret id (.recv none)] []
  | copy {t : WlTick} {inp : WlEmulBuffI} : i = .tick id t →
      RecvMove id i .recvCopy inp (.recvCheck (packOfData inp.recvData)) { inp with isRecieved := false }
        [.returned id.other inp.num (packOfData inp.recvData)] []

theorem WlArrive.arrives {now : Timeval} {src : ConnId} (h : WlArrive cfg now src g g' o) (id : ConnId) :
    Arrives (g.dev id).inputBuff (g'.dev id).inputBuff := by
  intro hfull
  cases h with
  | none | flying => rfl
  | lost | dropped => simp
  | delivered hsend hair hbreak hempty =>
    by_cases hid : id = src.other
    · rw [hid, hempty] at hfull
      cases hfull
    · rw [setIn_inp_of_ne _ _ _ hid, setOut_inp]

theorem wlShadowWorker_arrives {t : WlTick} (h : wlShadowWorker cfg t g = some (g', o)) (id : ConnId) :
    Arrives (g.dev id).inputBuff (g'.dev id).inputBuff := by
  obtain ⟨g₀, g₁, o₀, o₁, h₀, h₁, rfl, -⟩ := wlShadowWorker_arrive h
  intro hfull
  have hfirst := h₀.arrives id hfull
  rw [(chanelCheck_keeps g₁).2.2, h₁.arrives id (by rw [hfirst, hfull]), hfirst]

theorem pollOf_other (h : ∀ t, i ≠ .tick id t) : pollOf id e i = [] := by
  cases i with
  | call => rfl
  | tick k t =>
    have hne : k ≠ id := fun heq => h t (by rw [heq])
    rw [pollOf, if_neg hne]

theorem pollOf_tick {t : WlTick} {pc : WlPc} (hpc : e.pc id = pc) (hread : ∀ w, pc ≠ .dataRead w) :
    pollOf id e (.tick id t) = [] := by
  rw [pollOf, if_pos rfl, hpc]
  cases pc with
  | dataRead w => exact absurd rfl (hread w)
  | _ => rfl

/-- **Every step is a move of the receive.** -/
theorem WlMove.recv (h : WlMove cfg e i e' o) (id : ConnId) :
    RecvMove id i (e.pc id) (e.devs.dev id).inputBuff (e'.pc id) (e'.devs.dev id).inputBuff (receiverEvents id o)
      (pollOf id e i) := by
  have hkeep : ∀ {k : ConnId} {g : WlEmulGlobal} {pc : WlPc} {rs : List WlEvent}, id ≠ k → (∀ t, i ≠ .tick id t) →
      Arrives (e.devs.dev id).inputBuff (g.dev id).inputBuff → rs = [] →
      RecvMove id i (e.pc id) (e.devs.dev id).inputBuff ((e.goto k g pc).pc id) (g.dev id).inputBuff rs
        (pollOf id e i) := by
    intro k g pc rs hne hi harr hrs
    rw [goto_pc_of_ne _ _ _ _ hne, hrs, pollOf_other hi]
    exact .keep hi harr
  have hother : ∀ {k : ConnId} {t : WlTick}, id ≠ k → ∀ t', WlInput.tick k t ≠ .tick id t' := by
    intro k t hne t' heq
    cases heq
    exact hne rfl
  cases h with
  | @call k c hpc =>
    by_cases hk : id = k
    · subst hk
      rw [goto_pc, hpc]
      exact .call rfl
    · exact hkeep hk (by simp) (fun _ => rfl) rfl
  | @work k t pc g o hpc hw =>
    rw [receiverEvents_ofWorker (wlShadowWorker_ofWorker hw)]
    by_cases hk : id = k
    · subst hk
      rw [goto_pc, pollOf_tick rfl (fun w hread => by rw [hread] at hpc; cases hpc)]
      exact .work rfl hpc (wlShadowWorker_arrives hw id)
    · exact hkeep hk (hother hk) (wlShadowWorker_arrives hw id) rfl
  | @check k t pc r hpc =>
    have hdev := (chanelCheck_keeps e.devs).2.2
    rw [receiverEvents_append, receiverEvents_ofWorker (chanelCheck_ofWorker e.devs), List.nil_append]
    by_cases hk : id = k
    · subst hk
      have hret : receiverEvents id (r.map (WlEvent.ret id)).toList = (r.map (WlEvent.ret id)).toList := by
        cases r <;> simp [receiverEvents, WlEvent.ofReceiver]
      rw [goto_pc, goto_devs, hdev, hret, pollOf_tick rfl (fun w hread => by rw [hread] at hpc; cases hpc)]
      exact .check rfl hpc
    · refine hkeep hk (hother hk) (fun _ => by rw [hdev]) ?_
      cases r <;> simp [receiverEvents, WlEvent.ofReceiver, Ne.symm hk]
  | @test k t payload timeout hpc | @busy k t payload timeout hpc =>
    by_cases hk : id = k
    · subst hk
      rw [goto_pc, pollOf_tick hpc (by simp), hpc]
      exact .send rfl rfl
    · exact hkeep hk (hother hk) (fun _ => rfl) rfl
  | @put k t payload timeout hpc =>
    have hinp : ((e.devs.put k payload t.now₀).dev id).inputBuff = (e.devs.dev id).inputBuff := by
      simp [WlEmulGlobal.put]
    have hnone : receiverEvents id ((if (e.devs.dev k).outputBuff.isSend then []
        else [WlEvent.overwritten k (e.devs.dev k).outputBuff.num]) ++ [.put k (e.devs.puts k) payload]) = [] := by
      split_ifs <;> rfl
    rw [hnone]
    by_cases hk : id = k
    · subst hk
      rw [goto_pc, goto_devs, pollOf_tick hpc (by simp), hpc, hinp]
      exact .send rfl rfl
    · exact hkeep hk (hother hk) (fun _ => hinp) rfl
  | @read k t w hpc =>
    by_cases hk : id = k
    · subst hk
      rw [goto_pc, pollOf, if_pos rfl, hpc]
      exact .read rfl
    · exact hkeep hk (hother hk) (fun _ => rfl) rfl
  | @empty k t hpc =>
    by_cases hk : id = k
    · subst hk
      rw [goto_pc, goto_devs, pollOf_tick hpc (by simp), hpc]
      simpa [receiverEvents, WlEvent.ofReceiver] using RecvMove.empty rfl
    · exact hkeep hk (hother hk) (fun _ => rfl) (by simp [receiverEvents, WlEvent.ofReceiver, Ne.symm hk])
  | @copy k t hpc =>
    by_cases hk : id = k
    · subst hk
      rw [goto_pc, goto_devs, pollOf_tick hpc (by simp), hpc]
      simpa [receiverEvents, WlEvent.ofReceiver, WlEmulGlobal.take] using RecvMove.copy rfl
    · have hinp : ((e.devs.take k).dev id).inputBuff = (e.devs.dev id).inputBuff :=
        setIn_inp_of_ne _ _ _ hk
      refine hkeep hk (hother hk) (fun _ => hinp) ?_
      have hne : k.other ≠ id.other := fun heq => hk (by rw [← ConnId.other_other id, ← heq, ConnId.other_other])
      simp [receiverEvents, WlEvent.ofReceiver, hne]

/-! ## A wait -/

/-- The polls in a timeout: one for each sleep that it begins. -/
def pollsIn (timeout : BitVec 32) : Nat := (timeout.toNat + 9) / 10

/-- The loop of `wl_availableData` after `k` polls that have found nothing, and sleeps. -/
structure WlWait.After (w : WlWait) (recv : Bool) (timeout : BitVec 32) (k : Nat) : Prop where
  call : w.recv = recv
  limit : w.timeout = timeout
  timeSleep : w.timeSleep.toNat = 10 * k
  more : 10 * k < timeout.toNat

/-- A call has returned: what it has polled, in how many steps, and what it has returned. -/
structure WaitOver (recv : Bool) (timeout : BitVec 32) (id : ConnId) (ps : List Bool) (n : Nat) (rs : List WlEvent) :
    Prop where
  polls : ps.length ≤ pollsIn timeout
  steps : n ≤ 3 * pollsIn timeout + 3
  avail : recv = false → rs = [.ret id (.avail (decide (true ∈ ps)))]
  received : recv = true → true ∈ ps → ∃ num d, rs = [.returned id.other num d, .ret id (.recv (some d))]
  expired : recv = true → true ∉ ps → rs = [.ret id (.recv none)]

/-- Where a wait stands, with what it has polled, its steps and its events. -/
def Waiting (recv : Bool) (timeout : BitVec 32) (id : ConnId) (pc : WlPc) (ps : List Bool) (n : Nat)
    (rs : List WlEvent) : Prop :=
  match pc with
  | .recvBegin t => recv = true ∧ t = timeout ∧ ps = [] ∧ n = 0 ∧ rs = []
  | .dataWorker w => ∃ k, w.After recv timeout k ∧ ps = List.replicate k false ∧ n = recv.toNat + 3 * k ∧ rs = []
  | .dataRead w => ∃ k, w.After recv timeout k ∧ ps = List.replicate k false ∧ n = recv.toNat + 3 * k + 1 ∧ rs = []
  | .dataCheck w ret => ∃ k, w.After recv timeout k ∧ ps = List.replicate k false ++ [ret] ∧
      n = recv.toNat + 3 * k + 2 ∧ rs = []
  | .recvCopy => recv = true ∧ ∃ k, 10 * k < timeout.toNat ∧ ps = List.replicate k false ++ [true] ∧ n = 3 * k + 4 ∧
      rs = []
  | .recvCheck d => recv = true ∧ ∃ k num, 10 * k < timeout.toNat ∧ ps = List.replicate k false ++ [true] ∧
      n = 3 * k + 5 ∧ rs = [.returned id.other num d]
  | .out => WaitOver recv timeout id ps n rs
  | _ => False

variable {recv : Bool} {timeout : BitVec 32} {pc pc' : WlPc} {inp inp' : WlEmulBuffI} {ps qs : List Bool} {n : Nat}
  {rs : List WlEvent}

/-- At every place of a wait there have been at most as many polls as the timeout has, and three steps to a poll. -/
theorem Waiting.bounds (h : Waiting recv timeout id pc ps n rs) :
    ps.length ≤ pollsIn timeout ∧ n ≤ 3 * pollsIn timeout + 3 := by
  have hrecv : recv.toNat ≤ 1 := Bool.toNat_le recv
  unfold pollsIn
  cases pc with
  | recvBegin t =>
    obtain ⟨-, -, rfl, rfl, -⟩ := h
    exact ⟨Nat.zero_le _, Nat.zero_le _⟩
  | dataWorker w =>
    obtain ⟨k, hafter, rfl, rfl, -⟩ := h
    have hmore := hafter.more
    rw [List.length_replicate]
    omega
  | dataRead w =>
    obtain ⟨k, hafter, rfl, rfl, -⟩ := h
    have hmore := hafter.more
    rw [List.length_replicate]
    omega
  | dataCheck w ret =>
    obtain ⟨k, hafter, rfl, rfl, -⟩ := h
    have hmore := hafter.more
    rw [List.length_append, List.length_replicate, List.length_singleton]
    omega
  | recvCopy =>
    obtain ⟨-, k, hmore, rfl, rfl, -⟩ := h
    rw [List.length_append, List.length_replicate, List.length_singleton]
    omega
  | recvCheck d =>
    obtain ⟨-, k, num, hmore, rfl, rfl, -⟩ := h
    rw [List.length_append, List.length_replicate, List.length_singleton]
    omega
  | out => exact ⟨h.polls, h.steps⟩
  | _ => exact h.elim

/-- After a poll, as long as the count does not wrap: the call has its result, goes on to the copy, or sleeps and polls
again. -/
theorem WlWait.After.next {w : WlWait} {k : Nat} (h : w.After recv timeout k) (hlarge : timeout.toNat ≤ 4294967290)
    (found : Bool) (id : ConnId) :
    Waiting recv timeout id (wlWaitNext w found).1 (List.replicate k false ++ [found]) (recv.toNat + 3 * k + 3)
      ((wlWaitNext w found).2.map (WlEvent.ret id)).toList := by
  have hmore := h.more
  have hrecv : recv.toNat ≤ 1 := Bool.toNat_le recv
  have hover : ∀ rs, (recv = false → rs = [.ret id (.avail found)]) →
      (recv = true → found = false ∧ rs = [.ret id (.recv none)]) →
      WaitOver recv timeout id (List.replicate k false ++ [found]) (recv.toNat + 3 * k + 3) rs := by
    intro rs havail hexpired
    refine ⟨?_, ?_, fun hr => ?_, fun hr hmem => ?_, fun hr _ => (hexpired hr).2⟩
    · rw [List.length_append, List.length_replicate, List.length_singleton, pollsIn]
      omega
    · rw [pollsIn]
      omega
    · rw [havail hr]
      cases found <;> simp
    · rw [(hexpired hr).1] at hmem
      simp at hmem
  have hzero : timeout ≠ 0 := by
    rintro rfl
    exact absurd hmore (Nat.not_lt_zero _)
  have hslept : (w.timeSleep + configWlSleepGranularity).toNat = 10 * (k + 1) := by
    rw [BitVec.toNat_add, h.timeSleep, show configWlSleepGranularity.toNat = 10 from rfl]
    omega
  unfold wlWaitNext
  rw [h.call, h.limit]
  cases found with
  | true =>
    cases recv with
    | true => exact ⟨rfl, k, hmore, rfl, by rw [Bool.toNat_true]; omega, rfl⟩
    | false => exact hover _ (fun _ => rfl) nofun
  | false =>
    rw [if_neg Bool.false_ne_true, if_neg hzero]
    dsimp only
    by_cases hagain : timeout > w.timeSleep + configWlSleepGranularity
    · rw [if_pos hagain]
      refine ⟨k + 1, ⟨rfl, rfl, hslept, ?_⟩, by rw [List.replicate_succ'], by omega, rfl⟩
      rw [← hslept]
      exact BitVec.lt_def.mp hagain
    · rw [if_neg hagain]
      cases recv with
      | true => exact hover _ nofun (fun _ => ⟨rfl, rfl⟩)
      | false => exact hover _ (fun _ => rfl) nofun

/-- A step keeps the wait going or ends it. -/
theorem Waiting.move (h : Waiting recv timeout id pc ps n rs) (hpos : 0 < timeout.toNat)
    (hlarge : timeout.toNat ≤ 4294967290) (hm : RecvMove id i pc inp pc' inp' o qs) (hcall : ∀ c, i ≠ .call id c) :
    Waiting recv timeout id pc' (ps ++ qs) (n + ticks id [i]) (rs ++ o) := by
  have htick : ∀ t, ticks id [.tick id t] = 1 := fun t => by simp [ticks, WlInput.isTickOf]
  cases hm with
  | keep hother =>
    have hnone : ticks id [i] = 0 := by
      cases i with
      | call => simp [ticks, WlInput.isTickOf]
      | tick k t =>
        have hne : k ≠ id := fun heq => hother t (by rw [heq])
        simp [ticks, WlInput.isTickOf, hne]
    rw [hnone, List.append_nil, List.append_nil, Nat.add_zero]
    exact h
  | call hi => exact absurd hi (hcall _)
  | @work t _ _ _ _ hi hpc harr =>
    rw [hi, htick, List.append_nil, List.append_nil]
    cases pc with
    | recvBegin t =>
      cases hpc
      obtain ⟨rfl, rfl, rfl, rfl, rfl⟩ := h
      exact ⟨0, ⟨rfl, rfl, rfl, hpos⟩, rfl, rfl, rfl⟩
    | dataWorker w =>
      cases hpc
      obtain ⟨k, hafter, rfl, rfl, rfl⟩ := h
      exact ⟨k, hafter, rfl, rfl, rfl⟩
    | sendBegin | sendFlush => exact h.elim
    | _ => cases hpc
  | @check t _ _ r _ hi hpc =>
    rw [hi, htick, List.append_nil]
    cases pc with
    | dataCheck w ret =>
      obtain ⟨k, hafter, rfl, rfl, rfl⟩ := h
      have hnext := hafter.next hlarge ret id
      rw [show wlWaitNext w ret = _ from Option.some.inj hpc] at hnext
      exact hnext
    | recvCheck d =>
      cases hpc
      obtain ⟨rfl, k, num, hmore, rfl, rfl, rfl⟩ := h
      refine ⟨?_, ?_, nofun, fun _ _ => ⟨num, d, rfl⟩, fun _ hmem => absurd (by simp) hmem⟩
      · rw [List.length_append, List.length_replicate, List.length_singleton, pollsIn]
        omega
      · rw [pollsIn]
        omega
    | sendCheck => exact h.elim
    | _ => cases hpc
  | send hi hsends =>
    cases pc with
    | sendBegin | sendTest | sendBusy | sendPut | sendFlush | sendCheck => exact h.elim
    | _ => cases hsends
  | read hi =>
    rw [hi, htick, List.append_nil]
    obtain ⟨k, hafter, rfl, rfl, rfl⟩ := h
    exact ⟨k, hafter, rfl, rfl, rfl⟩
  | empty => exact h.elim
  | copy hi =>
    rw [hi, htick, List.append_nil]
    obtain ⟨rfl, k, hmore, rfl, rfl, rfl⟩ := h
    exact ⟨rfl, k, _, hmore, rfl, rfl, rfl⟩

/-! ## Runs -/

/-- The call that waits. -/
def waitCall (recv : Bool) (timeout : BitVec 32) : WlCall := if recv then .recv timeout else .avail timeout

theorem ticks_append (id : ConnId) (is js : List WlInput) : ticks id (is ++ js) = ticks id is + ticks id js :=
  List.countP_append

/-- A call of a side is its next step. -/
theorem emulStep_call {c : WlCall} (h : emulStep cfg e (.call id c) = some (e', o)) :
    e'.devs = e.devs ∧ e'.pc id = c.enter ∧ o = [] := by
  simp only [emulStep] at h
  split_ifs at h
  cases h
  exact ⟨rfl, Function.update_self .., rfl⟩

/-- **A run of a wait**, on a timeout with which the count does not wrap. -/
theorem emulRun_waiting {is : List WlInput} (hpos : 0 < timeout.toNat) (hlarge : timeout.toNat ≤ 4294967290)
    (hr : run (emulStep cfg) e is = some (e', os)) (hcall : ∀ i ∈ is, ∀ c, i ≠ .call id c)
    (hpc : e.pc id = (waitCall recv timeout).enter) :
    Waiting recv timeout id (e'.pc id) (polls cfg id e is) (ticks id is) (receiverEvents id os) := by
  have halong : Along (emulStep cfg) (fun _ i => True ∧ ∀ c, i ≠ .call id c) e is :=
    Along.and_mem (fun _ _ _ _ _ _ _ => trivial) hcall
  refine (run_induct_along (P := fun is os s => run (emulStep cfg) e is = some (s, os) ∧
    Waiting recv timeout id (s.pc id) (polls cfg id e is) (ticks id is) (receiverEvents id os)) ⟨rfl, ?_⟩
    (fun is os s₁ i s₂ o h hi hs => ⟨run_snoc.mpr ⟨s₁, os, o, h.1, hs, rfl⟩, ?_⟩) hr halong).2
  · rw [hpc]
    cases recv with
    | true => exact ⟨rfl, rfl, rfl, rfl, rfl⟩
    | false => exact ⟨0, ⟨rfl, rfl, rfl, hpos⟩, rfl, rfl, rfl⟩
  · rw [polls, looked_snoc h.1, ticks_append, receiverEvents_append]
    exact h.2.move hpos hlarge ((emulStep_move hs).recv id) hi.2

/-- A full input buffer stays as it is until the side copies it. -/
theorem RecvMove.kept (h : RecvMove id i pc inp pc' inp' rs qs) (hfull : inp.isRecieved = true)
    (hcopy : ∀ num d, .returned id.other num d ∉ rs) : inp' = inp := by
  cases h with
  | keep _ harr => exact harr hfull
  | work _ _ harr => exact harr hfull
  | copy => exact absurd List.mem_cons_self (hcopy _ _)
  | _ => rfl

theorem emulRun_kept {is : List WlInput} (hr : run (emulStep cfg) e is = some (e', os))
    (hcopy : ∀ num d, .returned id.other num d ∉ receiverEvents id os)
    (hfull : (e.devs.dev id).inputBuff.isRecieved = true) :
    (e'.devs.dev id).inputBuff = (e.devs.dev id).inputBuff := by
  refine run_induct (P := fun _ os s => (∀ num d, .returned id.other num d ∉ receiverEvents id os) →
    (s.devs.dev id).inputBuff = (e.devs.dev id).inputBuff) (fun _ => rfl)
    (fun is os s₁ i s₂ o h hs hcopy => ?_) hr hcopy
  rw [receiverEvents_append] at hcopy
  have hold := h fun num d hm => hcopy num d (List.mem_append_left _ hm)
  have hnew := ((emulStep_move hs).recv id).kept (by rw [hold, hfull])
    (fun num d hm => hcopy num d (List.mem_append_right _ hm))
  rw [hnew, hold]

/-- The errors counted in a run are those of its history. -/
theorem emulRun_err {is : List WlInput} (hr : run (emulStep cfg) e is = some (e', os)) :
    e'.devs.err = e.devs.err + BitVec.ofNat 32 (errors os) :=
  run_induct (P := fun _ os s => s.devs.err = e.devs.err + BitVec.ofNat 32 (errors os)) (by simp [errors])
    (fun is os s₁ i s₂ o h hs => by
      rw [(emulStep_move hs).err, h, errors_append, BitVec.ofNat_add, BitVec.add_assoc]) hr

/-- A side that is in a call can take its next step, whatever the clock reads, once its worker has returned. -/
theorem emulStep_ready (hpc : e.pc id ≠ .out) {t : WlTick} (hworker : (wlShadowWorker cfg t e.devs).isSome) :
    (emulStep cfg e (.tick id t)).isSome := by
  obtain ⟨r, hr⟩ := Option.isSome_iff_exists.mp hworker
  simp only [emulStep, wlStep, hr]
  cases hcase : e.pc id with
  | out => exact absurd hcase hpc
  | _ => rfl

/-! ## What a timeout promises -/

/-- A run `is` that starts with the call of a wait, from `e` to `e'`, does what the timeout promises: the call polls no
more often than the timeout has sleeps and is over after three steps to a poll; it reports what its polls have found;
when it reports nothing the packet in the input buffer stays for the next call; and it counts no error of its own. -/
structure Waited (cfg : WlConfig) (id : ConnId) (recv : Bool) (timeout : BitVec 32) (e : Emul) (is : List WlInput)
    (e' : Emul) (os : List WlEvent) : Prop where
  polls : (polls cfg id e is).length ≤ pollsIn timeout
  steps : ticks id is ≤ 3 * pollsIn timeout + 3
  ready : e'.pc id ≠ .out → ∀ t, (wlShadowWorker cfg t e'.devs).isSome → (emulStep cfg e' (.tick id t)).isSome
  avail : e'.pc id = .out → recv = false →
    receiverEvents id os = [.ret id (.avail (decide (true ∈ LoraBridge.polls cfg id e is)))]
  received : e'.pc id = .out → recv = true → true ∈ LoraBridge.polls cfg id e is →
    ∃ num d, receiverEvents id os = [.returned id.other num d, .ret id (.recv (some d))]
  expired : e'.pc id = .out → recv = true → true ∉ LoraBridge.polls cfg id e is →
    receiverEvents id os = [.ret id (.recv none)]
  kept : e'.pc id = .out → recv = false ∨ true ∉ LoraBridge.polls cfg id e is → ∀ pre post, is = pre ++ post →
    ∀ e₁ o₁, run (emulStep cfg) e pre = some (e₁, o₁) → (e₁.devs.dev id).inputBuff.isRecieved = true →
      (e'.devs.dev id).inputBuff = (e₁.devs.dev id).inputBuff
  err : .empty id ∉ os ∧ e'.devs.err = e.devs.err + BitVec.ofNat 32 (errors os)

/-- Every wait of either kind does so, from any state and with any steps of the other side. -/
def WaitsWell (timeout : BitVec 32) : Prop :=
  ∀ (cfg : WlConfig) (id : ConnId) (recv : Bool) (e e' : Emul) (is : List WlInput) (os : List WlEvent),
    run (emulStep cfg) e (.call id (waitCall recv timeout) :: is) = some (e', os) → (∀ c, .call id c ∉ is) →
      Waited cfg id recv timeout e (.call id (waitCall recv timeout) :: is) e' os

/-- No event of a wait says that the buffer was empty. -/
theorem Waiting.not_empty (h : Waiting recv timeout id pc ps n rs) : .empty id ∉ rs := by
  cases pc with
  | recvBegin => rw [h.2.2.2.2]; exact List.not_mem_nil
  | dataWorker | dataRead | dataCheck =>
    obtain ⟨k, -, -, -, rfl⟩ := h
    exact List.not_mem_nil
  | recvCopy =>
    obtain ⟨-, k, -, -, -, rfl⟩ := h
    exact List.not_mem_nil
  | recvCheck d =>
    obtain ⟨-, k, num, -, -, -, rfl⟩ := h
    simp
  | out =>
    cases recv with
    | false =>
      rw [h.avail rfl]
      simp
    | true =>
      by_cases hmem : true ∈ ps
      · obtain ⟨num, d, hrs⟩ := h.received rfl hmem
        rw [hrs]
        simp
      · rw [h.expired rfl hmem]
        simp
  | _ => exact h.elim

/-- A wait that has reported nothing has copied nothing. -/
theorem WaitOver.no_copy (h : WaitOver recv timeout id ps n rs) (hnone : recv = false ∨ true ∉ ps) (num : Nat)
    (d : PackData) : .returned id.other num d ∉ rs := by
  cases recv with
  | false =>
    rw [h.avail rfl]
    simp
  | true =>
    rw [h.expired rfl (hnone.resolve_left nofun)]
    simp

theorem waitsWell (hpos : 0 < timeout.toNat) (hlarge : timeout.toNat ≤ 4294967290) : WaitsWell timeout := by
  intro cfg id recv e e' is os hr hcall
  have hwait : Waiting recv timeout id (e'.pc id) (polls cfg id e (.call id (waitCall recv timeout) :: is))
      (ticks id (.call id (waitCall recv timeout) :: is)) (receiverEvents id os) := by
    obtain ⟨e₁, o₁, o₂, hs, hrest, rfl⟩ := run_cons.mp hr
    obtain ⟨-, hpc, rfl⟩ := emulStep_call hs
    have hrun := emulRun_waiting hpos hlarge hrest (fun i hi c he => hcall c (he ▸ hi)) hpc
    have hticks : ticks id (.call id (waitCall recv timeout) :: is) = ticks id is := by
      simp [ticks, WlInput.isTickOf]
    rw [polls, looked_cons hs, hticks]
    exact hrun
  have hover : e'.pc id = .out → WaitOver recv timeout id (polls cfg id e (.call id (waitCall recv timeout) :: is))
      (ticks id (.call id (waitCall recv timeout) :: is)) (receiverEvents id os) := by
    intro hout
    rw [hout] at hwait
    exact hwait
  refine ⟨hwait.bounds.1, hwait.bounds.2, fun hout t => emulStep_ready hout, fun hout => (hover hout).avail,
    fun hout => (hover hout).received, fun hout => (hover hout).expired, ?_, ?_, emulRun_err hr⟩
  · intro hout hnone pre post hsplit e₁ o₁ hpre hfull
    rw [hsplit] at hr
    obtain ⟨e₂, o₂, o₃, hpre₂, hpost, rfl⟩ := run_append.mp hr
    cases hpre.symm.trans hpre₂
    refine emulRun_kept hpost (fun num d hm => ?_) hfull
    refine (hover hout).no_copy hnone num d ?_
    rw [receiverEvents_append]
    exact List.mem_append_right _ hm
  · exact fun hm => hwait.not_empty (List.mem_filter.mpr ⟨hm, by simp [WlEvent.ofReceiver]⟩)

/-! ## The count wraps -/

/-- A step of the side when the clock stands still. -/
def idleTick (id : ConnId) : WlInput := .tick id ⟨⟨0, 0⟩, ⟨0, 0⟩, [], []⟩

/-- `k` polls with nothing else going on. -/
def idlePolls (id : ConnId) (k : Nat) : List WlInput :=
  (List.replicate k [idleTick id, idleTick id, idleTick id]).flatten

/-- Nothing is in the air, and nothing has arrived for the side. -/
structure Quiet (g : WlEmulGlobal) (id : ConnId) : Prop where
  sent : ∀ j, (g.dev j).outputBuff.isSend = true
  empty : (g.dev id).inputBuff.isRecieved = false

theorem Quiet.worker (h : Quiet g id) (t : WlTick) : wlShadowWorker cfg t g = some (g, []) := by
  simp [wlShadowWorker, wlShadowWorkerTarg, wlShadowWorkerChanelCheck, h.sent]

/-- One poll finds nothing, and the side sleeps. -/
theorem idlePoll (cfg : WlConfig) (hquiet : Quiet e.devs id) {timeSleep : BitVec 32}
    (hpc : e.pc id = .dataWorker ⟨false, timeout, timeSleep⟩) (hmore : timeout > timeSleep + configWlSleepGranularity) :
    ∃ e', run (emulStep cfg) e [idleTick id, idleTick id, idleTick id] = some (e', []) ∧ e'.devs = e.devs ∧
      e'.pc id = .dataWorker ⟨false, timeout, timeSleep + configWlSleepGranularity⟩ ∧
      polls cfg id e [idleTick id, idleTick id, idleTick id] = [false] := by
  let w : WlWait := ⟨false, timeout, timeSleep⟩
  let e₁ := e.goto id e.devs (.dataRead w)
  let e₂ := e₁.goto id e.devs (.dataCheck w false)
  let e₃ := e₂.goto id e.devs (.dataWorker ⟨false, timeout, timeSleep + configWlSleepGranularity⟩)
  have hpc₁ : e₁.pc id = .dataRead w := goto_pc ..
  have hpc₂ : e₂.pc id = .dataCheck w false := goto_pc ..
  have h₁ : emulStep cfg e (idleTick id) = some (e₁, []) := by
    simp [emulStep, idleTick, wlStep, hpc, hquiet.worker, e₁, w]
  have h₂ : emulStep cfg e₁ (idleTick id) = some (e₂, []) := by
    simp only [emulStep, idleTick, wlStep, hpc₁]
    simp [e₁, e₂, hquiet.empty]
  have h₃ : emulStep cfg e₂ (idleTick id) = some (e₃, []) := by
    have hzero : timeout ≠ 0 := by
      rintro rfl
      exact absurd (BitVec.lt_def.mp hmore) (Nat.not_lt_zero _)
    have hcheck : wlShadowWorkerChanelCheck e₂.devs = (e.devs, []) := by
      simp [wlShadowWorkerChanelCheck, e₂, hquiet.sent]
    simp only [emulStep, idleTick, wlStep, hpc₂, hcheck, wlWaitNext, w, Bool.false_eq_true, if_false, if_neg hzero,
      if_pos hmore]
    rfl
  refine ⟨e₃, run_cons.mpr ⟨e₁, [], [], h₁, run_cons.mpr ⟨e₂, [], [], h₂, run_single.mpr h₃, rfl⟩, rfl⟩, rfl,
    goto_pc .., ?_⟩
  rw [polls, looked_cons h₁, looked_cons h₂, looked_cons h₃]
  simp [pollOf, idleTick, looked, hpc, hpc₂, e₁, hquiet.empty]

/-- While the count, as it wraps, stays below the timeout the side polls on. -/
theorem idleRun (cfg : WlConfig) (hquiet : Quiet e.devs id) {timeSleep : BitVec 32}
    (hpc : e.pc id = .dataWorker ⟨false, timeout, timeSleep⟩) (k : Nat)
    (hmore : ∀ j < k, (timeSleep.toNat + 10 * (j + 1)) % 2 ^ 32 < timeout.toNat) :
    ∃ e' w, run (emulStep cfg) e (idlePolls id k) = some (e', []) ∧ e'.pc id = .dataWorker w ∧
      polls cfg id e (idlePolls id k) = List.replicate k false := by
  induction k generalizing e timeSleep with
  | zero => exact ⟨e, _, rfl, hpc, rfl⟩
  | succ k ih =>
    have hslept : (timeSleep + configWlSleepGranularity).toNat = (timeSleep.toNat + 10) % 2 ^ 32 := by
      rw [BitVec.toNat_add, show configWlSleepGranularity.toNat = 10 from rfl]
    have hfirst : timeout > timeSleep + configWlSleepGranularity := by
      have hlt := hmore 0 (Nat.succ_pos k)
      rw [gt_iff_lt, BitVec.lt_def, hslept]
      omega
    obtain ⟨e₁, hr₁, hdevs, hpc₁, hpolls₁⟩ := idlePoll cfg hquiet hpc hfirst
    obtain ⟨e', w, hr, hpc', hpolls⟩ := ih (by rw [hdevs]; exact hquiet) hpc₁ (fun j hj => by
      have hlt := hmore (j + 1) (by omega)
      rw [hslept]
      omega)
    have hsplit : idlePolls id (k + 1) = [idleTick id, idleTick id, idleTick id] ++ idlePolls id k := by
      rw [idlePolls, List.replicate_succ, List.flatten_cons]
      rfl
    refine ⟨e', w, ?_, hpc', ?_⟩
    · rw [hsplit]
      exact run_append.mpr ⟨e₁, [], [], hr₁, hr, rfl⟩
    · rw [hsplit, polls, looked_append hr₁, List.replicate_succ]
      rw [polls] at hpolls hpolls₁
      rw [hpolls, hpolls₁]
      rfl

theorem mem_idlePolls {k : Nat} (h : i ∈ idlePolls id k) : i = idleTick id := by
  simp only [idlePolls, List.mem_flatten, List.mem_replicate] at h
  obtain ⟨js, ⟨-, rfl⟩, hi⟩ := h
  simpa using hi

/-- A call that nothing arrives for, in an emulator just started. -/
theorem idleWait (cfg : WlConfig) (id : ConnId) (timeout : BitVec 32) (k : Nat)
    (hmore : ∀ j < k, 10 * (j + 1) % 2 ^ 32 < timeout.toNat) :
    ∃ e' w, run (emulStep cfg) (emulStart .zeroed) (.call id (.avail timeout) :: idlePolls id k) = some (e', []) ∧
      e'.pc id = .dataWorker w ∧
      polls cfg id (emulStart .zeroed) (.call id (.avail timeout) :: idlePolls id k) = List.replicate k false := by
  let e := (emulStart .zeroed).goto id (wlEmulEnvInit .zeroed) (.dataWorker ⟨false, timeout, 0⟩)
  have hcall : emulStep cfg (emulStart .zeroed) (.call id (.avail timeout)) = some (e, []) := rfl
  obtain ⟨e', w, hr, hpc, hpolls⟩ := idleRun cfg (e := e) ⟨fun _ => rfl, rfl⟩ (goto_pc ..) k (fun j hj => by
    rw [show (0 : BitVec 32).toNat = 0 from rfl, Nat.zero_add]
    exact hmore j hj)
  refine ⟨e', w, run_cons.mpr ⟨e, [], [], hcall, hr, rfl⟩, hpc, ?_⟩
  rw [polls, looked_cons hcall]
  exact hpolls

/-- From the first timeout on with which the count wraps, a call may poll once more than the timeout allows. -/
theorem not_waitsWell (hlarge : 4294967290 < timeout.toNat) : ¬ WaitsWell timeout := by
  intro hwell
  have htimeout := timeout.isLt
  obtain ⟨e', w, hr, -, hpolls⟩ := idleWait ⟨false, 0, false, 0, 0⟩ .id0 timeout 429496731 (fun j hj => by
    -- the last two polls are the ones past the wrap
    have hj : j < 429496729 ∨ j = 429496729 ∨ j = 429496730 := by omega
    rcases hj with hj | rfl | rfl
    · rw [Nat.mod_eq_of_lt (by omega)]
      omega
    · omega
    · omega)
  have hcall : ∀ c, .call .id0 c ∉ idlePolls .id0 429496731 := fun c hm => by cases mem_idlePolls hm
  have hbound : (polls _ .id0 _ (.call .id0 (.avail timeout) :: _)).length ≤ pollsIn timeout :=
    (hwell _ .id0 false _ _ _ _ hr hcall).polls
  rw [hpolls, List.length_replicate, pollsIn] at hbound
  omega

/-- **Bounded waiting.** A timeout that is not zero keeps its promise just when the count of the time slept cannot wrap
before it is reached. -/
theorem bounded_wait (hzero : timeout ≠ 0) : WaitsWell timeout ↔ timeout.toNat ≤ 4294967290 := by
  have hpos : 0 < timeout.toNat := by
    rw [Nat.pos_iff_ne_zero]
    exact fun h => hzero (BitVec.eq_of_toNat_eq h)
  refine ⟨fun hwell => ?_, waitsWell hpos⟩
  by_contra hlarge
  exact not_waitsWell (by omega) hwell

/-- The timeouts with which the master and the slave receive. -/
theorem bounded_wait_stack : WaitsWell 300#32 ∧ WaitsWell 100000#32 :=
  ⟨(bounded_wait (by decide)).mpr (by decide), (bounded_wait (by decide)).mpr (by decide)⟩

/-- With the longest timeout the call never returns while nothing arrives: the count is even. -/
theorem wait_forever : ¬ WaitsWell 4294967295#32 ∧ ∀ k, ∃ e' w,
    run (emulStep .clean) (emulStart .zeroed) (.call .id0 (.avail 4294967295#32) :: idlePolls .id0 k) = some (e', []) ∧
      e'.pc .id0 = .dataWorker w ∧
      polls .clean .id0 (emulStart .zeroed) (.call .id0 (.avail 4294967295#32) :: idlePolls .id0 k) =
        List.replicate k false := by
  refine ⟨not_waitsWell (by decide), fun k => idleWait .clean .id0 4294967295#32 k fun j hj => ?_⟩
  rw [show (4294967295#32).toNat = 4294967295 from rfl]
  omega

end LoraBridge
