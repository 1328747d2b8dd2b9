import LoraBridge.Reproducible

/-!
# Blocking sends

What a step does to one side (`SideMove`): to where it stands, to its output buffer, and to the history of its sends. A
send with a timeout sleeps for the time on air; when it returns, its packet has left the air, whoever's worker has seen
to that. So a side that only sends with a timeout never sends while its previous packet is not sent.
-/

set_option autoImplicit false

namespace LoraBridge.Seeded

open Transducer

variable {env : WlEnv} {id : ConnId} {i : SeedInput} {s s' : SeedEmul} {os o : List SeedEvent}

/-- What a step does to a side, to its output buffer and to the history of its sends. -/
inductive SideMove (env : WlEnv) (id : ConnId) (i : SeedInput) :
    WlPc → WlEmulBuffO → WlPc → WlEmulBuffO → List SeedEvent → Prop
  | keep {pc : WlPc} {out : WlEmulBuffO} : SideMove env id i pc out pc out []
  /-- a worker of the other side takes the packet from the air -/
  | land {pc : WlPc} {out : WlEmulBuffO} {data : WlData} {v : Verdict} : out.isSend = false →
      SideMove env id i pc out pc { out with sendData := data, isSend := true } [.flight id out.num v]
  | call {out : WlEmulBuffO} {c : WlCall} : i = .call id c → SideMove env id i .out out c.enter out []
  | work {pc pc' : WlPc} {out : WlEmulBuffO} {t : SeedTick} : i = .tick id t → pc.worked = some pc' →
      (out.isSend = true ∨ env.airDone out.sendTime (t.now id) = false) → SideMove env id i pc out pc' out []
  | workLand {pc pc' : WlPc} {out : WlEmulBuffO} {data : WlData} {v : Verdict} : pc.worked = some pc' →
      out.isSend = false →
      SideMove env id i pc out pc' { out with sendData := data, isSend := true } [.flight id out.num v]
  | test {out : WlEmulBuffO} {payload : PackData} {timeout : BitVec 32} :
      SideMove env id i (.sendTest payload timeout) out
        (if out.isSend then .sendPut payload timeout else .sendBusy payload timeout) out []
  | busy {out : WlEmulBuffO} {payload : PackData} {timeout : BitVec 32} :
      SideMove env id i (.sendBusy payload timeout) out (.sendPut payload timeout) out [.emul (.busy id)]
  | put {out : WlEmulBuffO} {payload : PackData} {timeout : BitVec 32} {t : SeedTick} {data : WlData} {num : Nat} :
      i = .tick id t →
      SideMove env id i (.sendPut payload timeout) out (if timeout ≠ 0 then .sendFlush else .sendCheck)
        { sendTime := t.now₀, sendData := data, isSend := false, num := num }
        ((if out.isSend then [] else [.emul (.overwritten id out.num)]) ++ [.emul (.put id num payload)])
  | check {pc pc' : WlPc} {out : WlEmulBuffO} {r : Option WlRet} : pc.checked = some (pc', r) →
      SideMove env id i pc out pc' out []
  | read {w : WlWait} {ret : Bool} {out : WlEmulBuffO} : SideMove env id i (.dataRead w) out (.dataCheck w ret) out []
  | empty {out : WlEmulBuffO} : SideMove env id i .recvEmpty out .out out []
  | copy {data : PackData} {out : WlEmulBuffO} : SideMove env id i .recvCopy out (.recvCheck data) out []

/-! ## Every step is a move of the side -/

/-- What `wl_shadow_worker_targ` does to the packet of its side: nothing, or it takes it from the air. -/
theorem drawFor_side {now : Timeval} {fuel : Nat} {src : ConnId} {g : WlSeeded} {r : Option (Verdict × Seed)}
    (h : drawFor env now fuel (g.dev src).outputBuff (g.seedp src) = some r) :
    (((settle src g r).dev src).outputBuff = (g.dev src).outputBuff ∧ senderEvents src (settleEvents src g r) = [] ∧
        ((g.dev src).outputBuff.isSend = true ∨ env.airDone (g.dev src).outputBuff.sendTime now = false)) ∨
      (g.dev src).outputBuff.isSend = false ∧ ∃ data v,
        ((settle src g r).dev src).outputBuff = { (g.dev src).outputBuff with sendData := data, isSend := true } ∧
          senderEvents src (settleEvents src g r) = [.flight src (g.dev src).outputBuff.num v] := by
  unfold drawFor at h
  split_ifs at h with hdone
  · obtain ⟨r, -, rfl⟩ := Option.map_eq_some_iff.mp h
    rw [Bool.and_eq_true, Bool.not_eq_true'] at hdone
    exact Or.inr ⟨hdone.1, _, r.1, land_out src r.1 g.toWlEmulGlobal, senderEvents_settle src g r⟩
  · cases h
    refine Or.inl ⟨rfl, rfl, ?_⟩
    cases hsend : (g.dev src).outputBuff.isSend with
    | true => exact Or.inl rfl
    | false => simpa [hsend] using hdone

/-- What the worker does to the packet of a side. -/
theorem wlShadowWorker_packet {t : SeedTick} {g g' : WlSeeded} (h : wlShadowWorker env t g = some (g', o))
    (id : ConnId) :
    ((g'.dev id).outputBuff = (g.dev id).outputBuff ∧ senderEvents id o = [] ∧
        ((g.dev id).outputBuff.isSend = true ∨ env.airDone (g.dev id).outputBuff.sendTime (t.now id) = false)) ∨
      (g.dev id).outputBuff.isSend = false ∧ ∃ data v,
        (g'.dev id).outputBuff = { (g.dev id).outputBuff with sendData := data, isSend := true } ∧
          senderEvents id o = [.flight id (g.dev id).outputBuff.num v] := by
  obtain ⟨r, hdraw, hout, -, hevents, -⟩ := wlShadowWorker_side h id
  rw [hout, hevents]
  exact drawFor_side hdraw

/-- A step of the emulator without its seeds that calls no worker. -/
theorem WlMove.side {cfg : WlConfig} {e e' : Emul} {j : WlInput} {oe : List WlEvent} (h : WlMove cfg e j e' oe)
    (hcall : ∀ id c, j = .call id c → i = .call id c)
    (htick : ∀ id t, j = .tick id t →
      (e.pc id).worked = none ∧ ∃ tick : SeedTick, i = .tick id tick ∧ t.now₀ = tick.now₀)
    (id : ConnId) :
    SideMove env id i (e.pc id) (e.devs.dev id).outputBuff (e'.pc id) (e'.devs.dev id).outputBuff
      (senderEvents id (oe.map .emul)) := by
  have hkeep : ∀ {k : ConnId} {g : WlEmulGlobal} {pc : WlPc} {sent : List SeedEvent}, id ≠ k →
      (g.dev id).outputBuff = (e.devs.dev id).outputBuff → sent = [] →
      SideMove env id i (e.pc id) (e.devs.dev id).outputBuff ((e.goto k g pc).pc id) (g.dev id).outputBuff sent := by
    intro k g pc sent hne hout hsent
    rw [goto_pc_of_ne _ _ _ _ hne, hout, hsent]
    exact .keep
  cases h with
  | @call k c hpc =>
    by_cases hk : id = k
    · subst hk
      rw [goto_pc, hpc]
      exact .call (hcall id c rfl)
    · exact hkeep hk rfl rfl
  | @work k t pc g o hpc hw =>
    obtain ⟨hnone, -⟩ := htick k t rfl
    rw [hpc] at hnone
    cases hnone
  | @check k t pc r hpc =>
    have hdev := chanelCheck_dev e.devs
    have hnone : senderEvents id
        (((wlShadowWorkerChanelCheck e.devs).2 ++ (r.map (WlEvent.ret k)).toList).map .emul) = [] := by
      rw [List.map_append, senderEvents_append, senderEvents_check]
      cases r <;> rfl
    by_cases hk : id = k
    · subst hk
      rw [goto_pc, goto_devs, hdev, hnone]
      exact .check hpc
    · exact hkeep hk (by rw [hdev]) hnone
  | @test k t payload timeout hpc =>
    by_cases hk : id = k
    · subst hk
      rw [goto_pc, goto_devs, hpc]
      exact .test
    · exact hkeep hk rfl rfl
  | @busy k t payload timeout hpc =>
    by_cases hk : id = k
    · subst hk
      rw [goto_pc, goto_devs, hpc]
      simpa [senderEvents, SeedEvent.ofSender] using SideMove.busy
    · exact hkeep hk rfl (by simp [senderEvents, SeedEvent.ofSender, Ne.symm hk])
  | @put k t payload timeout hpc =>
    obtain ⟨-, tick, hi, hnow⟩ := htick k t rfl
    by_cases hk : id = k
    · subst hk
      have hev : senderEvents id (((if (e.devs.dev id).outputBuff.isSend then []
          else [WlEvent.overwritten id (e.devs.dev id).outputBuff.num]) ++
            [WlEvent.put id (e.devs.puts id) payload]).map .emul) =
          (if (e.devs.dev id).outputBuff.isSend then []
            else [SeedEvent.emul (.overwritten id (e.devs.dev id).outputBuff.num)]) ++
            [.emul (.put id (e.devs.puts id) payload)] := by
        split_ifs <;> simp [senderEvents, SeedEvent.ofSender]
      have hout : ((e.devs.put id payload t.now₀).dev id).outputBuff =
          { sendTime := tick.now₀, isSend := false, num := e.devs.puts id
            sendData := wlPackCopy configWlPackConstLen (e.devs.dev id).outputBuff.sendData
              (payloadData payload) } := by
        simp [WlEmulGlobal.put, hnow]
      rw [goto_pc, goto_devs, hpc, hev, hout]
      exact .put hi
    · refine hkeep hk ?_ ?_
      · simp [WlEmulGlobal.put, setOut_out_of_ne _ _ _ hk]
      · split_ifs <;> simp [senderEvents, SeedEvent.ofSender, Ne.symm hk]
  | @read k t w hpc =>
    by_cases hk : id = k
    · subst hk
      rw [goto_pc, goto_devs, hpc]
      exact .read
    · exact hkeep hk rfl rfl
  | @empty k t hpc =>
    by_cases hk : id = k
    · subst hk
      rw [goto_pc, goto_devs, hpc]
      exact .empty
    · exact hkeep hk rfl rfl
  | @copy k t hpc =>
    by_cases hk : id = k
    · subst hk
      rw [goto_pc, goto_devs, hpc, WlEmulGlobal.take, setIn_out]
      exact .copy
    · exact hkeep hk (by simp [WlEmulGlobal.take]) rfl

theorem seedStep_side (h : seedStep env s i = some (s', o)) (id : ConnId) :
    SideMove env id i (s.pc id) (s.devs.dev id).outputBuff (s'.pc id) (s'.devs.dev id).outputBuff
      (senderEvents id o) := by
  cases seedStep_move h with
  | @call j c e oe hs =>
    refine WlMove.side (emulStep_move hs) (fun id c hi => ?_) nofun id
    cases hi
    rfl
  | @work j t pc g og hpc hw =>
    have hside := wlShadowWorker_packet hw id
    by_cases hj : id = j
    · subst hj
      have hself : Function.update s.pc id pc id = pc := Function.update_self ..
      simp only [hself]
      rcases hside with ⟨hout, hnone, hwhy⟩ | ⟨hsend, data, v, hout, hev⟩
      · rw [hout, hnone]
        exact .work rfl hpc hwhy
      · rw [hout, hev]
        exact .workLand hpc hsend
    · have hother : Function.update s.pc j pc id = s.pc id := Function.update_of_ne hj ..
      simp only [hother]
      rcases hside with ⟨hout, hnone, -⟩ | ⟨hsend, data, v, hout, hev⟩
      · rw [hout, hnone]
        exact .keep
      · rw [hout, hev]
        exact .land hsend
  | @plain j t e oe hpc hs =>
    refine WlMove.side (emulStep_move hs) nofun (fun id t' hi => ?_) id
    cases hi
    exact ⟨hpc, t, rfl, rfl⟩
  | errCount => exact .keep

/-! ## Time -/

/-- The clock does not go back while a step reads it. -/
def Steady : SeedInput → Prop
  | .tick _ t => t.now₀.Normal ∧ t.now₁.Normal ∧ timercmpLe t.now₀ t.now₁ = true
  | _ => True

/-- `nanosleep` has slept: between `send_time`, read before it, and the end of the sleep lies the time requested. -/
def Slept (env : WlEnv) (id : ConnId) (pc : WlPc) (out : WlEmulBuffO) : SeedInput → Prop
  | .tick i t => i = id → pc = .sendFlush →
      out.sendTime.nanos + ((env.timeOnAirS * 1000000000 + env.timeOnAirNs : Nat) : Int) ≤ t.now₀.nanos
  | _ => True

instance (i : SeedInput) : Decidable (Steady i) :=
  match i with
  | .tick _ _ => inferInstanceAs (Decidable (_ ∧ _))
  | .call _ _ => .isTrue trivial
  | .errCount => .isTrue trivial

instance (env : WlEnv) (id : ConnId) (pc : WlPc) (out : WlEmulBuffO) (i : SeedInput) :
    Decidable (Slept env id pc out i) :=
  match i with
  | .tick _ _ => inferInstanceAs (Decidable (_ → _ → _))
  | .call _ _ => .isTrue trivial
  | .errCount => .isTrue trivial

/-- The two time bases agree: who has slept for `tv_sec` and `tv_nsec` finds the packet arrived by `tv_sec` and
`tv_usec`. -/
theorem airDone_slept {out : WlEmulBuffO} {t : SeedTick} (hsent : out.sendTime.Normal) (hclock : Steady (.tick id t))
    (hslept : Slept env id .sendFlush out (.tick id t)) : env.airDone out.sendTime (t.now id) = true := by
  obtain ⟨h₀, h₁, hle⟩ := hclock
  have hnow₀ : out.sendTime.micros + 1000 * env.timeOnAirMs ≤ t.now₀.micros := by
    have hslept := hslept rfl rfl
    simp only [Timeval.nanos_eq, WlEnv.timeOnAirS, WlEnv.timeOnAirNs] at hslept
    omega
  have hnow₁ := (timercmpLe_micros h₀ h₁).mp hle
  cases id with
  | id0 => exact (airDone_iff hsent h₀).mpr hnow₀
  | id1 => exact (airDone_iff hsent h₁).mpr (hnow₀.trans hnow₁)

/-! ## One blocking send -/

/-- The packet of the send is in the air, and nothing has been decided about it. -/
def Undecided (id : ConnId) (payload : PackData) (out : WlEmulBuffO) (sent : List SeedEvent) : Prop :=
  out.isSend = false ∧ out.sendTime.Normal ∧ ∃ pre, sent = pre ++ [.emul (.put id out.num payload)]

/-- It has left the air, and one decision has been taken. -/
def Decided (id : ConnId) (payload : PackData) (out : WlEmulBuffO) (sent : List SeedEvent) : Prop :=
  out.isSend = true ∧ ∃ pre num v, sent = pre ++ [.emul (.put id num payload), .flight id num v]

/-- What holds at each place of `wl_sendPacketTimeout`, and after it. -/
def Sending (id : ConnId) (payload : PackData) : WlPc → WlEmulBuffO → List SeedEvent → Prop
  | .sendBegin payload' timeout, _, _ => payload' = payload ∧ timeout ≠ 0
  | .sendTest payload' timeout, _, _ => payload' = payload ∧ timeout ≠ 0
  | .sendBusy payload' timeout, _, _ => payload' = payload ∧ timeout ≠ 0
  | .sendPut payload' timeout, _, _ => payload' = payload ∧ timeout ≠ 0
  | .sendFlush, out, sent => Undecided id payload out sent ∨ Decided id payload out sent
  | .sendCheck, out, sent => Decided id payload out sent
  | .out, out, sent => Decided id payload out sent
  | _, _, _ => False

variable {payload : PackData} {pc pc' : WlPc} {out out' : WlEmulBuffO} {sent : List SeedEvent}

theorem Undecided.land (h : Undecided id payload out sent) (data : WlData) (v : Verdict) :
    Decided id payload { out with sendData := data, isSend := true } (sent ++ [.flight id out.num v]) := by
  obtain ⟨-, -, pre, rfl⟩ := h
  exact ⟨rfl, pre, out.num, v, by simp⟩

theorem Decided.not_air {p : Prop} (h : Decided id payload out sent) (hsend : out.isSend = false) : p := by
  rw [h.1] at hsend
  cases hsend

theorem Sending.move (h : Sending id payload pc out sent) (hmove : SideMove env id i pc out pc' out' o)
    (hclock : Steady i) (hslept : Slept env id pc out i) (hcall : ∀ c, i ≠ .call id c) :
    Sending id payload pc' out' (sent ++ o) := by
  cases hmove with
  | keep => simpa using h
  | @land _ _ data v hsend =>
    cases pc with
    | sendFlush => exact h.elim (fun hu => Or.inr (hu.land data v)) (fun hd => hd.not_air hsend)
    | sendCheck => exact Decided.not_air h hsend
    | out => exact Decided.not_air h hsend
    | _ => exact h
  | call hi => exact absurd hi (hcall _)
  | @work _ _ _ t hi hpc hwhy =>
    rw [List.append_nil]
    cases pc with
    | sendBegin payload' timeout => cases hpc; exact h
    | sendFlush =>
      cases hpc
      rcases h with hu | hd
      · subst hi
        rw [hu.1, airDone_slept hu.2.1 hclock hslept] at hwhy
        rcases hwhy with hc | hc <;> cases hc
      · exact hd
    | recvBegin timeout => exact h.elim
    | dataWorker w => exact h.elim
    | _ => cases hpc
  | @workLand _ _ _ data v hpc hsend =>
    cases pc with
    | sendBegin payload' timeout => cases hpc; exact h
    | sendFlush =>
      cases hpc
      exact h.elim (fun hu => hu.land data v) (fun hd => hd.not_air hsend)
    | recvBegin timeout => exact h.elim
    | dataWorker w => exact h.elim
    | _ => cases hpc
  | test => split_ifs <;> exact h
  | busy => exact h
  | @put _ payload' timeout t data num hi =>
    subst hi
    obtain ⟨rfl, htimeout⟩ := h
    rw [if_pos htimeout]
    exact Or.inl ⟨rfl, hclock.1, _, (List.append_assoc ..).symm⟩
  | check hpc =>
    rw [List.append_nil]
    cases pc with
    | sendCheck => cases hpc; exact h
    | dataCheck w ret => exact h.elim
    | recvCheck data => exact h.elim
    | _ => cases hpc
  | read => exact h.elim
  | empty => exact h.elim
  | copy => exact h.elim

/-! ## Blocking sends only -/

/-- The radio is free whenever a send begins. -/
def Free : WlPc → WlEmulBuffO → Prop
  | .sendBegin _ timeout, out => timeout ≠ 0 ∧ out.isSend = true
  | .sendTest _ timeout, out => timeout ≠ 0 ∧ out.isSend = true
  | .sendBusy _ _, _ => False
  | .sendPut _ timeout, out => timeout ≠ 0 ∧ out.isSend = true
  | .sendFlush, out => out.isSend = true ∨ out.sendTime.Normal
  | _, out => out.isSend = true

/-- No send has found its previous packet unsent, or overwritten it. -/
def Clear (id : ConnId) (sent : List SeedEvent) : Prop :=
  .emul (.busy id) ∉ sent ∧ ∀ num, .emul (.overwritten id num) ∉ sent

theorem Clear.nil : Clear id [] := ⟨List.not_mem_nil, fun _ => List.not_mem_nil⟩

theorem Clear.flight (num : Nat) (v : Verdict) : Clear id [.flight id num v] := by
  constructor <;> simp

theorem WlPc.checked_free {pc pc' : WlPc} {r : Option WlRet} (h : pc.checked = some (pc', r)) (hfree : Free pc out) :
    Free pc' out := by
  cases pc with
  | sendCheck => cases h; exact hfree
  | recvCheck data => cases h; exact hfree
  | dataCheck w ret =>
    simp only [WlPc.checked, wlWaitNext, Option.some.injEq] at h
    split_ifs at h <;> cases h <;> exact hfree
  | _ => cases h

theorem Free.move (h : Free pc out) (hmove : SideMove env id i pc out pc' out' o) (hclock : Steady i)
    (hslept : Slept env id pc out i)
    (hcall : ∀ payload timeout, i = .call id (.send payload timeout) → timeout ≠ 0) : Free pc' out' ∧ Clear id o := by
  have hair : ∀ {p : Prop}, out.isSend = true → out.isSend = false → p := fun hs hf => by
    rw [hs] at hf
    cases hf
  cases hmove with
  | keep => exact ⟨h, .nil⟩
  | land hsend =>
    refine ⟨?_, .flight _ _⟩
    cases pc with
    | sendBegin payload timeout => exact ⟨h.1, rfl⟩
    | sendTest payload timeout => exact ⟨h.1, rfl⟩
    | sendBusy payload timeout => exact h
    | sendPut payload timeout => exact ⟨h.1, rfl⟩
    | sendFlush => exact Or.inl rfl
    | _ => exact rfl
  | @call _ c hi =>
    refine ⟨?_, .nil⟩
    cases c with
    | send payload timeout => exact ⟨hcall payload timeout hi, h⟩
    | avail timeout => exact h
    | recv timeout => exact h
  | @work _ _ _ t hi hpc hwhy =>
    refine ⟨?_, .nil⟩
    cases pc with
    | sendBegin payload timeout => cases hpc; exact h
    | sendFlush =>
      cases hpc
      rcases h with hsend | hnormal
      · exact hsend
      · subst hi
        rw [airDone_slept hnormal hclock hslept] at hwhy
        rcases hwhy with hsend | hc
        · exact hsend
        · cases hc
    | recvBegin timeout => cases hpc; exact h
    | dataWorker w => cases hpc; exact h
    | _ => cases hpc
  | workLand hpc hsend =>
    refine ⟨?_, .flight _ _⟩
    cases pc with
    | sendBegin payload timeout => cases hpc; exact ⟨h.1, rfl⟩
    | sendFlush => cases hpc; exact rfl
    | recvBegin timeout => cases hpc; exact rfl
    | dataWorker w => cases hpc; exact rfl
    | _ => cases hpc
  | test =>
    rw [if_pos h.2]
    exact ⟨h, .nil⟩
  | busy => exact h.elim
  | @put _ payload timeout t data num hi =>
    subst hi
    rw [if_pos h.1, if_pos h.2]
    exact ⟨Or.inr hclock.1, by constructor <;> simp⟩
  | check hpc => exact ⟨WlPc.checked_free hpc h, .nil⟩
  | read => exact ⟨h, .nil⟩
  | empty => exact ⟨h, .nil⟩
  | copy => exact ⟨h, .nil⟩

/-! ## Runs -/

/-- What is asked of every step. -/
def Timed (env : WlEnv) (id : ConnId) (s : SeedEmul) (i : SeedInput) : Prop :=
  Steady i ∧ Slept env id (s.pc id) (s.devs.dev id).outputBuff i

instance (env : WlEnv) (id : ConnId) (s : SeedEmul) (i : SeedInput) : Decidable (Timed env id s i) :=
  inferInstanceAs (Decidable (_ ∧ _))

theorem seedStep_call {c : WlCall} (h : seedStep env s (.call id c) = some (s', o)) : s'.pc id = c.enter ∧ o = [] := by
  obtain ⟨⟨e, oe⟩, hs, heq⟩ := Option.map_eq_some_iff.mp h
  simp only [emulStep] at hs
  split_ifs at hs
  cases hs
  cases heq
  exact ⟨Function.update_self .., rfl⟩

theorem seedRun_sending {is : List SeedInput} (hr : run (seedStep env) s is = some (s', os))
    (htimed : Along (seedStep env) (Timed env id) s is) (hcall : ∀ i ∈ is, ∀ c, i ≠ .call id c) {timeout : BitVec 32}
    (htimeout : timeout ≠ 0) (hpc : s.pc id = .sendBegin payload timeout) :
    Sending id payload (s'.pc id) (s'.devs.dev id).outputBuff (senderEvents id os) := by
  refine run_induct_along (P := fun _ os s => Sending id payload (s.pc id) (s.devs.dev id).outputBuff
    (senderEvents id os)) ?_ (fun is os s₁ i s₂ o h hi hs => ?_) hr (htimed.and_mem hcall)
  · rw [hpc]
    exact ⟨rfl, htimeout⟩
  · rw [senderEvents_append]
    exact h.move (seedStep_side hs id) hi.1.1 hi.1.2 hi.2

theorem seedRun_free {g : WlSeeded} {is : List SeedInput} (hr : run (seedStep env) (seedStart g) is = some (s', os))
    (htimed : Along (seedStep env) (Timed env id) (seedStart g) is)
    (hcall : ∀ i ∈ is, ∀ payload timeout, i = .call id (.send payload timeout) → timeout ≠ 0) :
    Free (s'.pc id) (s'.devs.dev id).outputBuff ∧ Clear id (senderEvents id os) := by
  have hstart : Free ((seedStart g).pc id) ((seedStart g).devs.dev id).outputBuff := rfl
  refine run_induct_along (P := fun _ os s => Free (s.pc id) (s.devs.dev id).outputBuff ∧ Clear id (senderEvents id os))
    ⟨hstart, .nil⟩ (fun is os s₁ i s₂ o h hi hs => ?_) hr (htimed.and_mem hcall)
  obtain ⟨hfree, hclear⟩ := h.1.move (seedStep_side hs id) hi.1.1 hi.1.2 hi.2
  refine ⟨hfree, ?_⟩
  rw [senderEvents_append]
  exact ⟨fun hm => (List.mem_append.mp hm).elim h.2.1 hclear.1,
    fun num hm => (List.mem_append.mp hm).elim (h.2.2 num) (hclear.2 num)⟩

/-- **A blocking send leaves the radio free**, for any time on air, from any state and with any steps of the other side:
once it has returned its packet has left the air, by one decision. So a side whose sends all block finds its previous
packet sent, and overwrites none. -/
theorem blocking_send (env : WlEnv) (id : ConnId) :
    (∀ (s s' : SeedEmul) (payload : PackData) (timeout : BitVec 32) (is : List SeedInput) (os : List SeedEvent),
      timeout ≠ 0 → run (seedStep env) s (.call id (.send payload timeout) :: is) = some (s', os) →
      Along (seedStep env) (Timed env id) s (.call id (.send payload timeout) :: is) → (∀ c, .call id c ∉ is) →
      s'.pc id = .out →
        (s'.devs.dev id).outputBuff.isSend = true ∧
          ∃ pre num v, senderEvents id os = pre ++ [.emul (.put id num payload), .flight id num v]) ∧
    ∀ (g : WlSeeded) (s : SeedEmul) (is : List SeedInput) (os : List SeedEvent),
      run (seedStep env) (seedStart g) is = some (s, os) → Along (seedStep env) (Timed env id) (seedStart g) is →
      (∀ payload timeout, .call id (.send payload timeout) ∈ is → timeout ≠ 0) →
        .emul (.busy id) ∉ os ∧ ∀ num, .emul (.overwritten id num) ∉ os := by
  constructor
  · intro s s' payload timeout is os htimeout hr htimed hcall hout
    obtain ⟨s₁, o₁, o₂, hs, hrest, rfl⟩ := run_cons.mp hr
    obtain ⟨hpc, rfl⟩ := seedStep_call hs
    have hsending := seedRun_sending hrest (htimed.tail hs) (fun i hi c he => hcall c (he ▸ hi)) htimeout hpc
    rw [hout] at hsending
    exact hsending
  · intro g s is os hr htimed hcall
    obtain ⟨-, hbusy, hover⟩ := seedRun_free hr htimed (fun i hi payload timeout he => hcall payload timeout (he ▸ hi))
    have hsender : ∀ e, SeedEvent.ofSender id e = true → e ∉ senderEvents id os → e ∉ os :=
      fun e he hno hm => hno (List.mem_filter.mpr ⟨hm, he⟩)
    exact ⟨hsender _ (by simp [SeedEvent.ofSender]) hbusy,
      fun num => hsender _ (by simp [SeedEvent.ofSender]) (hover num)⟩

/-- A packet is more than a second on air. -/
def WlEnv.slow : WlEnv := { WlEnv.rough with timeOnAirMs := 1100 }

/-- After the call of a send: the other side's worker takes the packet from the air before the sleep is over. -/
def sleepInputs : List SeedInput :=
  seedTicks .id0 3 950 ++ [.call .id1 (.avail 0)] ++ seedTicks .id1 3 2050 ++ seedTicks .id0 2 2051

theorem blocking_send_slow : ∃ s os pre num v,
    run (seedStep .slow) (seedStart .zeroed) (.call .id0 (.send (Vector.replicate 19 1) 1) :: sleepInputs) =
      some (s, os) ∧
    (s.devs.dev .id0).outputBuff.isSend = true ∧
    senderEvents .id0 os = pre ++ [.emul (.put .id0 num (Vector.replicate 19 1)), .flight .id0 num v] ∧
    .emul (.busy .id0) ∉ os := by
  have heval : (run (seedStep .slow) (seedStart .zeroed)
      (.call .id0 (.send (Vector.replicate 19 1) 1) :: sleepInputs)).map (fun r =>
        (decide (r.1.pc .id0 = .out), checkAlong (seedStep .slow) (fun s i => decide (Timed .slow .id0 s i))
          (seedStart .zeroed) (.call .id0 (.send (Vector.replicate 19 1) 1) :: sleepInputs))) = some (true, true) := by
    decide +kernel
  obtain ⟨⟨s, os⟩, hr, hfacts⟩ := Option.map_eq_some_iff.mp heval
  simp only [Prod.mk.injEq, decide_eq_true_eq] at hfacts
  have htimed := along_of_check hfacts.2
  obtain ⟨hone, hall⟩ := blocking_send .slow .id0
  have hcalls : ∀ c, SeedInput.call .id0 c ∉ sleepInputs := by
    intro c
    simp [sleepInputs, seedTicks]
  obtain ⟨hsend, pre, num, v, hsent⟩ := hone _ _ _ _ _ _ (by decide) hr htimed hcalls hfacts.1
  refine ⟨s, os, pre, num, v, hr, hsend, hsent, (hall _ _ _ _ hr htimed fun payload timeout hmem => ?_).1⟩
  rcases List.mem_cons.mp hmem with heq | hrest
  · cases heq
    decide
  · exact absurd hrest (hcalls _)

end LoraBridge.Seeded
