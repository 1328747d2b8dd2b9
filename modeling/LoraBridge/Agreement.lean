import LoraBridge.Agreeing

/-!
# Agreement of the two parties

The invariant `Agreeing` is joined to the histories of the two loops (`Joint`). In every run the master has completed
transactions `1..c`, and the slave has accepted just these, each once and in order, or one more (`net_agreement`).
-/

set_option autoImplicit false

namespace LoraBridge

open Transducer

variable {c n k : Nat} {a : Station LlcStateM} {b : Station LlcStateS}

/-! ## Runs -/

/-- A quiet channel between stations: no packet is held or on its way. -/
theorem Net.quiet_load {net : Net} (hq : net.quiet = true) (hm : MRel net.m a) (hs : SRel net.s b) :
    a.send = none ∧ b.load + b.due + channelLoad net.air net.inbuf = 0 := by
  obtain ⟨cm, hrm⟩ := hm.rel
  obtain ⟨cs, hrs⟩ := hs.rel
  simp only [Net.quiet, hrm.hasPackToSend, hrm.hasReceivedPack, hrs.hasPackToSend, hrs.hasReceivedPack, hrs.st,
    Bool.and_eq_true, Bool.not_eq_eq_eq_not, Bool.not_true, Option.isSome_eq_false_iff, Option.isNone_iff_eq_none,
    decide_eq_true_eq, List.all_cons, List.all_nil] at hq
  obtain ⟨⟨⟨⟨⟨hsend, -⟩, hbsend⟩, hbrecv⟩, hst⟩, ⟨hairm, hinm⟩, ⟨hairs, hins⟩, -⟩ := hq
  exact ⟨hsend, by simp [Station.load, Station.due, channelLoad, hbsend, hbrecv, hst, hairm, hairs, hinm, hins]⟩

/-- What holds of a run: the master has completed transactions `1..c`, and the slave has accepted just these, each once
and in order; it may be one ahead, unless the master stands between two transactions. No assertion has failed. -/
structure Agreement (net : Net) (os : List NetEvent) : Prop where
  agreed : ∃ c, entered .idle (masterEvents os) = transactions c ∧
    (entered .receivedAll (slaveEvents os) = transactions c ∨
      net.m.llcState ≠ .idle ∧ entered .receivedAll (slaveEvents os) = transactions (c + 1))
  silent : net.m.tsm.stderr = [] ∧ net.s.tsm.stderr = []

/-- The state and the history of a run. -/
structure Joint (os : List NetEvent) (net : Net) (c n k : Nat) (a : Station LlcStateM) (b : Station LlcStateS) :
    Prop where
  master : MRel net.m a
  slave : SRel net.s b
  agreeing : Agreeing c n k a b net.air net.inbuf
  completed : entered .idle (masterEvents os) = transactions c
  accepted : entered .receivedAll (slaveEvents os) = transactions k

theorem Joint.agreement {net : Net} {os : List NetEvent} (h : Joint os net c n k a b) : Agreement net os := by
  obtain ⟨cm, hrm⟩ := h.master.rel
  obtain ⟨cs, hrs⟩ := h.slave.rel
  have hcount := h.agreeing.count
  refine ⟨⟨c, h.completed, ?_⟩, by rw [hrm.stderr, hrs.stderr]; exact h.agreeing.silent⟩
  rw [h.accepted, hrm.st]
  by_cases hst : a.st = .idle
  · have hk := h.agreeing.answered (Or.inl hst)
    rw [if_pos hst] at hcount
    exact Or.inl (by rw [hk, hcount])
  · rw [if_neg hst] at hcount
    rcases h.agreeing.near with hk | hk
    · exact Or.inr ⟨hst, by rw [hk, hcount]⟩
    · exact Or.inl (by rw [show k = c by omega])

/-- One step of the composition. -/
theorem Joint.step {net net' : Net} {os o : List NetEvent} {i : NetInput} (h : Joint os net c n k a b)
    (hi : QuietTimeout net i) (hs : netStep net i = some (net', o)) :
    ∃ c' n' k' a' b', Joint (os ++ o) net' c' n' k' a' b' := by
  cases i with
  | master j =>
    simp only [netStep, Option.bind_eq_bind, Option.bind_eq_some_iff, Prod.exists, Option.pure_def, Option.some.injEq,
      Prod.mk.injEq] at hs
    obtain ⟨y, htake, m, o, hm, rfl, rfl⟩ := hs
    obtain ⟨a', hrel', hmove, hlate⟩ := h.master.move (r := b.load + b.due + channelLoad net.air net.inbuf) hm (by
      rintro now rfl - hst hrecv hexp
      exact Net.quiet_load (hi hst hrecv hexp) h.master h.slave)
    obtain ⟨c', n', hagree, hcompleted⟩ := h.agreeing.master hmove htake hlate
    exact ⟨c', n', k, a', b, hrel', h.slave, hagree, by simp [h.completed, hcompleted], by simp [h.accepted]⟩
  | slave j =>
    simp only [netStep, Option.bind_eq_bind, Option.bind_eq_some_iff, Prod.exists, Option.pure_def, Option.some.injEq,
      Prod.mk.injEq] at hs
    obtain ⟨y, htake, m, o, hm, rfl, rfl⟩ := hs
    obtain ⟨b', hrel', hmove⟩ := h.slave.move hm
    obtain ⟨k', hagree, haccepted⟩ := h.agreeing.slave hmove htake
    exact ⟨c, n, k', a, b', h.master, hrel', hagree, by simp [h.completed], by simp [h.accepted, haccepted]⟩
  | lose x =>
    simp only [netStep] at hs
    split_ifs at hs
    cases hs
    exact ⟨c, n, k, a, b, h.master, h.slave, h.agreeing.lose x, by simp [h.completed], by simp [h.accepted]⟩
  | spoil x d =>
    simp only [netStep] at hs
    split_ifs at hs with hsome
    cases hs
    rw [Bool.and_eq_true, Bool.not_eq_true'] at hsome
    exact ⟨c, n, k, a, b, h.master, h.slave, h.agreeing.spoil hsome.1 hsome.2, by simp [h.completed],
      by simp [h.accepted]⟩
  | deliver x =>
    simp only [netStep] at hs
    split_ifs at hs
    cases hs
    exact ⟨c, n, k, a, b, h.master, h.slave, h.agreeing.deliver x, by simp [h.completed], by simp [h.accepted]⟩

/-- **The two parties agree.** In every run of the two loops over the channel, in any order of their steps, as long as
the master's timer is read as expired only when all is quiet. -/
theorem net_agreement (tm ts : Tsm) : ∃ net₀, netStart tm ts = some net₀ ∧
    ∀ (is : List NetInput) (net : Net) (os : List NetEvent), run netStep net₀ is = some (net, os) →
      Along netStep QuietTimeout net₀ is → Agreement net os := by
  obtain ⟨m, hm, hmrel⟩ := mStart_rel tm
  obtain ⟨s, hs, hsrel⟩ := sStart_rel ts
  refine ⟨⟨m, s, fun _ => none, fun _ => none⟩, by simp [netStart, hm, hs], fun is net os hr halong => ?_⟩
  have hstart : Joint [] ⟨m, s, fun _ => none, fun _ => none⟩ 0 0 0 (mStationStart tm) (sStationStart ts) := by
    refine ⟨hmrel, hsrel, ?_, rfl, rfl⟩
    exact {
      turn := ⟨by simp [Station.load, Station.due, channelLoad, mStationStart, sStationStart], fun _ => by
        simp [Station.load, Station.due, channelLoad, mStationStart, sStationStart]⟩
      count := rfl
      near := Or.inl rfl
      masterId := rfl
      masterResend := nofun
      masterSend := nofun
      request := fun d hd => by simp at hd
      requested := nofun
      slaveId := rfl
      kept := fun hk => absurd rfl hk
      slaveSend := nofun
      response := fun d hd => by simp at hd
      responded := nofun
      answered := fun _ => rfl
      tested := nofun
      silent := ⟨rfl, rfl⟩ }
  obtain ⟨c, n, k, a, b, hjoint⟩ := run_induct_along
    (P := fun _ os net => ∃ c n k a b, Joint os net c n k a b) ⟨0, 0, 0, _, _, hstart⟩
    (fun _ os net i net' o hj hi hs => by
      obtain ⟨c, n, k, a, b, hj⟩ := hj
      exact hj.step hi hs) hr halong
  exact hjoint.agreement

/-- The first request is lost, the response to the second is damaged, and the response to the third is the same one
sent again. -/
def lossyInputs : List NetInput :=
  let f := singleFrame 1
  let bad : PackData := Vector.replicate 19 0
  [.slave (.pass ⟨0, 0⟩), .slave .call, .master (.pass ⟨0, 0⟩), .master (.pass ⟨0, 0⟩), .master .call, .lose .master,
    .master .sent, .master (.pass ⟨0, 100000⟩), .master .call, .master (.received none),
    .master (.pass ⟨0, 400000⟩), .master (.pass ⟨0, 400000⟩), .master (.pass ⟨0, 400000⟩), .master .call,
    .deliver .master, .slave (.received (some f)), .slave (.pass ⟨0, 0⟩), .slave (.pass ⟨0, 0⟩),
    .slave (.pass ⟨0, 0⟩), .slave (.pass ⟨0, 0⟩), .slave .call, .spoil .slave bad, .deliver .slave, .slave .sent,
    .master .sent, .master (.pass ⟨0, 500000⟩), .master .call, .master (.received (some bad)),
    .slave (.pass ⟨0, 0⟩), .slave .call, .master (.pass ⟨0, 800000⟩), .master (.pass ⟨0, 800000⟩),
    .master (.pass ⟨0, 800000⟩), .master .call, .deliver .master, .master .sent, .slave (.received (some f)),
    .slave (.pass ⟨0, 0⟩), .slave (.pass ⟨0, 0⟩), .slave (.pass ⟨0, 0⟩), .slave .call, .deliver .slave,
    .master (.pass ⟨0, 900000⟩), .master .call, .master (.received (some f)), .master (.pass ⟨0, 900000⟩),
    .master (.pass ⟨0, 900000⟩)]

theorem net_agreement_lossy : ∃ net₀ net os, netStart Tsm.zeroed Tsm.zeroed = some net₀ ∧
    run netStep net₀ lossyInputs = some (net, os) ∧ entered .idle (masterEvents os) = [1] ∧
    entered .resend (slaveEvents os) = [1] ∧ Agreement net os := by
  have heval : (netStart Tsm.zeroed Tsm.zeroed).bind (fun net₀ => (run netStep net₀ lossyInputs).map fun r =>
      (checkAlong netStep (fun net i => decide (QuietTimeout net i)) net₀ lossyInputs,
        entered .idle (masterEvents r.2), entered .resend (slaveEvents r.2))) = some (true, [1], [1]) := by
    decide +kernel
  obtain ⟨net₀, h₀, hrun⟩ := Option.bind_eq_some_iff.mp heval
  obtain ⟨⟨net, os⟩, hr, hfacts⟩ := Option.map_eq_some_iff.mp hrun
  simp only [Prod.mk.injEq] at hfacts
  obtain ⟨net₁, h₁, hall⟩ := net_agreement Tsm.zeroed Tsm.zeroed
  cases h₀.symm.trans h₁
  exact ⟨net₀, net, os, h₀, hr, hfacts.2.1, hfacts.2.2, hall _ _ _ hr (along_of_check hfacts.1)⟩

end LoraBridge
