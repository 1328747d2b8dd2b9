import LoraBridge.Response

/-!
# Progress

Neither thread ever gets stuck: wherever its loop stands, inside a radio call or outside, the next step can be taken
(`never_stuck`). Only `wl_pack_break` may go on for ever, on values of `rand_r` that never end its loops; with the
scores of the repository there are always values that do (`drawsEnd_last`). Between two sleeps a thread takes at most
21 steps (`Station.steps`), so the threads take boundedly many steps in the time of a transaction, and over an emulator
that loses and damages nothing they complete one transaction after the other for as long as they run (`live`).
-/

set_option autoImplicit false

namespace LoraBridge

open Transducer

variable {cfg : WlConfig} {id : ConnId} {n n' : System} {a a' : Station LlcStateM} {b b' : Station LlcStateS}
  {t : WlTick} {i : Input}

/-! ## The shadow worker returns -/

/-- On these values `wl_is_packet_lost` has one to read, and the loops of `wl_pack_break` come to their end. -/
def drawsEnd (cfg : WlConfig) (draws : List Draw) : Bool :=
  match wlIsPacketLost cfg draws with
  | none => false
  | some (lost, draws) => lost || (wlPackBreakFlips cfg draws).isSome

/-- The time on air of the packet of `src` is over. -/
def WlEmulGlobal.over (g : WlEmulGlobal) (src : ConnId) (now : Timeval) : Bool :=
  !(g.dev src).outputBuff.isSend && wlAirDone (g.dev src).outputBuff.sendTime now

/-- For each packet whose time on air is over, the tick has values on which `wl_pack_break` ends. -/
def WlTick.Ends (cfg : WlConfig) (t : WlTick) (g : WlEmulGlobal) : Prop :=
  ∀ src, g.over src (t.now src) = true → drawsEnd cfg (t.draws src) = true

instance (cfg : WlConfig) (t : WlTick) (g : WlEmulGlobal) : Decidable (t.Ends cfg g) :=
  inferInstanceAs (Decidable (∀ src, g.over src (t.now src) = true → drawsEnd cfg (t.draws src) = true))

theorem wlShadowWorkerTarg_returns {now : Timeval} {draws : List Draw} {src : ConnId} {g : WlEmulGlobal} :
    (wlShadowWorkerTarg cfg now draws src src.other g).isSome = true ↔
      (g.over src now = true → drawsEnd cfg draws = true) := by
  cases hsend : (g.dev src).outputBuff.isSend with
  | true => simp [wlShadowWorkerTarg, WlEmulGlobal.over, hsend]
  | false =>
    cases hair : wlAirDone (g.dev src).outputBuff.sendTime now with
    | false => simp [wlShadowWorkerTarg, WlEmulGlobal.over, hsend, hair]
    | true =>
      have hover : g.over src now = true := by simp [WlEmulGlobal.over, hsend, hair]
      rw [forall_prop_of_true hover]
      cases hlost : wlIsPacketLost cfg draws with
      | none => simp [wlShadowWorkerTarg, drawsEnd, hsend, hair, hlost]
      | some r =>
        obtain ⟨lost, draws'⟩ := r
        cases lost with
        | true => simp [wlShadowWorkerTarg, drawsEnd, hsend, hair, hlost]
        | false =>
          cases hfs : wlPackBreakFlips cfg draws' with
          | none => simp [wlShadowWorkerTarg, drawsEnd, hsend, hair, hlost, wlPackBreak_eq, hfs]
          | some fs =>
            simp only [wlShadowWorkerTarg, drawsEnd, hsend, hair, hlost, wlPackBreak_eq, hfs, Bool.false_eq_true,
              if_false, if_true, Option.bind_eq_bind, Option.bind_some, Option.map_some]
            split_ifs <;> simp

/-- `wl_shadow_worker` returns just when the values end the calls of `wl_pack_break`. -/
theorem wlShadowWorker_returns {g : WlEmulGlobal} : (wlShadowWorker cfg t g).isSome = true ↔ t.Ends cfg g := by
  have hends : t.Ends cfg g ↔ (g.over .id0 t.now₀ = true → drawsEnd cfg t.draws₀ = true) ∧
      (g.over .id1 t.now₁ = true → drawsEnd cfg t.draws₁ = true) := by
    refine ⟨fun h => ⟨h .id0, h .id1⟩, fun h src => ?_⟩
    cases src
    · exact h.1
    · exact h.2
  rw [hends, ← wlShadowWorkerTarg_returns, ConnId.other]
  unfold wlShadowWorker
  cases h₀ : wlShadowWorkerTarg cfg t.now₀ t.draws₀ .id0 .id1 g with
  | none => simp
  | some r =>
    obtain ⟨g₀, o₀⟩ := r
    have harrive : WlArrive cfg t.now₀ .id0 g g₀ o₀ := wlShadowWorkerTarg_arrive h₀
    -- the first call leaves the other side's output buffer alone
    have hout : (g₀.dev .id1).outputBuff = (g.dev .id1).outputBuff := harrive.out_of_ne (by decide)
    have hover : g₀.over .id1 t.now₁ = g.over .id1 t.now₁ := by rw [WlEmulGlobal.over, WlEmulGlobal.over, hout]
    have hsecond : (wlShadowWorkerTarg cfg t.now₁ t.draws₁ .id1 .id0 g₀).isSome = true ↔
        (g₀.over .id1 t.now₁ = true → drawsEnd cfg t.draws₁ = true) := wlShadowWorkerTarg_returns
    rw [hover] at hsecond
    rw [← hsecond]
    cases h₁ : wlShadowWorkerTarg cfg t.now₁ t.draws₁ .id1 .id0 g₀ <;> simp [h₁]

theorem bRand_last (score : Int) : bRand (Fin.last randMax) score = decide (100 < score) := rfl

/-- The highest value ends every loop, unless the score for another flip is above 100. -/
theorem drawsEnd_last (hscore : cfg.errDataMultipScore ≤ 100) :
    drawsEnd cfg (List.replicate 4 (Fin.last randMax)) = true := by
  have hmore : bRand (Fin.last randMax) cfg.errDataMultipScore = false := by
    rw [bRand_last]
    exact decide_eq_false (by omega)
  have hbreak : ∀ k, (wlPackBreakFlips cfg (List.replicate (k + 3) (Fin.last randMax))).isSome = true := by
    intro k
    simp only [wlPackBreakFlips, List.replicate_succ, wlPackBreakLoopFlips, hmore, Bool.false_eq_true, if_false]
    split_ifs <;> rfl
  unfold drawsEnd wlIsPacketLost
  by_cases hlose : cfg.losePackets = true
  · rw [if_pos hlose]
    simp only [List.replicate_succ (n := 3)]
    rw [hbreak 0, Bool.or_true]
  · rw [if_neg hlose]
    exact (Bool.or_eq_true ..).mpr (Or.inr (hbreak 1))

theorem drawsEnd_intact (hcfg : cfg.losePackets = false ∧ cfg.errData = false) (draws : List Draw) :
    drawsEnd cfg draws = true := by
  simp [drawsEnd, wlIsPacketLost, wlPackBreakFlips, hcfg.1, hcfg.2]

/-! ## The next step of a thread -/

/-- What the loop takes next, outside its radio calls; `ret` is what the call has returned. -/
def Loop.turn {σ : Type} (l : Loop σ) (ret : Option WlRet) (now : Timeval) : Option Input :=
  match l.pc.place with
  | .llc => some (.pass now)
  | .mac => some .call
  | .sending => ret.bind WlRet.input
  | .receiving => ret.bind WlRet.input

/-- The next step of the side's thread, when it reads `t`. -/
def System.turn (n : System) (id : ConnId) (t : WlTick) : SystemInput :=
  match id with
  | .id0 => ((n.m.turn (n.ret .id0) t.now₀).map SystemInput.master).getD (.tick .id0 t)
  | .id1 => ((n.s.turn (n.ret .id1) t.now₁).map SystemInput.slave).getD (.tick .id1 t)

/-- The place at which a loop takes the input. -/
def Input.place : Input → Place
  | .pass _ => .llc
  | .call => .mac
  | .sent => .sending
  | .received _ => .receiving

/-- The input is what the call has returned, if it is a return. -/
def Input.Answers (ret : Option WlRet) : Input → Prop
  | .pass _ => True
  | .call => True
  | i => ret.bind WlRet.input = some i

/-- Either the loop goes on, or it is in its radio call. -/
theorem Loop.turn_cases {σ : Type} {l : Loop σ} {pc : WlPc} {ret : Option WlRet} (hf : Fits l.pc.place pc ret)
    (now : Timeval) : (∃ i, l.turn ret now = some i ∧ l.pc.place = i.place ∧ i.Answers ret) ∨
      l.turn ret now = none ∧ pc ≠ .out := by
  unfold Loop.turn
  cases hp : l.pc.place with
  | llc => exact Or.inl ⟨_, rfl, rfl, trivial⟩
  | mac => exact Or.inl ⟨_, rfl, rfl, trivial⟩
  | sending =>
    rw [hp] at hf
    rcases hf with ⟨hs, rfl⟩ | ⟨-, rfl⟩
    · exact Or.inr ⟨rfl, fun hout => by rw [hout] at hs; cases hs⟩
    · exact Or.inl ⟨.sent, rfl, rfl, rfl⟩
  | receiving =>
    rw [hp] at hf
    rcases hf with ⟨hr, rfl⟩ | ⟨-, res, rfl⟩
    · exact Or.inr ⟨rfl, fun hout => by rw [hout] at hr; cases hr⟩
    · exact Or.inl ⟨.received res, rfl, rfl, rfl⟩

/-- It reads the clock in the LLC worker. -/
theorem Loop.turn_pass {σ : Type} {l : Loop σ} {ret : Option WlRet} {now r : Timeval}
    (h : l.turn ret now = some (.pass r)) : l.pc.place = .llc ∧ r = now := by
  have hreturn : ret.bind WlRet.input ≠ some (.pass r) := by
    intro hret
    obtain ⟨x, -, hx⟩ := Option.bind_eq_some_iff.mp hret
    cases x <;> cases hx
  unfold Loop.turn at h
  cases hp : l.pc.place with
  | llc =>
    rw [hp] at h
    cases h
    exact ⟨rfl, rfl⟩
  | mac =>
    rw [hp] at h
    cases h
  | sending | receiving =>
    rw [hp] at h
    exact absurd h hreturn

/-! ## The loops -/

theorem stationStep_isSome {σ : Type} [DecidableEq σ] {pass : Station σ → Timeval → Option (Station σ)} {x : Station σ}
    (hp : x.place = i.place) (hpass : ∀ now, i = .pass now → (pass x now).isSome = true) :
    (stationStep pass x i).isSome = true := by
  cases i with
  | pass now =>
    obtain ⟨y, hy⟩ := Option.isSome_iff_exists.mp (hpass now rfl)
    have hp : x.place = .llc := hp
    simp [stationStep, hp, hy]
  | call =>
    have hp : x.place = .mac := hp
    simp [stationStep, hp]
  | sent =>
    have hp : x.place = .sending := hp
    simp [stationStep, stationSent, hp]
  | received res =>
    have hp : x.place = .receiving := hp
    simp [stationStep, stationReceived, hp]

theorem MRel.goes {l : Loop LlcStateM} (h : MRel l a) (hi : TimerPatient l i) (hp : a.place = i.place) :
    ∃ l' o, mStep l i = some (l', o) := by
  obtain ⟨c, hrel⟩ := h.rel
  have hsome : (mStation a i).isSome = true := by
    refine stationStep_isSome hp ?_
    rintro now rfl
    obtain ⟨a', ha, -⟩ := mStationPass_move h.inv hp (hi.station hrel)
    rw [ha]
    rfl
  obtain ⟨⟨a', o⟩, ha⟩ := Option.isSome_iff_exists.mp hsome
  have hstep := h.step hi
  rw [ha] at hstep
  obtain ⟨l', hl, -⟩ := hstep
  exact ⟨l', o, hl⟩

theorem SRel.goes {l : Loop LlcStateS} (h : SRel l b) (hp : b.place = i.place) : ∃ l' o, sStep l i = some (l', o) := by
  have hsome : (sStation b i).isSome = true := by
    refine stationStep_isSome hp ?_
    rintro now rfl
    obtain ⟨b', hb, -⟩ := sStationPass_move now h.inv hp
    rw [hb]
    rfl
  obtain ⟨⟨b', o⟩, hb⟩ := Option.isSome_iff_exists.mp hsome
  have hstep := h.step i
  rw [hb] at hstep
  obtain ⟨l', hl, -⟩ := hstep
  exact ⟨l', o, hl⟩

/-- The emulator lets a loop go on. -/
theorem System.radio_goes {σ : Type} {l : Loop σ} {os : List (Event σ)} {p : Place}
    (hp : PlaceMove p i l.pc.place (transmitted os)) (hid : connId l.tsm.id = some id)
    (hf : Fits p (n.emul.pc id) (n.ret id)) (hi : i.Answers (n.ret id)) : ∃ n', n.radio cfg l os i = some n' := by
  simp only [System.radio, hid, Option.bind_eq_bind, Option.bind_some]
  generalize hq : l.pc.place = q at hp
  generalize htx : transmitted os = tx at hp
  cases hp with
  | pass => exact ⟨n, rfl⟩
  | send =>
    simp only [radioCall, Pc.sending_of_place hq, htx, List.head?_cons, Option.map_some, Option.bind_some, emulStep,
      hf.1, if_true, Option.pure_def]
    exact ⟨_, rfl⟩
  | listen =>
    obtain ⟨pack, hpc⟩ := Pc.receiving_of_place hq
    simp only [radioCall, hpc, Option.bind_some, emulStep, hf.1, if_true, Option.pure_def]
    exact ⟨_, rfl⟩
  | sent => exact ⟨_, if_pos hi⟩
  | received => exact ⟨_, if_pos hi⟩

/-! ## The threads -/

theorem Ordered.master_goes (h : Ordered n a b) (hpatient : TimerPatient n.m i) (hp : a.place = i.place)
    (hi : i.Answers (n.ret .id0)) : (systemStep cfg n (.master i)).isSome = true := by
  obtain ⟨l', o, hstep⟩ := h.master.goes hpatient hp
  obtain ⟨a', ha, hrel⟩ := (h.master.step hpatient).of_some hstep
  obtain ⟨cm, hrm⟩ := h.master.rel
  have hmove := mStation_move h.master.inv (hpatient.station hrm) ha
  obtain ⟨c', hr'⟩ := hrel.rel
  obtain ⟨n', hradio⟩ : ∃ n', n.radio cfg l' o i = some n' := System.radio_goes
    (by rw [hr'.place]; exact hmove.places.1)
    (connId_eq (j := .id0) (by rw [hr'.id, hmove.fixed.1, h.masterId.1]; rfl)) h.masterCall hi
  simp only [systemStep, hstep, hradio, Option.bind_eq_bind, Option.bind_some]
  rfl

theorem Ordered.slave_goes (h : Ordered n a b) (hp : b.place = i.place) (hi : i.Answers (n.ret .id1)) :
    (systemStep cfg n (.slave i)).isSome = true := by
  obtain ⟨l', o, hstep⟩ := h.slave.goes hp
  obtain ⟨b', hb, hrel⟩ := (h.slave.step i).of_some hstep
  have hmove := sStation_move h.slave.inv hb
  obtain ⟨c', hr'⟩ := hrel.rel
  obtain ⟨n', hradio⟩ : ∃ n', n.radio cfg l' o i = some n' := System.radio_goes
    (by rw [hr'.place]; exact hmove.places.1)
    (connId_eq (j := .id1) (by rw [hr'.id, hmove.fixed.1, h.slaveId.1]; rfl)) h.slaveCall hi
  simp only [systemStep, hstep, hradio, Option.bind_eq_bind, Option.bind_some]
  rfl

theorem tick_goes (hin : n.emul.pc id ≠ .out) (hends : (n.emul.pc id).worked ≠ none → t.Ends cfg n.emul.devs) :
    (systemStep cfg n (.tick id t)).isSome = true := by
  have hwork : (n.emul.pc id).worked ≠ none → ∃ r, wlShadowWorker cfg t n.emul.devs = some r := fun hpc =>
    Option.isSome_iff_exists.mp (wlShadowWorker_returns.mpr (hends hpc))
  simp only [systemStep, emulStep, wlStep]
  cases hpc : n.emul.pc id with
  | out => exact absurd hpc hin
  | sendBegin | sendFlush | recvBegin | dataWorker =>
    obtain ⟨r, hr⟩ := hwork (by rw [hpc]; exact Option.some_ne_none _)
    simp only [hr]
    rfl
  | _ => rfl

/-- **A thread can go on**, unless the timer is read as expired too early. -/
theorem Ordered.goes (h : Ordered n a b) (hends : (n.emul.pc id).worked ≠ none → t.Ends cfg n.emul.devs)
    (hi : ExpiresWhen System.still n (n.turn id t)) : (systemStep cfg n (n.turn id t)).isSome = true := by
  obtain ⟨cm, hrm⟩ := h.master.rel
  obtain ⟨cs, hrs⟩ := h.slave.rel
  cases id with
  | id0 =>
    have hf := h.masterCall
    rw [← hrm.place] at hf
    rcases Loop.turn_cases hf t.now₀ with ⟨i, hturn, hp, hanswers⟩ | ⟨hturn, hin⟩
    · simp only [System.turn, hturn, Option.map_some, Option.getD_some] at hi ⊢
      refine h.master_goes ?_ (hrm.place.symm.trans hp) hanswers
      cases i with
      | pass now =>
        intro hst hrecv hexp
        have hstill := hi hst hrecv hexp
        simp only [System.still, System.quiet, Bool.and_eq_true, Bool.not_eq_true'] at hstill
        exact hstill.1.1.1.1.1.1
      | _ => trivial
    · simp only [System.turn, hturn, Option.map_none, Option.getD_none]
      exact tick_goes hin hends
  | id1 =>
    have hf := h.slaveCall
    rw [← hrs.place] at hf
    rcases Loop.turn_cases hf t.now₁ with ⟨i, hturn, hp, hanswers⟩ | ⟨hturn, hin⟩
    · simp only [System.turn, hturn, Option.map_some, Option.getD_some]
      exact h.slave_goes (hrs.place.symm.trans hp) hanswers
    · simp only [System.turn, hturn, Option.map_none, Option.getD_none]
      exact tick_goes hin hends

/-- **Neither thread gets stuck**, in whatever order they have taken their steps: after a run in which the timer is
read as expired only when nothing is under way, each of them has a next step, if where it calls `wl_shadow_worker` the
values of `rand_r` end the loops of `wl_pack_break`. There are such values, whatever the clock reads, unless the score
for another flip is above 100. -/
theorem never_stuck (cfg : WlConfig) (tm ts : Tsm) (g : WlEmulGlobal) :
    ∃ n₀, systemStart tm ts g = some n₀ ∧
      ∀ (is : List SystemInput) (n : System) (os : List SystemEvent), run (systemStep cfg) n₀ is = some (n, os) →
        Along (systemStep cfg) (ExpiresWhen System.still) n₀ is → ∀ id,
          (∀ t, ((n.emul.pc id).worked ≠ none → t.Ends cfg n.emul.devs) → ExpiresWhen System.still n (n.turn id t) →
            (systemStep cfg n (n.turn id t)).isSome = true) ∧
          (cfg.errDataMultipScore ≤ 100 → ∃ draws, ∀ now₀ now₁,
            ExpiresWhen System.still n (n.turn id ⟨now₀, now₁, draws, draws⟩) →
              (systemStep cfg n (n.turn id ⟨now₀, now₁, draws, draws⟩)).isSome = true) := by
  obtain ⟨n₀, hstart, -, hordered⟩ := systemStart_net tm ts g
  refine ⟨n₀, hstart, fun is n os hr halong id => ?_⟩
  obtain ⟨⟨a, b, h⟩, -⟩ := hordered.run hr halong
  refine ⟨fun t hends hi => h.goes hends hi, fun hscore => ⟨List.replicate 4 (Fin.last _), fun now₀ now₁ hi => ?_⟩⟩
  refine h.goes (fun _ src _ => ?_) hi
  cases src <;> exact drawsEnd_last hscore

/-- After the run with the noise. -/
theorem never_stuck_noisy : ∃ n₀ n os, systemStart Tsm.zeroed Tsm.zeroed .zeroed = some n₀ ∧
    run (systemStep .noisy) n₀ noisyInputs = some (n, os) ∧
    ∀ id, (systemStep .noisy n (n.turn id ⟨⟨0, 800000⟩, ⟨0, 800000⟩, [], []⟩)).isSome = true := by
  have heval : (systemStart Tsm.zeroed Tsm.zeroed .zeroed).bind (fun n₀ =>
      (run (systemStep .noisy) n₀ noisyInputs).map fun r =>
        (checkAlong (systemStep .noisy) (fun n i => decide (ExpiresWhen System.still n i)) n₀ noisyInputs,
          decide (WlTick.Ends .noisy ⟨⟨0, 800000⟩, ⟨0, 800000⟩, [], []⟩ r.1.emul.devs),
          decide (∀ id, ExpiresWhen System.still r.1 (r.1.turn id ⟨⟨0, 800000⟩, ⟨0, 800000⟩, [], []⟩)))) =
      some (true, true, true) := by decide +kernel
  obtain ⟨n₀, h₀, hrun⟩ := Option.bind_eq_some_iff.mp heval
  obtain ⟨⟨n, os⟩, hr, hfacts⟩ := Option.map_eq_some_iff.mp hrun
  simp only [Prod.mk.injEq, decide_eq_true_eq] at hfacts
  obtain ⟨halong, hends, hexpires⟩ := hfacts
  obtain ⟨n₁, h₁, hall⟩ := never_stuck .noisy Tsm.zeroed Tsm.zeroed .zeroed
  cases h₀.symm.trans h₁
  refine ⟨n₀, n, os, h₀, hr, fun id => ?_⟩
  exact (hall _ _ _ hr (along_of_check halong) id).1 _ (fun _ => hends) (hexpires id)

/-! ## The steps between two sleeps -/

/-- The steps from here to the next sleep, those of the loop after the call among them. A look for data that has found
none sleeps, and so does a packet that has been put. -/
def WlPc.steps (pc : WlPc) (ret : Option WlRet) : Nat :=
  match pc with
  | .sendPut _ _ => 1
  | .sendBusy _ _ => 2
  | .sendTest _ _ => 3
  | .sendBegin _ _ => 4
  | .recvCheck _ => 11
  | .recvCopy => 12
  | .dataCheck _ got => if got then 13 else 1
  | .dataRead _ => 14
  | .dataWorker _ => 15
  | .recvBegin _ => 16
  | .recvEmpty => 20
  | .sendCheck => 20
  | .sendFlush => 21
  | .out => if (ret.bind WlRet.incoming).isSome then 10 else 19

/-- Those of the loop; `own` are the steps of an LLC state that neither waits for a packet nor for the radio. -/
def Station.steps {σ : Type} (x : Station σ) (own : Option Nat) (pc : WlPc) (ret : Option WlRet) : Nat :=
  match x.place with
  | .llc => own.getD (if x.recv.isSome then 9 else if x.send.isSome then 6 else 18)
  | .mac => if x.send.isSome then 5 else 17
  | .sending => pc.steps ret
  | .receiving => pc.steps ret

def LlcStateM.steps : LlcStateM → Option Nat
  | .idle => some 7
  | .sendAll => none
  | .receivedAll => some 8
  | .resend => some 7

def LlcStateS.steps : LlcStateS → Option Nat
  | .idle => none
  | .receivedAll => some 8
  | .sendAll => some 7
  | .resend => some 7

/-- The steps of the side's thread to its next sleep. -/
def System.steps (n : System) (a : Station LlcStateM) (b : Station LlcStateS) : ConnId → Nat
  | .id0 => a.steps a.st.steps (n.emul.pc .id0) (n.ret .id0)
  | .id1 => b.steps b.st.steps (n.emul.pc .id1) (n.ret .id1)

theorem WlPc.steps_le (pc : WlPc) (ret : Option WlRet) : pc.steps ret ≤ 21 := by
  unfold WlPc.steps
  cases pc with
  | dataCheck | out =>
    dsimp only
    split_ifs <;> omega
  | _ =>
    dsimp only
    omega

theorem Station.steps_le {σ : Type} (x : Station σ) {own : Option Nat} (pc : WlPc) (ret : Option WlRet)
    (hown : own.getD 0 ≤ 8) : x.steps own pc ret ≤ 21 := by
  have hpc := pc.steps_le ret
  unfold Station.steps
  cases x.place with
  | llc =>
    cases own with
    | none =>
      dsimp only [Option.getD_none]
      split_ifs <;> omega
    | some k =>
      rw [Option.getD_some] at hown
      dsimp only [Option.getD_some]
      omega
  | mac =>
    dsimp only
    split_ifs <;> omega
  | _ => exact hpc

theorem System.steps_le (n : System) (a : Station LlcStateM) (b : Station LlcStateS) (id : ConnId) :
    n.steps a b id ≤ 21 := by
  cases id with
  | id0 => exact Station.steps_le a _ _ (by cases a.st <;> decide)
  | id1 => exact Station.steps_le b _ _ (by cases b.st <;> decide)

/-- **A step of the master's loop** is one of them, if what its call returns is intact. -/
theorem MMove.steps {o : List (Event LlcStateM)} (hmove : MMove a i a' o)
    (hcalled : Called a.macRecvTimeout .id0 i (transmitted o) n n')
    (hintact : ∀ d, n.ret .id0 = some (.recv (some d)) → stkTestPackChecksumm d = true) :
    n'.steps a' b .id0 < n.steps a b .id0 := by
  have hcall := hcalled.move
  simp only [System.steps, Station.steps]
  cases hmove with
  | start hp hst hsend hrecv | retry hp hst hsend hrecv =>
    simp [hp, hst, hrecv, LlcStateM.steps]
  | response hp hst hrecv hsend =>
    simp [hp, hst, hrecv, LlcStateM.steps]
  | timeout hp hst hrecv hsend =>
    simp [hp, hst, hrecv, hsend, LlcStateM.steps]
  | wait hp hst hrecv =>
    simp only [hp, hst, hrecv, LlcStateM.steps, Option.getD_none, Option.isSome_none, Bool.false_eq_true, if_false]
    split_ifs <;> omega
  | complete hp hst hsend hrecv =>
    simp [hp, hst, LlcStateM.steps]
  | call hp hst hrecv hresend hsend =>
    obtain ⟨hpc, hret⟩ := hcall.send_eq
    simp [hp, hsend, hpc, WlPc.steps]
  | listen hp hst hrecv hresend hsend =>
    obtain ⟨hpc, hret⟩ := hcall.listen_eq
    simp [hp, hsend, hpc, WlPc.steps]
  | sent hp hst hrecv =>
    obtain ⟨⟨hpc, hret⟩, -⟩ := hcall.sent_eq
    simp [hp, hst, hrecv, hpc, hret, WlPc.steps, WlRet.incoming, LlcStateM.steps]
  | @fail res hp hst hrecv hsend hresend hpacket =>
    obtain ⟨⟨hpc, hret⟩, -⟩ := hcall.received_eq
    cases res with
    | none => simp [hp, hst, hrecv, hsend, hpc, hret, WlPc.steps, WlRet.incoming, LlcStateM.steps]
    | some d =>
      rw [Input.packet, if_pos (hintact d hret)] at hpacket
      cases hpacket
  | @arrive res d hp hst hrecv hsend hresend hpacket =>
    obtain ⟨⟨hpc, hret⟩, -⟩ := hcall.received_eq
    obtain ⟨d', rfl⟩ : ∃ d', res = some d' := by
      cases res with
      | none => cases hpacket
      | some d' => exact ⟨d', rfl⟩
    simp [hp, hst, hpc, hret, WlPc.steps, WlRet.incoming, LlcStateM.steps]

/-- **A step of the slave's loop** is one of them, if no assertion fails. -/
theorem SMove.steps {o : List (Event LlcStateS)} (hmove : SMove b i b' o)
    (hcalled : Called b.macRecvTimeout .id1 i (transmitted o) n n')
    (hintact : ∀ d, n.ret .id1 = some (.recv (some d)) → stkTestPackChecksumm d = true)
    (hanswering : b.st = .sendAll → b.send.isSome = true) (hsilent : b'.stderr = []) :
    n'.steps a b' .id1 < n.steps a b .id1 := by
  have hcall := hcalled.move
  simp only [System.steps, Station.steps]
  cases hmove with
  | rest hp hst hrecv =>
    simp only [hp, hst, hrecv, LlcStateS.steps, Option.getD_none, Option.isSome_none, Bool.false_eq_true, if_false]
    split_ifs <;> omega
  | discard => simp at hsilent
  | again hp hst hrecv | accept hp hst hrecv =>
    simp [hp, hst, hrecv, LlcStateS.steps]
  | respond hp hst => simp [hp, hst, LlcStateS.steps]
  | finish hp hst hrecv => simp [hp, hst, hrecv, hanswering hst, LlcStateS.steps]
  | repeatLast hp hst hsend hrecv | echo hp hst hsend hrecv =>
    simp [hp, hst, hrecv, LlcStateS.steps]
  | call hp hst hrecv hsend =>
    obtain ⟨hpc, hret⟩ := hcall.send_eq
    simp [hp, hsend, hpc, WlPc.steps]
  | listen hp hst hrecv hsend =>
    obtain ⟨hpc, hret⟩ := hcall.listen_eq
    simp [hp, hsend, hpc, WlPc.steps]
  | sent hp hst hrecv =>
    obtain ⟨⟨hpc, hret⟩, -⟩ := hcall.sent_eq
    simp [hp, hst, hrecv, hpc, hret, WlPc.steps, WlRet.incoming, LlcStateS.steps]
  | @fail res hp hst hrecv hsend hpacket =>
    obtain ⟨⟨hpc, hret⟩, -⟩ := hcall.received_eq
    cases res with
    | none => simp [hp, hst, hrecv, hsend, hpc, hret, WlPc.steps, WlRet.incoming, LlcStateS.steps]
    | some d =>
      rw [Input.packet, if_pos (hintact d hret)] at hpacket
      cases hpacket
  | @arrive res d hp hst hrecv hsend hpacket =>
    obtain ⟨⟨hpc, hret⟩, -⟩ := hcall.received_eq
    obtain ⟨d', rfl⟩ : ∃ d', res = some d' := by
      cases res with
      | none => cases hpacket
      | some d' => exact ⟨d', rfl⟩
    simp [hp, hst, hpc, hret, WlPc.steps, WlRet.incoming, LlcStateS.steps]

/-- **A step of a call** is one of them, or sleeps. -/
theorem CalmTick.steps {g g' : WlEmulGlobal} {pc pc' : WlPc} {ret : Option WlRet} (h : CalmTick id t g g' pc pc' ret)
    (hb : pc.Blocks) : pc'.steps ret < pc.steps none ∨ pollTime ≤ pc.sleep := by
  have hpoll : pollTime ≤ airTime := by decide
  cases h with
  | @sendPut payload timeout =>
    have htimeout : timeout ≠ 0 := hb
    refine Or.inr ?_
    rw [WlPc.sleep, if_pos htimeout]
    exact hpoll
  | again hwait | expired hwait =>
    refine Or.inr ?_
    rw [WlPc.sleep, if_pos hwait]
  | dataRead =>
    refine Or.inl ?_
    simp only [WlPc.steps]
    split_ifs <;> omega
  | _ => exact Or.inl (by simp [WlPc.steps, WlRet.incoming])

/-! ## Runs against the clock -/

variable {slack time : Int} {c c' : Clocked System ConnId}

theorem System.turn_side (n : System) (id : ConnId) (t : WlTick) : (n.turn id t).side = id := by
  cases id with
  | id0 =>
    unfold System.turn
    cases n.m.turn (n.ret .id0) t.now₀ <;> rfl
  | id1 =>
    unfold System.turn
    cases n.s.turn (n.ret .id1) t.now₁ <;> rfl

theorem System.turn_pass {now : Timeval} (h : n.turn id t = .master (.pass now)) :
    n.m.turn (n.ret .id0) t.now₀ = some (.pass now) := by
  cases id with
  | id0 =>
    unfold System.turn at h
    cases hturn : n.m.turn (n.ret .id0) t.now₀ with
    | none =>
      rw [hturn] at h
      cases h
    | some i =>
      rw [hturn] at h
      cases h
      rfl
  | id1 =>
    unfold System.turn at h
    cases hturn : n.s.turn (n.ret .id1) t.now₁ with
    | none =>
      rw [hturn] at h
      cases h
    | some i =>
      rw [hturn] at h
      cases h

theorem System.turn_readings {r : Timeval} (h : r ∈ (n.turn id t).readings) : r = t.now₀ ∨ r = t.now₁ := by
  cases hi : n.turn id t with
  | master i =>
    rw [hi] at h
    cases i with
    | pass now =>
      rw [List.mem_singleton.mp h]
      exact Or.inl (Loop.turn_pass (System.turn_pass hi)).2
    | _ => cases h
  | slave i =>
    rw [hi] at h
    cases h
  | tick j t' =>
    obtain rfl : t' = t := by
      cases id with
      | id0 =>
        unfold System.turn at hi
        cases hturn : n.m.turn (n.ret .id0) t.now₀ <;> rw [hturn] at hi <;> cases hi
        rfl
      | id1 =>
        unfold System.turn at hi
        cases hturn : n.s.turn (n.ret .id1) t.now₁ <;> rw [hturn] at hi <;> cases hi
        rfl
    rw [hi] at h
    simpa [SystemInput.readings] using h

instance : Nonempty ConnId := ⟨.id0⟩

/-- **Time goes on**: the thread that wakes first may step, if the draws let `wl_shadow_worker` return. -/
theorem Punctual.goes (h : Punctual slack c a b) (hslack : 0 ≤ slack ∧ slack ≤ 2000)
    (hcurrent : ∀ x, c.clock ≤ c.wake x + slack)
    (hends : ∀ t, WlTick.Ends cfg t c.state.emul.devs) :
    ∃ i c' o, systemTiming.step slack (systemStep cfg) c i = some (c', o) := by
  obtain ⟨x, hx⟩ := systemTiming.exists_turn hslack.1 hcurrent
  generalize htime : max c.clock (c.wake x) = time at hx
  -- the reading of the clock at that time
  obtain ⟨now, hnormal, hnow⟩ : ∃ now : Timeval, now.Normal ∧ now.micros = time :=
    ⟨⟨time / 1000000, time % 1000000⟩, by dsimp only [Timeval.Normal]; omega, by dsimp only [Timeval.micros]; omega⟩
  have hallow : systemTiming.Allows slack c (c.state.turn x ⟨now, now, [], []⟩) time := by
    refine hx _ (System.turn_side _ _ _) (reads_iff.mpr fun r hr => ?_)
    obtain rfl : r = now := (System.turn_readings hr).elim id id
    exact ⟨hnormal, hnow.ge, hnow.le⟩
  obtain ⟨cm, hrm⟩ := h.ordered.master.rel
  have hsome : (systemStep cfg c.state (c.state.turn x ⟨now, now, [], []⟩)).isSome = true := by
    refine h.ordered.goes (fun _ => hends _) (h.expires hslack hallow fun now' hpass => ?_)
    rw [← hrm.place]
    exact (Loop.turn_pass (System.turn_pass hpass)).1
  obtain ⟨⟨n', o⟩, hs⟩ := Option.isSome_iff_exists.mp hsome
  exact ⟨(_, time), _, o, Timing.step_iff.mpr ⟨hallow, n', hs, rfl⟩⟩

theorem WlPc.sleep_le_air (pc : WlPc) : pc.sleep ≤ airTime := by
  rcases pc.sleep_le with hle | ⟨payload, timeout, rfl⟩
  · exact hle.trans (by decide)
  · unfold WlPc.sleep
    dsimp only
    split_ifs <;> unfold airTime <;> omega

theorem systemTiming_sleep_le (n : System) (i : SystemInput) : systemTiming.sleep n i ≤ airTime := by
  cases i with
  | tick id t => exact WlPc.sleep_le_air _
  | _ => exact (by decide : (0 : Int) ≤ airTime)

/-- What the steps of a run over a reliable channel have shown: packets are returned intact, no assertion has failed. -/
theorem Reliably.intact {os : List SystemEvent} {k j l : Nat} (h : Reliably (netEvents os) n.net k j l a b)
    (id : ConnId) (d : PackData) (hret : n.ret id = some (.recv (some d))) : stkTestPackChecksumm d = true := by
  have hin : n.inbuf id = some d := by
    rw [System.inbuf, hret]
    rfl
  cases id with
  | id0 => exact h.whole.intact .master d (Or.inr hin)
  | id1 => exact h.whole.intact .slave d (Or.inr hin)

/-- **One step of the threads** is paid for by its place before the next sleep, or by its own sleep. -/
theorem Pacing.steps {base : Int} {k : Nat} {i : SystemInput} {o : List SystemEvent} (h : Pacing slack base c k a b)
    (hslack : 0 ≤ slack ∧ slack ≤ 2000) (hallow : systemTiming.Allows slack c i time)
    (hs : systemStep cfg c.state i = some (n', o)) (honce : n'.m.llcState ≠ .resend) (hsilent : n'.s.tsm.stderr = [])
    (hintact : ∀ id d, c.state.ret id = some (.recv (some d)) → stkTestPackChecksumm d = true) :
    ∃ a' b', Pacing slack base (systemTiming.next c i time n') (k + (entered .idle (systemMaster o)).length) a' b' ∧
      (∀ x, x ≠ i.side → n'.steps a' b' x = c.state.steps a b x) ∧
      (n'.steps a' b' i.side < c.state.steps a b i.side ∨ pollTime ≤ systemTiming.sleep c.state i) := by
  obtain ⟨a', b', h', hadvance⟩ := h.next hslack hallow hs honce
  obtain ⟨cs, hrs⟩ := h'.punctual.ordered.slave.rel
  refine ⟨a', b', h', ?_⟩
  have hblocks := h.punctual.blocking
  have hanswering := h.punctual.answering
  have hordered := h.punctual.ordered
  cases hadvance with
  | @master i a' o hmove hlate hcalled hflight =>
    obtain ⟨hpc, hret⟩ := hcalled.other .id1 (by decide)
    refine ⟨fun x hx => ?_, Or.inl (hmove.steps hcalled (hintact .id0))⟩
    cases x with
    | id0 => exact absurd rfl hx
    | id1 => simp only [System.steps, hpc, hret]
  | @slave i b' o hmove hcalled hpackets =>
    obtain ⟨hpc, hret⟩ := hcalled.other .id0 (by decide)
    have hsilent' : b'.stderr = [] := hrs.stderr.symm.trans hsilent
    refine ⟨fun x hx => ?_, Or.inl (hmove.steps hcalled (hintact .id1) hanswering hsilent')⟩
    cases x with
    | id0 => simp only [System.steps, hpc, hret]
    | id1 => exact absurd rfl hx
  | @tick id t o hmove hret hflight =>
    obtain ⟨hin, htick, hothers⟩ := hordered.calm_tick hmove hret
    refine ⟨fun x hx => ?_, ?_⟩
    · obtain ⟨hpc, hret⟩ := hothers x hx
      cases x <;> simp only [System.steps, hpc, hret]
    · refine (htick.steps (hblocks id)).imp_left fun hlt => ?_
      cases id with
      | id0 =>
        have hnone := hordered.masterCall.inside hin
        rcases hordered.masterCall.within hin with ⟨hp, -⟩ | ⟨hp, -⟩ <;>
          simpa only [System.steps, Station.steps, hp, hnone, SystemInput.side] using hlt
      | id1 =>
        have hnone := hordered.slaveCall.inside hin
        rcases hordered.slaveCall.within hin with ⟨hp, -⟩ | ⟨hp, -⟩ <;>
          simpa only [System.steps, Station.steps, hp, hnone, SystemInput.side] using hlt

/-- **The length of a run** in the time that it has taken. -/
theorem timedRun_length {tm ts : Tsm} {n₀ : System} {base delay : Int} {is : List (SystemInput × Int)}
    {os : List SystemEvent} (hcfg : cfg.losePackets = false ∧ cfg.errData = false)
    (hnet : netStart tm ts = some n₀.net) (hair : SealedAir n₀) (hdelay : 0 ≤ delay) (hslack : 0 ≤ slack ∧ slack ≤ 2000)
    (h : Pacing slack base (clockedStart n₀ time delay) 0 a b)
    (hr : run (systemTiming.step slack (systemStep cfg)) (clockedStart n₀ time delay) is = some (c, os)) :
    is.length * pollTime ≤ 44 * (c.clock - time + airTime) + 42 * pollTime := by
  have hstart : ∀ x, time ≤ (clockedStart n₀ time delay).wake x := by
    intro x
    cases x <;> simp only [clockedStart] <;> omega
  have hcount : ∃ rank, (run (systemTiming.step slack (systemStep cfg)) (clockedStart n₀ time delay) is = some (c, os) ∧
      ∃ a b, Pacing slack base c (entered .idle (systemMaster os)).length a b ∧ rank = c.state.steps a b ∧
        ∀ x, c.wake x - (clockedStart n₀ time delay).wake x ≤ c.clock - time + airTime) ∧
      is.length * pollTime ≤ Timing.credit pollTime 21 (clockedStart n₀ time delay).wake c rank := by
    refine Timing.length_le (I := fun is os c rank =>
      run (systemTiming.step slack (systemStep cfg)) (clockedStart n₀ time delay) is = some (c, os) ∧
        ∃ a b, Pacing slack base c (entered .idle (systemMaster os)).length a b ∧ rank = c.state.steps a b ∧
          ∀ x, c.wake x - (clockedStart n₀ time delay).wake x ≤ c.clock - time + airTime)
      (by decide : 0 ≤ pollTime) ?_
      ⟨rfl, a, b, h, rfl, fun x => by simp [clockedStart, airTime]⟩ (System.steps_le _ _ _) hr
    rintro is os c rank i t n' o ⟨hr, a, b, hpacing, rfl, hslept⟩ hallow hs
    have hr' : run (systemTiming.step slack (systemStep cfg)) (clockedStart n₀ time delay) (is ++ [(i, t)]) =
        some (systemTiming.next c i t n', os ++ o) :=
      run_snoc.mpr ⟨c, os, o, hr, Timing.step_iff.mpr ⟨hallow, n', hs, rfl⟩, rfl⟩
    obtain ⟨_, _, _, _, _, hbefore⟩ := timedRun_reliable hcfg hnet hair h.punctual hslack hr
    obtain ⟨_, _, _, _, _, hafter⟩ := timedRun_reliable hcfg hnet hair h.punctual hslack hr'
    obtain ⟨cm, hrm⟩ := hafter.joint.master.rel
    obtain ⟨cs, hrs⟩ := hafter.joint.slave.rel
    obtain ⟨a', b', hnext, hother, hstep⟩ := hpacing.steps hslack hallow hs
      (fun hst => hafter.whole.once.1 (hrm.st.symm.trans hst)) (hrs.stderr.trans hafter.joint.agreeing.silent.2)
      hbefore.intact
    refine ⟨systemTiming_sleep_nonneg _ _, n'.steps a' b', ⟨hr', a', b', ?_, rfl, fun x => ?_⟩, hother,
      System.steps_le _ _ _ _, hstep⟩
    · rw [systemMaster_append, entered_append, List.length_append]
      exact hnext
    · have hclock := hallow.clock_le
      by_cases hx : x = systemTiming.actor i
      · subst hx
        have hsleep := systemTiming_sleep_le c.state i
        have hfirst := hstart (systemTiming.actor i)
        rw [Timing.next_wake, Timing.next_clock]
        omega
      · have hbound := hslept x
        rw [Timing.next_wake_of_ne hx, Timing.next_clock]
        omega
  obtain ⟨rank, ⟨-, -, -, -, -, hslept⟩, hlength⟩ := hcount
  have hsum : ∀ x, (21 + 1) * (c.wake x - (clockedStart n₀ time delay).wake x) + (21 - rank x) * pollTime ≤
      22 * (c.clock - time + airTime) + 21 * pollTime := by
    intro x
    have hbound := hslept x
    unfold pollTime
    omega
  have htotal : Timing.credit pollTime 21 (clockedStart n₀ time delay).wake c rank ≤
      ∑ _x : ConnId, (22 * (c.clock - time + airTime) + 21 * pollTime) := Finset.sum_le_sum fun x _ => hsum x
  rw [Finset.sum_const, show (Finset.univ : Finset ConnId).card = 2 from rfl, nsmul_eq_mul] at htotal
  omega

/-- **The stack is live.** Over an emulator that loses and damages nothing, one of the threads can always take a step,
and the steps that they have taken are bounded by the transactions that they have completed. -/
theorem live (cfg : WlConfig) (tm ts : Tsm) (g : WlEmulGlobal) (time delay slack : Int)
    (hcfg : cfg.losePackets = false ∧ cfg.errData = false) (hdelay : 0 ≤ delay) (hslack : 0 ≤ slack ∧ slack ≤ 2000) :
    ∃ n₀, systemStart tm ts g = some n₀ ∧
      ∀ (is : List (SystemInput × Int)) (c : Clocked System ConnId) (os : List SystemEvent),
        run (systemTiming.step slack (systemStep cfg)) (clockedStart n₀ time delay) is = some (c, os) →
        (∃ i c' o, systemTiming.step slack (systemStep cfg) c i = some (c', o)) ∧
          is.length * pollTime ≤ 44 * (airTime + delay +
            ((entered .idle (systemMaster os)).length + 1) * (2 * airTime + 4 * pollTime + 45 * slack)) +
            42 * pollTime := by
  obtain ⟨n₀, hstart, hnet, hair, hpunctual⟩ := timedStart tm ts g time delay slack
  refine ⟨n₀, hstart, fun is c os hr => ?_⟩
  have hpacing := Pacing.start hslack.1 hdelay hpunctual
  obtain ⟨a, b, hpacing'⟩ := timedRun_pacing hcfg hnet hair hslack hpacing hr
  refine ⟨hpacing'.punctual.goes hslack hpacing'.current fun t _ _ => drawsEnd_intact hcfg _, ?_⟩
  have hclock := timedRun_clock hcfg hnet hair hslack hpacing hr
  have hlength := timedRun_length hcfg hnet hair hdelay hslack hpacing hr
  rw [← transactionTime_eq]
  omega

/-- A transaction is well within the bound. -/
theorem live_clean : ∃ n₀ c os, systemStart Tsm.zeroed Tsm.zeroed .zeroed = some n₀ ∧
    run (systemTiming.step 2000 (systemStep .clean)) (clockedStart n₀ 0 0) firstTransaction = some (c, os) ∧
    entered .idle (systemMaster os) = [1] ∧
    (∃ i c' o, systemTiming.step 2000 (systemStep .clean) c i = some (c', o)) ∧
    firstTransaction.length * pollTime ≤ 44 * (airTime + 0 + (1 + 1) * 330000) + 42 * pollTime := by
  have heval : (systemStart Tsm.zeroed Tsm.zeroed .zeroed).bind (fun n₀ =>
      (run (systemTiming.step 2000 (systemStep .clean)) (clockedStart n₀ 0 0) firstTransaction).map fun r =>
        entered .idle (systemMaster r.2)) = some [1] := by decide +kernel
  obtain ⟨n₀, h₀, hrun⟩ := Option.bind_eq_some_iff.mp heval
  obtain ⟨⟨c, os⟩, hr, hidle⟩ := Option.map_eq_some_iff.mp hrun
  obtain ⟨n₁, h₁, hall⟩ := live .clean Tsm.zeroed Tsm.zeroed .zeroed 0 0 2000 ⟨rfl, rfl⟩ (by decide) (by decide)
  cases h₀.symm.trans h₁
  obtain ⟨hgoes, hlength⟩ := hall _ _ _ hr
  rw [hidle] at hlength
  exact ⟨n₀, c, os, h₀, hr, hidle, hgoes, hlength⟩

end LoraBridge
