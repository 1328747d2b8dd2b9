import LoraBridge.Calls

/-!
# Half-duplex

Nobody enforces that one side speaks at a time. It follows from the turns: the packets that the stations hold and those
in flight are one at most (`Ordered.turn`), and the emulator counts no error for a single packet (`stack_half_duplex`).
-/

set_option autoImplicit false

namespace LoraBridge

open Transducer

variable {cfg : WlConfig} {id : ConnId} {n n' : System}

/-! ## The invariant -/

/-- The loops keep to their stations, the calls to the loops, and all packets together are one at most. -/
structure Ordered (n : System) (a : Station LlcStateM) (b : Station LlcStateS) : Prop where
  master : MRel n.m a
  slave : SRel n.s b
  masterId : a.id = 0 ∧ a.macRecvTimeout ≠ 0
  slaveId : b.id = 1 ∧ b.macRecvTimeout ≠ 0
  calm : Calm n.emul
  turn : Turn (b.load + b.due + n.flight) a
  masterCall : Fits a.place (n.emul.pc .id0) (n.ret .id0)
  slaveCall : Fits b.place (n.emul.pc .id1) (n.ret .id1)

variable {a a' : Station LlcStateM} {b b' : Station LlcStateS} {i : Input}

theorem lane_quiet {g : WlEmulGlobal} (h : ∀ id, (g.dev id).outputBuff.isSend = true ∧
    (g.dev id).inputBuff.isRecieved = false) (id : ConnId) : g.lane id = 0 := by
  simp [WlEmulGlobal.lane, (h id).1, (h id.other).2]

/-- A call that is no send carries a packet only if it has copied one. -/
theorem WlPc.carried_receive {pc : WlPc} (hs : pc.sends = false) (hc : ∀ d, pc ≠ .recvCheck d) : pc.carried = 0 := by
  cases pc with
  | recvCheck d => exact absurd rfl (hc d)
  | _ => first | rfl | exact absurd hs.symm Bool.false_ne_true

theorem System.copied_false (h : n.copied = false) :
    (∀ d, n.emul.pc .id1 ≠ .recvCheck d) ∧ ∀ d, n.ret .id1 ≠ some (.recv (some d)) := by
  rw [System.copied, Bool.or_eq_false_iff] at h
  constructor
  · intro d hd
    rw [hd] at h
    cases h.1
  · intro d hd
    rw [hd] at h
    cases h.2

theorem Ordered.still (h : Ordered n a b) (hplace : a.place = .llc) (hq : n.still = true) :
    a.send = none ∧ b.load + b.due + n.flight = 0 := by
  obtain ⟨cm, hrm⟩ := h.master.rel
  obtain ⟨cs, hrs⟩ := h.slave.rel
  simp only [System.still, System.quiet, hrm.hasPackToSend, hrm.hasReceivedPack, hrs.hasPackToSend,
    hrs.hasReceivedPack, hrs.st, Bool.and_eq_true, Bool.not_eq_eq_eq_not, Bool.not_true, Option.isSome_eq_false_iff,
    Option.isNone_iff_eq_none, decide_eq_true_eq, List.all_cons, List.all_nil] at hq
  obtain ⟨⟨⟨⟨⟨⟨hsend, -⟩, hbsend⟩, hbrecv⟩, hst⟩, hbuff₀, hbuff₁, -⟩, hcopied⟩ := hq
  obtain ⟨hcheck, hret⟩ := System.copied_false hcopied
  have hlane := lane_quiet (g := n.emul.devs) (fun id => by cases id <;> assumption)
  have hmaster : (n.emul.pc .id0).carried = 0 ∧ retPackets (n.ret .id0) = 0 := by
    have hcall := h.masterCall
    rw [hplace] at hcall
    exact ⟨by rw [hcall.1]; rfl, by rw [hcall.2]; rfl⟩
  have hslave : (n.emul.pc .id1).carried = 0 ∧ retPackets (n.ret .id1) = 0 := by
    have hcall := h.slaveCall
    cases hp : b.place with
    | sending =>
      have hinv := h.slave.inv
      simp only [SInv, hp, hst, hbsend] at hinv
      cases hinv.1
    | receiving =>
      rw [hp] at hcall
      rcases hcall with ⟨hr, hnone⟩ | ⟨hout, res, hsome⟩
      · refine ⟨WlPc.carried_receive ?_ hcheck, by rw [hnone]; rfl⟩
        exact Bool.eq_false_iff.mpr fun hs => WlPc.not_both hs hr
      · cases res with
        | none => exact ⟨by rw [hout]; rfl, by rw [hsome]; rfl⟩
        | some d => exact absurd hsome (hret d)
    | llc =>
      rw [hp] at hcall
      exact ⟨by rw [hcall.1]; rfl, by rw [hcall.2]; rfl⟩
    | mac =>
      rw [hp] at hcall
      exact ⟨by rw [hcall.1]; rfl, by rw [hcall.2]; rfl⟩
  refine ⟨hsend, ?_⟩
  simp [Station.load, Station.due, System.flight, Emul.flight, hbsend, hbrecv, hst, hlane, hmaster.1, hmaster.2,
    hslave.1, hslave.2]

theorem connId_eq {id : Byte} {j : ConnId} (h : id = if j = .id0 then 0 else 1) : connId id = some j := by
  subst h
  cases j <;> rfl

/-- What a step of the system does: a move of a loop, with its call, or one of the emulator. Packets appear only where
the master hands one to the radio. -/
inductive Advance (cfg : WlConfig) (n n' : System) (a : Station LlcStateM) (b : Station LlcStateS) :
    SystemInput → List SystemEvent → Station LlcStateM → Station LlcStateS → Prop
  | master {i : Input} {a' : Station LlcStateM} {o : List (Event LlcStateM)} : MMove a i a' o →
      (a'.st = .resend → b.load + b.due + n.flight = 0) →
      Called a.macRecvTimeout .id0 i (transmitted o) n n' → n'.flight ≤ n.flight + (transmitted o).length →
      Advance cfg n n' a b (.master i) (o.map .master) a' b
  | slave {i : Input} {b' : Station LlcStateS} {o : List (Event LlcStateS)} : SMove b i b' o →
      Called b.macRecvTimeout .id1 i (transmitted o) n n' →
      b'.load + b'.due + n'.flight ≤ b.load + b.due + n.flight → Advance cfg n n' a b (.slave i) (o.map .slave) a b'
  | tick {id : ConnId} {t : WlTick} {o : List WlEvent} : WlMove cfg n.emul (.tick id t) n'.emul o →
      n'.ret = setReturned n.ret o → n'.flight ≤ n.flight → Advance cfg n n' a b (.tick id t) (o.map .emul) a b

theorem Ordered.advance {i : SystemInput} {o : List SystemEvent} (h : Ordered n a b) (hi : ExpiresWhen System.still n i)
    (hs : systemStep cfg n i = some (n', o)) :
    (∃ a' b', Ordered n' a' b' ∧ Advance cfg n n' a b i o a' b') ∧ ∀ x, .emul x ∈ o → x.isError = false := by
  obtain ⟨hone, hidle⟩ := h.turn
  cases i with
  | master j =>
    simp only [systemStep, Option.bind_eq_bind, Option.bind_eq_some_iff, Prod.exists, Option.pure_def,
      Option.some.injEq, Prod.mk.injEq] at hs
    obtain ⟨m, om, hm, n₁, hradio, rfl, rfl⟩ := hs
    obtain ⟨cm, hrm⟩ := h.master.rel
    obtain ⟨a', hrel, hmove, hlate⟩ := h.master.move (r := b.load + b.due + n.flight) hm (by
      rintro now rfl hplace hst hrecv hexp
      exact h.still hplace (hi hst hrecv hexp))
    obtain ⟨c', hr'⟩ := hrel.rel
    obtain ⟨hplaces, htx⟩ := hmove.places
    obtain ⟨hid, htimeout⟩ := hmove.fixed
    have hserved := System.radio_served (p := a.place) (by rw [hr'.place]; exact hplaces)
      (connId_eq (j := .id0) (by rw [hr'.id, hid, h.masterId.1]; rfl))
      (by rw [hr'.macRecvTimeout, htimeout]; exact h.masterId.2) h.masterCall h.calm (by omega) hradio
    obtain ⟨hfits, hother, hcalm, hflight, hloops⟩ := hserved
    obtain ⟨hcalled, -⟩ := System.radio_calls (by rw [hr'.place]; exact hplaces)
      (connId_eq (j := .id0) (by rw [hr'.id, hid, h.masterId.1]; rfl)) h.masterCall hradio
    rw [hr'.place] at hfits
    rw [hr'.macRecvTimeout, htimeout] at hcalled
    refine ⟨⟨a', b, ⟨hrel, by rw [hloops.2]; exact h.slave, by rw [hid, htimeout]; exact h.masterId, h.slaveId, hcalm,
      ?_, hfits, ?_⟩, .master hmove hlate ⟨hcalled.move, hcalled.devs, hcalled.other⟩ ?_⟩, by simp⟩
    · exact hmove.turn h.turn hlate (by simp only [System.flight] at hflight ⊢; omega)
    · obtain ⟨hpc, hret⟩ := hother .id1 (by decide)
      rw [hpc, hret]
      exact h.slaveCall
    · simp only [System.flight] at hflight ⊢
      omega
  | slave j =>
    simp only [systemStep, Option.bind_eq_bind, Option.bind_eq_some_iff, Prod.exists, Option.pure_def,
      Option.some.injEq, Prod.mk.injEq] at hs
    obtain ⟨s, os, hs, n₁, hradio, rfl, rfl⟩ := hs
    obtain ⟨b', hrel, hmove⟩ := h.slave.move hs
    obtain ⟨c', hr'⟩ := hrel.rel
    obtain ⟨hplaces, htx⟩ := hmove.places
    obtain ⟨hid, htimeout⟩ := hmove.fixed
    have hserved := System.radio_served (p := b.place) (by rw [hr'.place]; exact hplaces)
      (connId_eq (j := .id1) (by rw [hr'.id, hid, h.slaveId.1]; rfl))
      (by rw [hr'.macRecvTimeout, htimeout]; exact h.slaveId.2) h.slaveCall h.calm (by omega) hradio
    obtain ⟨hfits, hother, hcalm, hflight, hloops⟩ := hserved
    obtain ⟨hcalled, -⟩ := System.radio_calls (by rw [hr'.place]; exact hplaces)
      (connId_eq (j := .id1) (by rw [hr'.id, hid, h.slaveId.1]; rfl)) h.slaveCall hradio
    have hload := hmove.load
    have hrest : b'.load + b'.due + ({ n₁ with s := s } : System).flight ≤ b.load + b.due + n.flight := by
      simp only [System.flight] at hflight ⊢
      omega
    rw [hr'.place] at hfits
    rw [hr'.macRecvTimeout, htimeout] at hcalled
    refine ⟨⟨a, b', ⟨by rw [hloops.1]; exact h.master, hrel, h.masterId, by rw [hid, htimeout]; exact h.slaveId, hcalm,
      h.turn.mono hrest, ?_, hfits⟩, .slave hmove ⟨hcalled.move, hcalled.devs, hcalled.other⟩ hrest⟩, by simp⟩
    obtain ⟨hpc, hret⟩ := hother .id0 (by decide)
    rw [hpc, hret]
    exact h.masterCall
  | tick id t =>
    simp only [systemStep, Option.bind_eq_bind, Option.bind_eq_some_iff, Prod.exists, Option.pure_def,
      Option.some.injEq, Prod.mk.injEq] at hs
    obtain ⟨e', o, he, rfl, rfl⟩ := hs
    have hmove := emulStep_move he
    have hflights : n.emul.flight ≤ n.flight := Nat.le_add_right ..
    obtain ⟨hcalm, herrors, hflight⟩ := hmove.calm h.calm
      (by simp only [WlInput.brought]; omega) (by simp)
    have hcall : Fits (if id = .id0 then a.place else b.place) (n.emul.pc id) (n.ret id) := by
      cases id
      · exact h.masterCall
      · exact h.slaveCall
    obtain ⟨hfits, hpackets, hother⟩ := hmove.fits hcall
    have hfewer : ({ n with emul := e', ret := setReturned n.ret o } : System).flight ≤ n.flight := by
      have hsum := ret_sum n.ret id
      have hsum' := ret_sum (setReturned n.ret o) id
      rw [(hother id.other (ConnId.other_ne id)).2] at hsum'
      simp only [System.flight, WlInput.brought] at hflight ⊢
      omega
    refine ⟨⟨a, b, ⟨h.master, h.slave, h.masterId, h.slaveId, hcalm, h.turn.mono (by omega), ?_, ?_⟩,
      .tick hmove rfl hfewer⟩, ?_⟩
    · cases id with
      | id0 => exact hfits
      | id1 =>
        obtain ⟨hpc, hret⟩ := hother .id0 (by decide)
        simpa only [hpc, hret] using h.masterCall
    · cases id with
      | id0 =>
        obtain ⟨hpc, hret⟩ := hother .id1 (by decide)
        simpa only [hpc, hret] using h.slaveCall
      | id1 => exact hfits
    · intro x hx
      simp only [List.mem_map, SystemEvent.emul.injEq, exists_eq_right] at hx
      rw [errors, List.countP_eq_zero] at herrors
      exact Bool.eq_false_iff.mpr (herrors x hx)

theorem Ordered.step {i : SystemInput} {o : List SystemEvent} (h : Ordered n a b) (hi : ExpiresWhen System.still n i)
    (hs : systemStep cfg n i = some (n', o)) :
    (∃ a' b', Ordered n' a' b') ∧ ∀ x, .emul x ∈ o → x.isError = false := by
  obtain ⟨⟨a', b', hnext, -⟩, ho⟩ := h.advance hi hs
  exact ⟨⟨a', b', hnext⟩, ho⟩

/-! ## Half-duplex -/

/-- One side at a time: at most one packet in the whole system, never one in the air from either side, and nothing that
the emulator counts as an error. -/
structure HalfDuplex (n : System) (os : List SystemEvent) : Prop where
  err : n.emul.devs.err = 0
  packets : ∃ cm cs, Linked n.m.tsm cm ∧ Linked n.s.tsm cs ∧ n.packets cm cs ≤ 1
  air : (n.emul.devs.dev .id0).outputBuff.isSend = true ∨ (n.emul.devs.dev .id1).outputBuff.isSend = true
  /-- no send has found its previous packet unsent, no packet a full input buffer, no receive nothing to read -/
  errors : ∀ x, .emul x ∈ os → x.isError = false

theorem Rel.queued {σ : Type} {c : Lists} {l : Loop σ} {a : Station σ} (h : Rel c l a) : l.queued c = a.load := by
  have hsend := congrArg List.length h.send
  have hrecv := congrArg List.length h.recv
  rw [List.length_map] at hsend hrecv
  rw [Loop.queued, Station.load, hsend, hrecv, ← h.place]
  cases l.pc <;> rfl

theorem Ordered.halfDuplex {os : List SystemEvent} (h : Ordered n a b) (hos : ∀ x, .emul x ∈ os → x.isError = false) :
    HalfDuplex n os := by
  obtain ⟨cm, hrm⟩ := h.master.rel
  obtain ⟨cs, hrs⟩ := h.slave.rel
  obtain ⟨hone, -⟩ := h.turn
  refine ⟨h.calm.err, ⟨cm, cs, hrm.linked, hrs.linked, ?_⟩, ?_, hos⟩
  · rw [System.packets, hrm.queued, hrs.queued]
    omega
  · have hlanes : n.emul.devs.lane .id0 + n.emul.devs.lane .id1 ≤ 1 := by
      rw [System.flight, Emul.flight] at hone
      omega
    cases h₀ : (n.emul.devs.dev .id0).outputBuff.isSend with
    | true => exact Or.inl rfl
    | false =>
      cases h₁ : (n.emul.devs.dev .id1).outputBuff.isSend with
      | true => exact Or.inr rfl
      | false =>
        simp only [WlEmulGlobal.lane, h₀, h₁, Bool.not_false, Bool.toNat_true] at hlanes
        omega

theorem Ordered.start {m : Loop LlcStateM} {s : Loop LlcStateS} {tm ts : Tsm} (g : WlEmulGlobal)
    (hm : MRel m (mStationStart tm)) (hs : SRel s (sStationStart ts)) :
    Ordered ⟨m, s, emulStart g, fun _ => none⟩ (mStationStart tm) (sStationStart ts) where
  master := hm
  slave := hs
  masterId := ⟨rfl, by simp only [mStationStart]; decide⟩
  slaveId := ⟨rfl, by simp only [sStationStart]; decide⟩
  calm := ⟨fun _ => rfl, fun id h => (by rcases h with h | ⟨w, h⟩ <;> cases h), rfl⟩
  turn := by
    have hflight : System.flight ⟨m, s, emulStart g, fun _ => none⟩ = 0 := rfl
    rw [hflight]
    exact ⟨Nat.zero_le 1, fun _ => rfl⟩
  masterCall := ⟨rfl, rfl⟩
  slaveCall := ⟨rfl, rfl⟩

/-- **The stack is half-duplex.** In every run of the two loops over the emulator, in any order of their steps,
whatever gets lost or damaged, as long as the master's timer is read as expired only when all is quiet and no packet is
just being received. -/
theorem stack_half_duplex (cfg : WlConfig) (tm ts : Tsm) (g : WlEmulGlobal) :
    ∃ n₀, systemStart tm ts g = some n₀ ∧
      ∀ (is : List SystemInput) (n : System) (os : List SystemEvent), run (systemStep cfg) n₀ is = some (n, os) →
        Along (systemStep cfg) (ExpiresWhen System.still) n₀ is → HalfDuplex n os := by
  obtain ⟨m, hm, hmrel⟩ := mStart_rel tm
  obtain ⟨s, hs, hsrel⟩ := sStart_rel ts
  refine ⟨_, by simp only [systemStart, hm, hs]; rfl, fun is n os hr halong => ?_⟩
  obtain ⟨⟨a, b, hordered⟩, hos⟩ := run_induct_along
    (P := fun _ os n => (∃ a b, Ordered n a b) ∧ ∀ x, .emul x ∈ os → x.isError = false)
    ⟨⟨_, _, Ordered.start g hmrel hsrel⟩, nofun⟩
    (fun _ os n i n' o ⟨⟨a, b, h⟩, hos⟩ hi hs => by
      obtain ⟨hnext, ho⟩ := h.step hi hs
      exact ⟨hnext, fun x hx => (List.mem_append.mp hx).elim (hos x) (ho x)⟩) hr halong
  exact hordered.halfDuplex hos

/-- `k` steps of the side when the clock reads `ms` milliseconds and `rand_r` returns `draws`. -/
def ticksAt (id : ConnId) (k : Nat) (ms : Int) (draws : List Draw) : List SystemInput :=
  List.replicate k (.tick id ⟨⟨0, ms * 1000⟩, ⟨0, ms * 1000⟩, draws, draws⟩)

def masterPasses (k : Nat) (ms : Int) : List SystemInput := List.replicate k (.master (.pass ⟨0, ms * 1000⟩))

def slavePasses (k : Nat) : List SystemInput := List.replicate k (.slave (.pass ⟨0, 0⟩))

/-- The first request is lost, the second one damaged, and the third one answered. -/
def noisyInputs : List SystemInput :=
  let f := singleFrame 1
  let bad : PackData := f.set stkPHeaderL1 (f.get stkPHeaderL1 ^^^ 1) stkPHeaderL1_lt
  let lose : List Draw := [0]
  let damage : List Draw := [Fin.last _, 0, 0, Fin.last _]
  let keep : List Draw := [Fin.last _, Fin.last _]
  List.flatten [
    masterPasses 2 0, [.master .call], ticksAt .id0 3 0 [], ticksAt .id0 2 100 lose, [.master .sent],
    masterPasses 3 300, [.master .call], ticksAt .id0 3 300 [], ticksAt .id0 2 400 damage, [.master .sent],
    slavePasses 1, [.slave .call], ticksAt .id1 6 400 [], [.slave (.received (some bad))],
    masterPasses 3 600, [.master .call], ticksAt .id0 3 600 [], ticksAt .id0 2 700 keep, [.master .sent],
    slavePasses 1, [.slave .call], ticksAt .id1 6 700 [], [.slave (.received (some f))],
    slavePasses 4, [.slave .call], ticksAt .id1 3 700 [], ticksAt .id1 2 800 keep, [.slave .sent],
    masterPasses 1 800, [.master .call], ticksAt .id0 6 800 [], [.master (.received (some f))],
    masterPasses 2 800]

def WlConfig.noisy : WlConfig := ⟨true, 10, true, 2, 80⟩

def systemMaster (os : List SystemEvent) : List (Event LlcStateM) :=
  os.filterMap fun
    | .master e => some e
    | _ => none

theorem stack_half_duplex_noisy : ∃ n₀ n os, systemStart Tsm.zeroed Tsm.zeroed .zeroed = some n₀ ∧
    run (systemStep .noisy) n₀ noisyInputs = some (n, os) ∧
    transmitted (systemMaster os) = List.replicate 3 (singleFrame 1) ∧
    entered .idle (systemMaster os) = [1] ∧ HalfDuplex n os := by
  have heval : (systemStart Tsm.zeroed Tsm.zeroed .zeroed).bind (fun n₀ =>
      (run (systemStep .noisy) n₀ noisyInputs).map fun r =>
        (checkAlong (systemStep .noisy) (fun n i => decide (ExpiresWhen System.still n i)) n₀ noisyInputs,
          transmitted (systemMaster r.2), entered .idle (systemMaster r.2))) =
      some (true, List.replicate 3 (singleFrame 1), [1]) := by decide +kernel
  obtain ⟨n₀, h₀, hrun⟩ := Option.bind_eq_some_iff.mp heval
  obtain ⟨⟨n, os⟩, hr, hfacts⟩ := Option.map_eq_some_iff.mp hrun
  simp only [Prod.mk.injEq] at hfacts
  obtain ⟨n₁, h₁, hall⟩ := stack_half_duplex .noisy Tsm.zeroed Tsm.zeroed .zeroed
  cases h₀.symm.trans h₁
  exact ⟨n₀, n, os, h₀, hr, hfacts.2.1, hfacts.2.2, hall _ _ _ hr (along_of_check hfacts.1)⟩

/-- The slave's receive has copied the request when the timer expires. The request is sent again while the slave
answers, and the next one finds the slave's input buffer full. -/
def copiedInputs : List SystemInput :=
  let f := singleFrame 1
  List.flatten [
    masterPasses 2 0, [.master .call], ticksAt .id0 3 0 [], ticksAt .id0 2 100 [], [.master .sent],
    slavePasses 1, [.slave .call], ticksAt .id1 5 100 [],
    masterPasses 3 300, [.master .call], ticksAt .id0 3 300 [],
    ticksAt .id1 1 300 [], [.slave (.received (some f))], slavePasses 4, [.slave .call], ticksAt .id1 3 300 [],
    ticksAt .id0 2 400 [], [.master .sent],
    masterPasses 1 400, [.master .call], ticksAt .id0 6 400 [], [.master (.received (some f))],
    masterPasses 4 400, [.master .call], ticksAt .id0 3 400 [], ticksAt .id0 1 500 []]

theorem stack_errs_on_copied : ∃ n₀ n os, systemStart Tsm.zeroed Tsm.zeroed .zeroed = some n₀ ∧
    run (systemStep .clean) n₀ copiedInputs = some (n, os) ∧
    Along (systemStep .clean) (ExpiresWhen System.quiet) n₀ copiedInputs ∧ n.emul.devs.err = 1 ∧ ¬ HalfDuplex n os := by
  have heval : (systemStart Tsm.zeroed Tsm.zeroed .zeroed).bind (fun n₀ =>
      (run (systemStep .clean) n₀ copiedInputs).map fun r =>
        (checkAlong (systemStep .clean) (fun n i => decide (ExpiresWhen System.quiet n i)) n₀ copiedInputs,
          r.1.emul.devs.err)) = some (true, 1) := by decide +kernel
  obtain ⟨n₀, h₀, hrun⟩ := Option.bind_eq_some_iff.mp heval
  obtain ⟨⟨n, os⟩, hr, hfacts⟩ := Option.map_eq_some_iff.mp hrun
  simp only [Prod.mk.injEq] at hfacts
  refine ⟨n₀, n, os, h₀, hr, along_of_check hfacts.1, hfacts.2, fun hhalf => ?_⟩
  have herr := hhalf.err
  rw [hfacts.2] at herr
  cases herr

end LoraBridge
