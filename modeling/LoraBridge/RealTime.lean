import LoraBridge.InTime
import LoraBridge.Sealed

/-!
# The stack in real time

What the results on the stack over the emulator come to when its steps are taken against a clock. The timer of the
master is long enough (`timer_suffices`), so nothing has to be assumed of it any more: the stack is half-duplex and the
parties agree (`timed_agreement`), and over an emulator that loses and damages nothing no packet is sent twice
(`lossless_first_try`).
-/

set_option autoImplicit false

namespace LoraBridge

open Transducer

variable {cfg : WlConfig} {n n' : System} {g g' : WlEmulGlobal} {slack : Int}

/-! ## Long enough -/

/-- A run against the clock is one of the system, and keeps to the timer. -/
theorem timedRun_along {n₀ : System} {a : Station LlcStateM} {b : Station LlcStateS} {time delay : Int}
    {is : List (SystemInput × Int)} {c : Clocked System ConnId} {os : List SystemEvent}
    (h : Punctual slack (clockedStart n₀ time delay) a b) (hslack : 0 ≤ slack ∧ slack ≤ 2000)
    (hr : run (systemTiming.step slack (systemStep cfg)) (clockedStart n₀ time delay) is = some (c, os)) :
    run (systemStep cfg) n₀ (is.map Prod.fst) = some (c.state, os) ∧
      Along (systemStep cfg) (ExpiresWhen System.still) n₀ (is.map Prod.fst) ∧ ∃ a b, Punctual slack c a b := by
  refine Timing.run_along (I := fun c => ∃ a b, Punctual slack c a b) ?_ ⟨a, b, h⟩ hr
  rintro c i time s o ⟨a, b, h⟩ hallow hs
  obtain ⟨hexpires, a', b', h', -⟩ := h.next hslack hallow hs
  exact ⟨hexpires, a', b', h'⟩

/-- **The timer of the master is long enough.** If every step of the two threads comes within 2 ms of the time at which
it could be taken, the timer is read as expired only when nothing is under way. -/
theorem timer_suffices (cfg : WlConfig) (tm ts : Tsm) (g : WlEmulGlobal) (time delay slack : Int)
    (hslack : 0 ≤ slack ∧ slack ≤ 2000) :
    ∃ n₀, systemStart tm ts g = some n₀ ∧
      ∀ (is : List (SystemInput × Int)) (c : Clocked System ConnId) (os : List SystemEvent),
        run (systemTiming.step slack (systemStep cfg)) (clockedStart n₀ time delay) is = some (c, os) →
        run (systemStep cfg) n₀ (is.map Prod.fst) = some (c.state, os) ∧
          Along (systemStep cfg) (ExpiresWhen System.still) n₀ (is.map Prod.fst) := by
  obtain ⟨m, hm, hmrel⟩ := mStart_rel tm
  obtain ⟨s, hs, hsrel⟩ := sStart_rel ts
  refine ⟨_, by simp only [systemStart, hm, hs]; rfl, fun is c os hr => ?_⟩
  obtain ⟨hrun, halong, -⟩ := timedRun_along (Punctual.start g time delay hmrel hsrel) hslack hr
  exact ⟨hrun, halong⟩

/-- The steps at `ms` milliseconds. -/
def stampedAt (ms : Int) (is : List SystemInput) : List (SystemInput × Int) := is.map fun i => (i, 1000 * ms)

/-- Every 10 ms the sides look for data, `k` times. -/
def looksAt (ids : List ConnId) (k : Nat) (ms : Int) : List (SystemInput × Int) :=
  (List.range k).flatMap fun j => ids.flatMap fun id => stampedAt (ms + 10 * j) (ticksAt id 3 (ms + 10 * j) [])

/-- The request gets lost, and the master waits for the response until its timer is read as expired. -/
def lostRequest : List (SystemInput × Int) :=
  List.flatten [
    stampedAt 0 (masterPasses 2 0 ++ [.master .call] ++ ticksAt .id0 3 0 []),
    stampedAt 0 (slavePasses 1 ++ [.slave .call] ++ ticksAt .id1 1 0 []), looksAt [.id1] 10 0,
    stampedAt 100 (ticksAt .id0 2 100 [0] ++ [.master .sent] ++ masterPasses 1 100 ++ [.master .call]),
    stampedAt 100 (ticksAt .id0 1 100 []), looksAt [.id0, .id1] 30 100,
    stampedAt 400 ([.master (.received none)] ++ masterPasses 1 400)]

theorem timer_suffices_lost : ∃ n₀ c os, systemStart Tsm.zeroed Tsm.zeroed .zeroed = some n₀ ∧
    run (systemTiming.step 2000 (systemStep .noisy)) (clockedStart n₀ 0 0) lostRequest = some (c, os) ∧
    entered .resend (systemMaster os) = [1] ∧
    Along (systemStep .noisy) (ExpiresWhen System.still) n₀ (lostRequest.map Prod.fst) := by
  have heval : (systemStart Tsm.zeroed Tsm.zeroed .zeroed).bind (fun n₀ =>
      (run (systemTiming.step 2000 (systemStep .noisy)) (clockedStart n₀ 0 0) lostRequest).map fun r =>
        entered .resend (systemMaster r.2)) = some [1] := by decide +kernel
  obtain ⟨n₀, h₀, hrun⟩ := Option.bind_eq_some_iff.mp heval
  obtain ⟨⟨c, os⟩, hr, hresent⟩ := Option.map_eq_some_iff.mp hrun
  obtain ⟨n₁, h₁, hall⟩ := timer_suffices .noisy Tsm.zeroed Tsm.zeroed .zeroed 0 0 2000 (by decide)
  cases h₀.symm.trans h₁
  exact ⟨n₀, c, os, h₀, hr, hresent, (hall _ _ _ hr).2⟩

/-! ## Agreement in real time -/

theorem Ordered.run {a : Station LlcStateM} {b : Station LlcStateS} {is : List SystemInput} {os : List SystemEvent}
    (h : Ordered n a b) (hr : Transducer.run (systemStep cfg) n is = some (n', os))
    (halong : Along (systemStep cfg) (ExpiresWhen System.still) n is) :
    (∃ a b, Ordered n' a b) ∧ ∀ x, .emul x ∈ os → x.isError = false := by
  refine run_induct_along
    (P := fun _ os n => (∃ a b, Ordered n a b) ∧ ∀ x, .emul x ∈ os → x.isError = false)
      ⟨⟨a, b, h⟩, fun x hx => by cases hx⟩ ?_
    hr halong
  rintro _ os n i n' o ⟨⟨a, b, h⟩, hos⟩ hi hs
  obtain ⟨hnext, ho⟩ := h.step hi hs
  exact ⟨hnext, fun x hx => (List.mem_append.mp hx).elim (hos x) (ho x)⟩

/-- A run against the clock whose draws the checksum finds is one of the two loops over the channel. -/
theorem timedRun_net {n₀ : System} {a : Station LlcStateM} {b : Station LlcStateS} {time delay : Int}
    {is : List (SystemInput × Int)} {c : Clocked System ConnId} {os : List SystemEvent}
    (h : Punctual slack (clockedStart n₀ time delay) a b) (hair : SealedAir n₀) (hslack : 0 ≤ slack ∧ slack ≤ 2000)
    (hr : run (systemTiming.step slack (systemStep cfg)) (clockedStart n₀ time delay) is = some (c, os))
    (hdraws : ∀ i ∈ is, i.1.Detected cfg) : HalfDuplex c.state os ∧
      ∃ js, run netStep n₀.net js = some (c.state.net, netEvents os) ∧ Along netStep (Orderly cfg) n₀.net js := by
  obtain ⟨hrun, hexpires, -⟩ := timedRun_along h hslack hr
  have hinputs : ∀ i ∈ is.map Prod.fst, i.Detected cfg := by
    intro i hi
    obtain ⟨x, hx, rfl⟩ := List.mem_map.mp hi
    exact hdraws x hx
  have halong := h.ordered.undisrupted hair hrun hexpires hinputs
  obtain ⟨⟨a', b', h'⟩, hos⟩ := h.ordered.run hrun hexpires
  exact ⟨h'.halfDuplex hos, systemRun_net h.ordered hrun halong⟩

/-- The stack and its channel at the start. -/
theorem timedStart (tm ts : Tsm) (g : WlEmulGlobal) (time delay slack : Int) : ∃ n₀, systemStart tm ts g = some n₀ ∧
    netStart tm ts = some n₀.net ∧ SealedAir n₀ ∧
    Punctual slack (clockedStart n₀ time delay) (mStationStart tm) (sStationStart ts) := by
  obtain ⟨m, hm, hmrel⟩ := mStart_rel tm
  obtain ⟨s, hs, hsrel⟩ := sStart_rel ts
  refine ⟨⟨m, s, emulStart g, fun _ => none⟩, by simp only [systemStart, hm, hs]; rfl, ?_, ?_,
    Punctual.start g time delay hmrel hsrel⟩
  · simp only [netStart, hm, hs]
    rfl
  · rintro id d (hd | hd) <;> cases hd

/-- **Agreement in real time.** In every run against the clock in which no damage escapes the checksum, one side speaks
at a time and the parties agree. -/
theorem timed_agreement (cfg : WlConfig) (tm ts : Tsm) (g : WlEmulGlobal) (time delay slack : Int)
    (hslack : 0 ≤ slack ∧ slack ≤ 2000) :
    ∃ n₀, systemStart tm ts g = some n₀ ∧
      ∀ (is : List (SystemInput × Int)) (c : Clocked System ConnId) (os : List SystemEvent),
        run (systemTiming.step slack (systemStep cfg)) (clockedStart n₀ time delay) is = some (c, os) →
        (∀ i ∈ is, i.1.Detected cfg) → HalfDuplex c.state os ∧ SystemAgreement c.state os := by
  obtain ⟨n₀, hstart, hnet, hair, hpunctual⟩ := timedStart tm ts g time delay slack
  refine ⟨n₀, hstart, fun is c os hr hdraws => ?_⟩
  obtain ⟨hduplex, js, hjs, halong⟩ := timedRun_net hpunctual hair hslack hr hdraws
  obtain ⟨k, j, l, a, b, hjoint⟩ := netRun_joint hnet hjs (Along.mono halong fun _ _ hj => hj.1)
  exact ⟨hduplex, hjoint.systemAgreement⟩

/-- A request of transaction 1 that the sender has put at `ms` milliseconds, from the sleep to the next receive. -/
def masterSent (ms : Int) (draws : List Draw) : List (SystemInput × Int) :=
  stampedAt ms (ticksAt .id0 2 ms draws ++ [.master .sent] ++ masterPasses 1 ms ++ [.master .call] ++
    ticksAt .id0 1 ms [])

/-- The slave receives it, answers, and sleeps. -/
def slaveAnswers (ms : Int) : List (SystemInput × Int) :=
  stampedAt ms (ticksAt .id1 5 ms [] ++ [.slave (.received (some (frame 1)))] ++ slavePasses 4 ++ [.slave .call] ++
    ticksAt .id1 3 ms [])

/-- The response comes. -/
def masterAnswered (ms : Int) (draws : List Draw) : List (SystemInput × Int) :=
  stampedAt ms (ticksAt .id1 1 ms draws ++ ticksAt .id0 5 ms [] ++ [.master (.received (some (frame 1)))] ++
    masterPasses 2 ms)

/-- Draws of a packet that arrives as it is, and of one whose first bit is flipped. -/
def keepDraws : List Draw := [Fin.last _, Fin.last _]

def flipDraw : List Draw := [Fin.last _, 0, 0, Fin.last _]

/-- The first bit of the request is flipped; the request is sent again after the timeout, and answered. -/
def damagedRequest : List (SystemInput × Int) :=
  let bad : PackData := (frame 1).set stkPHeaderL1 ((frame 1).get stkPHeaderL1 ^^^ 1) stkPHeaderL1_lt
  List.flatten [
    stampedAt 0 (masterPasses 2 0 ++ [.master .call] ++ ticksAt .id0 3 0 []),
    stampedAt 0 (slavePasses 1 ++ [.slave .call] ++ ticksAt .id1 1 0 []), looksAt [.id1] 10 0,
    masterSent 100 flipDraw,
    stampedAt 100 (ticksAt .id1 5 100 [] ++ [.slave (.received (some bad))] ++ slavePasses 1 ++ [.slave .call]),
    stampedAt 100 (ticksAt .id1 1 100 []), looksAt [.id0, .id1] 30 100,
    stampedAt 400 ([.master (.received none)] ++ masterPasses 3 400 ++ [.master .call] ++ ticksAt .id0 3 400 []),
    looksAt [.id1] 10 400, masterSent 500 keepDraws, slaveAnswers 500, looksAt [.id0] 10 500,
    masterAnswered 600 keepDraws]

theorem timed_agreement_damaged : ∃ n₀ c os, systemStart Tsm.zeroed Tsm.zeroed .zeroed = some n₀ ∧
    run (systemTiming.step 2000 (systemStep .noisy)) (clockedStart n₀ 0 0) damagedRequest = some (c, os) ∧
    entered .resend (systemMaster os) = [1] ∧ entered .idle (systemMaster os) = [1] ∧
    HalfDuplex c.state os ∧ SystemAgreement c.state os := by
  have heval : (systemStart Tsm.zeroed Tsm.zeroed .zeroed).bind (fun n₀ =>
      (run (systemTiming.step 2000 (systemStep .noisy)) (clockedStart n₀ 0 0) damagedRequest).map fun r =>
        (entered .resend (systemMaster r.2), entered .idle (systemMaster r.2))) = some ([1], [1]) := by decide +kernel
  obtain ⟨n₀, h₀, hrun⟩ := Option.bind_eq_some_iff.mp heval
  obtain ⟨⟨c, os⟩, hr, hfacts⟩ := Option.map_eq_some_iff.mp hrun
  obtain ⟨hresent, hidle⟩ := Prod.mk.inj hfacts
  have hdraws : ∀ i ∈ damagedRequest, ∀ draws ∈ i.1.draws, draws = [] ∨ draws = keepDraws ∨ draws = flipDraw := by
    decide +kernel
  have hkeep : DrawsDetected .noisy keepDraws := by
    refine DrawsDetected.of_findable fun draws' fs hlost hfs => Or.inl ?_
    cases hlost
    have hnone : wlPackBreakFlips .noisy [Fin.last _] = some [] := by decide +kernel
    exact Option.some.inj (hfs.symm.trans hnone)
  have hflip : DrawsDetected .noisy flipDraw := by
    refine DrawsDetected.of_findable fun draws' fs hlost hfs => Or.inr ?_
    cases hlost
    have hone : wlPackBreakFlips .noisy [0, 0, Fin.last _] = some [0#32] := by decide +kernel
    cases hfs.symm.trans hone
    have hdraws : wlPackBreakDraws .noisy [0, 0, Fin.last _] = [0] := by decide +kernel
    refine ⟨⟨by simp, Or.inl (by decide)⟩, fun draw hdraw => ?_⟩
    rw [hdraws, List.mem_singleton] at hdraw
    rw [hdraw]
    exact (randPackBit_lt_iff _).mp (by decide)
  obtain ⟨n₁, h₁, hall⟩ := timed_agreement .noisy Tsm.zeroed Tsm.zeroed .zeroed 0 0 2000 (by decide)
  cases h₀.symm.trans h₁
  refine ⟨n₀, c, os, h₀, hr, hresent, hidle, hall _ _ _ hr fun i hi draws hd => ?_⟩
  rcases hdraws i hi draws hd with rfl | rfl | rfl
  · exact DrawsDetected.nil _
  · exact hkeep
  · exact hflip

/-! ## Without losses -/

/-- Every request has been sent once, and no response again: no packet has been handed to the radio twice. -/
structure FirstTry (n : System) (os : List SystemEvent) : Prop where
  /-- the packets of the transactions, each once and in order; while the master waits, the last one may not be there
  yet -/
  sent : ∃ c, entered .idle (systemMaster os) = transactions c ∧
    entered .sendAll (systemMaster os) = transactions (if n.m.llcState = .idle then c else c + 1) ∧
    (transmitted (systemMaster os) = frames (if n.m.llcState = .idle then c else c + 1) ∨
      n.m.llcState = .sendAll ∧ transmitted (systemMaster os) = frames c)
  once : entered .resend (systemMaster os) = [] ∧ entered .resend (systemSlave os) = []
  /-- the same of the responses to the requests accepted -/
  answered : ∃ k, entered .receivedAll (systemSlave os) = transactions k ∧
    (transmitted (systemSlave os) = frames k ∨ transmitted (systemSlave os) = frames (k - 1))

theorem Reliably.firstTry {os : List SystemEvent} {c k j : Nat} {a : Station LlcStateM} {b : Station LlcStateS}
    (h : Reliably (netEvents os) n.net c k j a b) : FirstTry n os := by
  obtain ⟨cm, hrm⟩ := h.joint.master.rel
  have hst : n.m.llcState = a.st := hrm.st
  have hcompleted := h.joint.completed
  have haccepted := h.joint.accepted
  have hsent := h.sent
  have honce := h.once
  have hrequests := h.requests
  have hresponses := h.responses
  rw [masterEvents_net] at hcompleted hsent honce hrequests
  rw [slaveEvents_net] at haccepted honce hresponses
  have hcount := h.joint.agreeing.count
  have hsingle := h.joint.agreeing.turn.single
  have hwaiting := a.waiting_le
  refine ⟨⟨c, hcompleted, by rw [hsent, hst, ← hcount], ?_⟩, honce, j, haccepted, ?_⟩
  · rw [hst, ← hcount]
    refine (frames_split hrequests (by omega)).imp_right fun ⟨hne, htx⟩ => ?_
    -- a request waits only in `M_LLC_SEND_ALL`
    have hsendAll : a.st = .sendAll := by
      by_contra hst'
      have hload := h.joint.agreeing.turn.turn hst'
      exact hne (List.length_eq_zero_iff.mp (by omega))
    rw [hsendAll, if_neg (by decide)] at hcount
    rw [hcount, Nat.add_sub_cancel] at htx
    exact ⟨hsendAll, htx⟩
  · have hasked := b.asked_le
    have hrest := b.waiting_le
    exact (frames_split hresponses (by rw [List.length_append]; omega)).imp_right And.right

theorem timedRun_reliable {tm ts : Tsm} {n₀ : System} {a : Station LlcStateM} {b : Station LlcStateS} {time delay : Int}
    {is : List (SystemInput × Int)} {c : Clocked System ConnId} {os : List SystemEvent}
    (hcfg : cfg.losePackets = false ∧ cfg.errData = false) (hnet : netStart tm ts = some n₀.net) (hair : SealedAir n₀)
    (h : Punctual slack (clockedStart n₀ time delay) a b) (hslack : 0 ≤ slack ∧ slack ≤ 2000)
    (hr : run (systemTiming.step slack (systemStep cfg)) (clockedStart n₀ time delay) is = some (c, os)) :
    ∃ k j l a b, Reliably (netEvents os) c.state.net k j l a b := by
  have hdraws : ∀ i ∈ is, i.1.Detected cfg := by
    intro i _ draws _
    exact DrawsDetected.of_intact hcfg.2
  obtain ⟨-, js, hjs, halong⟩ := timedRun_net h hair hslack hr hdraws
  have hreliable : Along netStep (fun net j => QuietTimeout net j ∧ j.Reliable) n₀.net js := by
    refine Along.mono halong ?_
    rintro net j ⟨hquiet, hoccurs⟩
    refine ⟨hquiet, ?_⟩
    cases j with
    | lose x => exact Bool.false_ne_true (hcfg.1.symm.trans hoccurs)
    | spoil x d => exact Bool.false_ne_true (hcfg.2.symm.trans hoccurs)
    | _ => trivial
  exact netRun_reliable hnet hjs hreliable

/-- **Over an emulator that loses and damages nothing** no packet is sent twice, and the parties agree. -/
theorem lossless_first_try (cfg : WlConfig) (tm ts : Tsm) (g : WlEmulGlobal) (time delay slack : Int)
    (hcfg : cfg.losePackets = false ∧ cfg.errData = false) (hslack : 0 ≤ slack ∧ slack ≤ 2000) :
    ∃ n₀, systemStart tm ts g = some n₀ ∧
      ∀ (is : List (SystemInput × Int)) (c : Clocked System ConnId) (os : List SystemEvent),
        run (systemTiming.step slack (systemStep cfg)) (clockedStart n₀ time delay) is = some (c, os) →
        FirstTry c.state os ∧ SystemAgreement c.state os := by
  obtain ⟨n₀, hstart, hnet, hair, hpunctual⟩ := timedStart tm ts g time delay slack
  refine ⟨n₀, hstart, fun is c os hr => ?_⟩
  obtain ⟨k, j, l, a, b, hreliably⟩ := timedRun_reliable hcfg hnet hair hpunctual hslack hr
  exact ⟨hreliably.firstTry, hreliably.joint.systemAgreement⟩

/-- A transaction at the first try. -/
def firstTransaction : List (SystemInput × Int) :=
  List.flatten [
    stampedAt 0 (masterPasses 2 0 ++ [.master .call] ++ ticksAt .id0 3 0 []),
    stampedAt 0 (slavePasses 1 ++ [.slave .call] ++ ticksAt .id1 1 0 []), looksAt [.id1] 10 0,
    masterSent 100 [], slaveAnswers 100, looksAt [.id0] 10 100, masterAnswered 200 []]

theorem lossless_first_try_clean : ∃ n₀ c os, systemStart Tsm.zeroed Tsm.zeroed .zeroed = some n₀ ∧
    run (systemTiming.step 2000 (systemStep .clean)) (clockedStart n₀ 0 0) firstTransaction = some (c, os) ∧
    entered .idle (systemMaster os) = [1] ∧ FirstTry c.state os := by
  have heval : (systemStart Tsm.zeroed Tsm.zeroed .zeroed).bind (fun n₀ =>
      (run (systemTiming.step 2000 (systemStep .clean)) (clockedStart n₀ 0 0) firstTransaction).map fun r =>
        entered .idle (systemMaster r.2)) = some [1] := by decide +kernel
  obtain ⟨n₀, h₀, hrun⟩ := Option.bind_eq_some_iff.mp heval
  obtain ⟨⟨c, os⟩, hr, hidle⟩ := Option.map_eq_some_iff.mp hrun
  obtain ⟨n₁, h₁, hall⟩ := lossless_first_try .clean Tsm.zeroed Tsm.zeroed .zeroed 0 0 2000 ⟨rfl, rfl⟩ (by decide)
  cases h₀.symm.trans h₁
  exact ⟨n₀, c, os, h₀, hr, hidle, (hall _ _ _ hr).1⟩

end LoraBridge
