import LoraBridge.Emulated
import LoraBridge.Lossless

/-!
# Why a packet is sent again

If the timer is read as expired only when nothing is under way, and no damage escapes the checksum, a request is sent
again because the packet of its transaction has been lost, or has been received with a checksum that fails. Conversely
such a fault costs one more request. So the two are counted alike over every run (`resent_for_cause`): a transaction
that waits has its packet somewhere, or a fault that it has not answered yet (`Explained`).
-/

set_option autoImplicit false

namespace LoraBridge

open Transducer

variable {cfg : WlConfig} {id src : ConnId} {n n' : System} {g g' : WlEmulGlobal} {o : List WlEvent} {now : Timeval}
  {t : WlTick} {a a' : Station LlcStateM} {b b' : Station LlcStateS} {i : Input}

/-! ## Faults of the emulator -/

/-- A packet is lost, or a receive has copied one whose checksum fails. -/
def WlEvent.isFault : WlEvent → Bool
  | .lost _ _ => true
  | .returned _ _ d => !stkTestPackChecksumm d
  | _ => false

def SystemEvent.isFault : SystemEvent → Bool
  | .emul x => x.isFault
  | _ => false

def faults (os : List SystemEvent) : Nat := os.countP SystemEvent.isFault

/-- What the side's receive has copied, and its loop does not have yet. -/
def System.copy (n : System) (id : ConnId) : Option PackData :=
  ((n.ret id).bind WlRet.incoming).or (n.emul.pc id).incoming

@[simp] theorem faults_append (os ps : List SystemEvent) : faults (os ++ ps) = faults os + faults ps :=
  List.countP_append
@[simp] theorem faults_emul (o : List WlEvent) : faults (o.map .emul) = o.countP WlEvent.isFault := by
  rw [faults, List.countP_map]
  rfl
@[simp] theorem faults_master (o : List (Event LlcStateM)) : faults (o.map .master) = 0 := by
  simp [faults, List.countP_eq_zero, SystemEvent.isFault]
@[simp] theorem faults_slave (o : List (Event LlcStateS)) : faults (o.map .slave) = 0 := by
  simp [faults, List.countP_eq_zero, SystemEvent.isFault]

theorem copy_flight {d : PackData} (h : n.copy id = some d) :
    n.emul.devs.lane .id0 + n.emul.devs.lane .id1 + 1 ≤ n.flight := by
  have hone : 1 ≤ retPackets (n.ret id) + (n.emul.pc id).carried := by
    rw [System.copy, Option.or_eq_some_iff] at h
    rcases h with h | ⟨-, h⟩
    · obtain ⟨r, hr, hd⟩ := Option.bind_eq_some_iff.mp h
      cases r with
      | send | avail => cases hd
      | recv res =>
        rw [hr, show res = some d from hd]
        exact Nat.le_add_right 1 _
    · cases hpc : n.emul.pc id with
      | recvCheck => exact Nat.le_add_left 1 _
      | _ =>
        rw [hpc] at h
        cases h
  unfold System.flight Emul.flight
  cases id <;> omega

/-- What becomes of the packet in a step of the emulator. -/
inductive Fate (n n' : System) (o : List WlEvent) : Prop
  | kept : o.countP WlEvent.isFault = 0 → n'.flight = n.flight → (∀ j d, n.copy j = some d → n'.copy j = some d) →
      (∀ j d, n'.copy j = some d → n.copy j = some d ∨ stkTestPackChecksumm d = true) → Fate n n' o
  | lost : o.countP WlEvent.isFault = 1 → 1 ≤ n.emul.devs.lane .id0 + n.emul.devs.lane .id1 → n'.flight = 0 →
      Fate n n' o
  | spoilt {j : ConnId} {d : PackData} : o.countP WlEvent.isFault = 1 →
      1 ≤ n.emul.devs.lane .id0 + n.emul.devs.lane .id1 → n'.copy j = some d → stkTestPackChecksumm d = false →
      Fate n n' o

theorem WlArrive.fate (h : WlArrive cfg now src g g' o) (hone : g.lane src ≤ 1) :
    g'.lane src.other = g.lane src.other ∧ (o.countP WlEvent.isFault = 0 ∧ g'.lane src = g.lane src ∨
      o.countP WlEvent.isFault = 1 ∧ g.lane src = 1 ∧ g'.lane src = 0) := by
  refine ⟨h.lane.2.1, ?_⟩
  cases h with
  | none | flying => exact Or.inl ⟨rfl, rfl⟩
  | lost hsend hair hcfg =>
    have hempty : (g.dev src.other).inputBuff.isRecieved = false := by
      by_contra hfull
      simp [WlEmulGlobal.lane, hsend, hfull] at hone
    exact Or.inr ⟨rfl, by simp [WlEmulGlobal.lane, hsend, hempty], by simp [WlEmulGlobal.lane, hempty]⟩
  | dropped hsend hair hbreak hfull => simp [WlEmulGlobal.lane, hsend, hfull] at hone
  | delivered hsend hair hbreak hempty => exact Or.inl ⟨rfl, by simp [WlEmulGlobal.lane, hsend, hempty]⟩

theorem wlShadowWorker_fate (h : wlShadowWorker cfg t g = some (g', o)) (hone : g.lane .id0 + g.lane .id1 ≤ 1) :
    o.countP WlEvent.isFault = 0 ∧ g'.lane .id0 + g'.lane .id1 = g.lane .id0 + g.lane .id1 ∨
      o.countP WlEvent.isFault = 1 ∧ g.lane .id0 + g.lane .id1 = 1 ∧ g'.lane .id0 + g'.lane .id1 = 0 := by
  obtain ⟨g₀, g₁, o₀, o₁, h₀, h₁, rfl, rfl⟩ := wlShadowWorker_arrive h
  obtain ⟨hother₀, hfate₀⟩ := h₀.fate (by omega)
  simp only [ConnId.other] at hother₀
  obtain ⟨hother₁, hfate₁⟩ := h₁.fate (by omega)
  simp only [ConnId.other] at hother₁
  rw [chanelCheck_lane g₁ (by omega), List.append_nil, List.countP_append]
  dsimp only
  omega

theorem retPackets_none : retPackets none = 0 := rfl

/-- A step of a call that keeps its packets, in the buffers or outside. -/
theorem Fate.of_goto {pc : WlPc} {r : Option WlRet} (he : n'.emul = n.emul.goto id g pc)
    (hret : n'.ret = Function.update n.ret id r) (hnone : n.ret id = none) (ho : o.countP WlEvent.isFault = 0)
    (hpackets : retPackets r + pc.carried + (g.lane .id0 + g.lane .id1) =
      (n.emul.pc id).carried + (n.emul.devs.lane .id0 + n.emul.devs.lane .id1))
    (hcopy : (r.bind WlRet.incoming).or pc.incoming = (n.emul.pc id).incoming) : Fate n n' o := by
  have hsame : ∀ j, n'.copy j = n.copy j := by
    intro j
    simp only [System.copy, he, hret]
    by_cases hj : j = id
    · subst hj
      rw [goto_pc, Function.update_self, hcopy, hnone]
      rfl
    · rw [goto_pc_of_ne _ _ _ _ hj, Function.update_of_ne hj]
  refine .kept ho ?_ (fun j d hd => (hsame j).trans hd) fun j d hd => Or.inl ((hsame j).symm.trans hd)
  have hgoto := goto_flight n.emul id g pc
  have hsum := ret_sum n.ret id
  have hsum' := ret_sum (Function.update n.ret id r) id
  rw [Function.update_self, Function.update_of_ne (ConnId.other_ne id)] at hsum'
  have hzero : retPackets (n.ret id) = 0 := by rw [hnone]; rfl
  simp only [System.flight, he, hret]
  omega

theorem tick_fate (h : WlMove cfg n.emul (.tick id t) n'.emul o) (hret : n'.ret = setReturned n.ret o)
    (hcalm : Calm n.emul) (hone : n.flight ≤ 1) (hnone : n.ret id = none) : Fate n n' o := by
  have hsilent : Function.update n.ret id none = n.ret := Function.update_eq_self_iff.mpr hnone.symm
  have hlanes : n.emul.devs.lane .id0 + n.emul.devs.lane .id1 ≤ 1 := by
    unfold System.flight Emul.flight at hone
    omega
  have hflight : n.emul.flight ≤ 1 := by
    unfold System.flight at hone
    omega
  have htimely := hcalm.timely id
  generalize he : n'.emul = e' at h
  cases h with
  | @work _ _ pc g o hpc hw =>
    rw [setReturned_silent n.ret (returned_ofWorker (wlShadowWorker_ofWorker hw)), ← hsilent] at hret
    obtain ⟨hout, hin⟩ := WlPc.worked_packets hpc
    obtain ⟨hcarried, -⟩ := WlPc.worked_carried hpc
    rcases wlShadowWorker_fate hw hlanes with ⟨ho, hsame⟩ | ⟨ho, hfull, hgone⟩
    · exact .of_goto he hret hnone ho (by rw [retPackets_none, Nat.zero_add, hcarried, hsame]) hin
    · refine .lost ho hfull.ge ?_
      have hgoto := goto_flight n.emul id g pc
      rw [hsilent] at hret
      simp only [System.flight, he, hret] at hone ⊢
      unfold Emul.flight at *
      omega
  | @check _ _ pc r hpc =>
    rw [chanelCheck_lane n.emul.devs hlanes] at he hret ⊢
    rw [List.nil_append, setReturned_checked n.ret id r hnone] at hret
    obtain ⟨hcarried, -⟩ := WlPc.checked_carried hpc
    refine .of_goto he hret hnone ?_ ?_ (WlPc.checked_packets hpc).2
    · cases r <;> rfl
    · dsimp only
      unfold retPackets
      omega
  | @test _ _ payload timeout hpc =>
    rw [if_pos (sent_of_carried hflight (by rw [hpc]; rfl))] at he
    rw [setReturned_silent n.ret rfl, ← hsilent] at hret
    exact .of_goto he hret hnone rfl (by rw [hpc, retPackets_none, Nat.zero_add]; rfl) (by rw [hpc]; rfl)
  | @busy _ _ payload timeout hpc =>
    rw [hpc] at htimely
    cases htimely
  | @put _ _ payload timeout hpc =>
    have hsent : (n.emul.devs.dev id).outputBuff.isSend = true := sent_of_carried hflight (by rw [hpc]; rfl)
    rw [if_pos hsent, List.nil_append] at hret ⊢
    rw [setReturned_silent n.ret rfl, ← hsilent] at hret
    have hlane := lane_sum n.emul.devs id
    have hlane' := lane_sum (n.emul.devs.put id payload t.now₀) id
    have hput : (n.emul.devs.put id payload t.now₀).lane id = n.emul.devs.lane id + 1 ∧
        (n.emul.devs.put id payload t.now₀).lane id.other = n.emul.devs.lane id.other := by
      constructor
      · simp [WlEmulGlobal.lane, WlEmulGlobal.put, hsent, Nat.add_comm]
      · simp [WlEmulGlobal.lane, WlEmulGlobal.put, setOut_out_of_ne _ _ _ (ConnId.other_ne id)]
    refine .of_goto he hret hnone rfl ?_ ?_
    · have hnext : (if timeout ≠ 0 then WlPc.sendFlush else .sendCheck).carried = 0 := by split_ifs <;> rfl
      have hcarried : (n.emul.pc id).carried = 1 := by rw [hpc]; rfl
      rw [retPackets_none]
      omega
    · rw [hpc]
      split_ifs <;> rfl
  | @read _ _ w hpc =>
    rw [setReturned_silent n.ret rfl, ← hsilent] at hret
    exact .of_goto he hret hnone rfl (by rw [hpc, retPackets_none, Nat.zero_add]; rfl) (by rw [hpc]; rfl)
  | @empty _ _ hpc =>
    rw [hpc] at htimely
    cases htimely
  | @copy _ _ hpc =>
    rw [setReturned_silent n.ret rfl] at hret
    have hfull := hcalm.ready id (Or.inl hpc)
    have hcopy : n'.copy id = some (packOfData (n.emul.devs.dev id).inputBuff.recvData) := by
      rw [System.copy, hret, hnone, he, goto_pc]
      rfl
    have hlane := lane_sum n.emul.devs id
    have hlane' := lane_sum (n.emul.devs.take id) id
    have htake : (n.emul.devs.take id).lane id = n.emul.devs.lane id ∧
        (n.emul.devs.take id).lane id.other + 1 = n.emul.devs.lane id.other := by
      constructor
      · simp [WlEmulGlobal.lane, WlEmulGlobal.take, setIn_inp_of_ne _ _ _ (ConnId.other_ne id)]
      · simp [WlEmulGlobal.lane, WlEmulGlobal.take, hfull]
    cases hgood : stkTestPackChecksumm (packOfData (n.emul.devs.dev id).inputBuff.recvData) with
    | false =>
      refine .spoilt ?_ (by omega) hcopy hgood
      simp [WlEvent.isFault, hgood]
    | true =>
      refine .kept (by simp [WlEvent.isFault, hgood]) ?_ (fun j d hd => ?_) fun j d hd => ?_
      · have hgoto := goto_flight n.emul id (n.emul.devs.take id)
          (.recvCheck (packOfData (n.emul.devs.dev id).inputBuff.recvData))
        have hbefore : (n.emul.pc id).carried = 0 := by rw [hpc]; rfl
        rw [hbefore, show WlPc.carried (.recvCheck _) = 1 from rfl] at hgoto
        rw [System.flight, System.flight, he, hret]
        omega
      · have hcopied := copy_flight hd
        omega
      · by_cases hj : j = id
        · subst hj
          rw [hcopy, Option.some.injEq] at hd
          exact Or.inr (hd ▸ hgood)
        · refine Or.inl ?_
          rw [System.copy, he, hret, goto_pc_of_ne _ _ _ _ hj] at hd
          exact hd

/-! ## The loops -/

/-- What the radio hands to the loop, intact or not. -/
def Input.handed : Input → Option PackData
  | .received res => res
  | _ => none

theorem Input.packet_handed (i : Input) : i.packet = i.handed.filter stkTestPackChecksumm := by
  cases i with
  | received res => cases res <;> simp [Input.packet, Input.handed, Option.filter]
  | _ => rfl

theorem Input.packet_length (i : Input) : i.packet.toList.length ≤ i.handed.toList.length := by
  rw [Input.packet_handed]
  cases h : i.handed with
  | none => exact Nat.le_refl _
  | some d =>
    rw [Option.filter_some]
    split_ifs <;> simp

theorem flight_of_side (n : System) (id : ConnId) : n.flight = (n.emul.devs.lane .id0 + n.emul.devs.lane .id1) +
    ((n.emul.pc id).carried + (n.emul.pc id.other).carried) +
      (retPackets (n.ret id) + retPackets (n.ret id.other)) := by
  unfold System.flight Emul.flight
  cases id
  · rfl
  · simp only [ConnId.other]
    omega

/-- A step of a loop brings in what it hands to the radio, and takes out what the radio hands to it. -/
theorem Called.packets {timeout : BitVec 32} {tx : List PackData} (h : Called timeout id i tx n n') :
    n'.flight + i.handed.toList.length = n.flight + tx.length ∧
      (n.copy id = i.handed ∧ n'.copy id = none ∨ i.handed = none ∧ n'.copy id = n.copy id) ∧
      ∀ j, j ≠ id → n'.copy j = n.copy j := by
  obtain ⟨hmove, hdevs, hother⟩ := h
  obtain ⟨hpc, hret⟩ := hother id.other (ConnId.other_ne id)
  rw [flight_of_side n id, flight_of_side n' id, hdevs, hpc, hret, ← and_assoc]
  refine ⟨?_, fun j hj => by rw [System.copy, (hother j hj).1, (hother j hj).2, System.copy]⟩
  unfold System.copy
  generalize n.emul.pc id = pc at hmove ⊢
  generalize n'.emul.pc id = pc' at hmove ⊢
  generalize n.ret id = ret at hmove ⊢
  generalize n'.ret id = ret' at hmove ⊢
  cases hmove with
  | pass | listen | sent => exact ⟨rfl, Or.inr ⟨rfl, rfl⟩⟩
  | send =>
    refine ⟨?_, Or.inr ⟨rfl, rfl⟩⟩
    simp only [WlPc.carried, Input.handed, Option.toList_none, List.length_nil, List.length_singleton]
    omega
  | @received res =>
    refine ⟨?_, Or.inl ⟨by cases res with | none | some => rfl, rfl⟩⟩
    cases res with
    | none => rfl
    | some d =>
      simp only [Input.handed, retPackets, Option.map_some, Option.map_none, Option.getD_some, Option.getD_none,
        WlRet.packets, Option.toList_some, List.length_singleton, List.length_nil]
      omega

/-! ## The account of a transaction -/

/-- The faults so far against the requests sent again, `f` against `r`. -/
inductive Explained (f r : Nat) (n : System) (a : Station LlcStateM) (b : Station LlcStateS) : Prop
  /-- the master does not wait -/
  | settled : a.st ≠ .sendAll → f = r → Explained f r n a b
  /-- its packet is somewhere -/
  | whole : a.st = .sendAll → f = r → a.load + (b.load + b.due + n.flight) = 1 →
      (∀ j d, n.copy j = some d → stkTestPackChecksumm d = true) → Explained f r n a b
  /-- it is lost, or damaged and on its way to the loop that discards it -/
  | broken : a.st = .sendAll → f = r + 1 →
      (a.load + (b.load + b.due + n.flight) = 0 ∨ ∃ j d, n.copy j = some d ∧ stkTestPackChecksumm d = false) →
      Explained f r n a b

variable {f r : Nat}

/-- A step of a loop that keeps what it holds. -/
theorem Explained.called {timeout : BitVec 32} {tx : List PackData} (h : Explained f r n a b)
    (hone : a.load + (b.load + b.due + n.flight) ≤ 1) (hcalled : Called timeout id i tx n n') (hst : a'.st = a.st)
    (hload : a'.load + (b'.load + b'.due) + tx.length = a.load + (b.load + b.due) + i.packet.toList.length) :
    Explained f r n' a' b' := by
  obtain ⟨hflight, hcopy, hother⟩ := hcalled.packets
  have hpacket := i.packet_length
  cases h with
  | settled hne hf => exact .settled (by rw [hst]; exact hne) hf
  | whole hwait hf htotal hintact =>
    have hsame : i.packet = i.handed := by
      rw [Input.packet_handed]
      cases hhanded : i.handed with
      | none => rfl
      | some d =>
        rcases hcopy with ⟨hcopied, -⟩ | ⟨hnone, -⟩
        · rw [Option.filter_some, if_pos (hintact id d (hcopied.trans hhanded))]
        · rw [hhanded] at hnone
          cases hnone
    rw [hsame] at hload
    refine .whole (by rw [hst]; exact hwait) hf (by omega) fun j d hd => ?_
    by_cases hj : j = id
    · subst hj
      rcases hcopy with ⟨-, hnone⟩ | ⟨-, hkept⟩
      · rw [hnone] at hd
        cases hd
      · exact hintact j d (hkept.symm.trans hd)
    · exact hintact j d ((hother j hj).symm.trans hd)
  | broken hwait hf hgone =>
    refine .broken (by rw [hst]; exact hwait) hf ?_
    rcases hgone with hnone | ⟨j, d, hd, hbad⟩
    · exact Or.inl (by omega)
    · by_cases hj : j = id
      · subst hj
        rcases hcopy with ⟨hcopied, -⟩ | ⟨-, hkept⟩
        · -- the loop gets the damaged packet
          have hhanded : i.handed = some d := hcopied.symm.trans hd
          have hdropped : i.packet = none := by
            rw [Input.packet_handed, hhanded, Option.filter_some, if_neg (by simp [hbad])]
          rw [hhanded, Option.toList_some, List.length_singleton] at hflight
          rw [hdropped, Option.toList_none, List.length_nil] at hload
          exact Or.inl (by omega)
        · exact Or.inr ⟨j, d, hkept.trans hd, hbad⟩
      · exact Or.inr ⟨j, d, (hother j hj).trans hd, hbad⟩

theorem Station.load_queued {σ : Type} {x : Station σ} {d : PackData} (hp : x.place = .llc) (hsend : x.send = some d)
    (hrecv : x.recv = none) : x.load = 1 := by
  simp [Station.load, hp, hsend, hrecv]

theorem Explained.master {o : List (Event LlcStateM)} (h : Explained f r n a b)
    (hturn : Turn (b.load + b.due + n.flight) a)
    (hmove : MMove a i a' o) (hlate : a'.st = .resend → b.load + b.due + n.flight = 0)
    (hcalled : Called a.macRecvTimeout .id0 i (transmitted o) n n') :
    Explained f (r + (entered .resend o).length) n' a' b := by
  have hone := hturn.single
  have hflight := hcalled.packets.1
  have hfresh : a.st ≠ .sendAll → i.handed = none → transmitted o = [] →
      b.load + b.due + n'.flight = 0 ∧ ∀ j d, n'.copy j = some d → stkTestPackChecksumm d = true := by
    intro hst hhanded htx
    have hnone := hturn.turn hst
    rw [hhanded, htx, Option.toList_none, List.length_nil] at hflight
    refine ⟨by omega, fun j d hd => ?_⟩
    have hcopied := copy_flight hd
    omega
  have hwait : a.st = .sendAll → a'.st = .sendAll → Explained f r n' a' b := by
    intro hst hst'
    have hload := hmove.keeps hst hst'
    exact h.called hone hcalled (hst'.trans hst.symm) (by omega)
  cases hmove with
  | start hp hst hsend hrecv | retry hp hst hsend hrecv hresend =>
    -- the request is the only packet
    obtain ⟨hnone, hintact⟩ := hfresh (by rw [hst]; decide) rfl rfl
    cases h with
    | settled hne hf =>
      refine .whole rfl hf ?_ hintact
      rw [hnone, Nat.add_zero]
      exact Station.load_queued hp rfl hrecv
    | whole hst' | broken hst' =>
      rw [hst] at hst'
      cases hst'
  | @response now d hp hst hrecv hsend =>
    have hload : a.load = 1 := by simp [Station.load, hrecv, hsend]
    refine .settled (fun hst' => by cases hst') ?_
    cases h with
    | settled hne hf | whole hne hf => exact hf
    | broken _ hf hgone =>
      rcases hgone with hzero | ⟨j, d', hd, -⟩
      · omega
      · have hcopied := copy_flight hd
        omega
  | timeout hp hst hrecv hsend =>
    have hnone := hlate rfl
    have hload : a.load = 0 := by simp [Station.load, hrecv, hsend]
    refine .settled (fun hst' => by cases hst') ?_
    cases h with
    | settled hne => exact absurd hst hne
    | whole _ _ htotal => omega
    | broken _ hf => exact hf
  | complete hp hst =>
    cases h with
    | settled hne hf => exact .settled (fun hst' => by cases hst') hf
    | whole hst' | broken hst' =>
      rw [hst] at hst'
      cases hst'
  | wait hp hst | call hp hst | listen hp hst | sent hp hst | fail hp hst | arrive hp hst => exact hwait hst hst

/-- A slave that has not complained has discarded nothing. -/
theorem SMove.single {o : List (Event LlcStateS)} (h : SMove b i b' o) (hsilent : b'.stderr = []) (d : PackData)
    (hd : b.recv = some d) : stkGetPackType d = .typeSingle := by
  cases h with
  | discard => simp at hsilent
  | again hp hst hrecv hsend htype | accept hp hst hrecv hsend htype =>
    cases hd.symm.trans hrecv
    exact htype
  | rest _ _ hrecv | finish _ _ hrecv | sent _ _ hrecv | call _ _ hrecv | listen _ _ hrecv | fail _ _ hrecv
  | arrive _ _ hrecv =>
    rw [hrecv] at hd
    cases hd
  | respond _ _ _ hrecv | repeatLast _ _ _ hrecv | echo _ _ _ hrecv =>
    rw [hrecv] at hd
    cases hd

theorem Explained.slave {o : List (Event LlcStateS)} (h : Explained f r n a b)
    (hturn : Turn (b.load + b.due + n.flight) a)
    (hmove : SMove b i b' o) (hsilent : b'.stderr = [])
    (hcalled : Called b.macRecvTimeout .id1 i (transmitted o) n n') :
    Explained f r n' a b' := by
  have hload := hmove.keeps (hmove.single hsilent)
  exact h.called hturn.single hcalled rfl (by omega)

theorem Explained.tick (h : Explained f r n a b) (hturn : Turn (b.load + b.due + n.flight) a) (hfate : Fate n n' o) :
    Explained (f + o.countP WlEvent.isFault) r n' a b := by
  have hone := hturn.single
  have hlanes : n.emul.devs.lane .id0 + n.emul.devs.lane .id1 ≤ n.flight := by
    unfold System.flight Emul.flight
    omega
  cases h with
  | settled hst hf =>
    have hnone := hturn.turn hst
    cases hfate with
    | kept ho => exact .settled hst (by rw [ho]; exact hf)
    | lost ho hfull | spoilt ho hfull => omega
  | whole hst hf htotal hintact =>
    cases hfate with
    | kept ho hflight _ hcopies =>
      refine .whole hst (by rw [ho]; exact hf) (by rw [hflight]; exact htotal) fun j d hd => ?_
      exact (hcopies j d hd).elim (hintact j d) id
    | lost ho hfull hgone => exact .broken hst (by omega) (Or.inl (by omega))
    | @spoilt j d ho hfull hcopied hbad => exact .broken hst (by omega) (Or.inr ⟨j, d, hcopied, hbad⟩)
  | broken hst hf hgone =>
    have hempty : n.emul.devs.lane .id0 + n.emul.devs.lane .id1 = 0 := by
      rcases hgone with hzero | ⟨j, d, hd, -⟩
      · omega
      · have hcopied := copy_flight hd
        omega
    cases hfate with
    | kept ho hflight hcopies =>
      refine .broken hst (by rw [ho]; exact hf) ?_
      rcases hgone with hzero | ⟨j, d, hd, hbad⟩
      · exact Or.inl (by rw [hflight]; exact hzero)
      · exact Or.inr ⟨j, d, hcopies j d hd, hbad⟩
    | lost ho hfull | spoilt ho hfull => omega

/-! ## Runs -/

/-- The requests that the master has sent again. -/
def resent (os : List SystemEvent) : Nat := (entered .resend (systemMaster os)).length

@[simp] theorem resent_append (os ps : List SystemEvent) : resent (os ++ ps) = resent os + resent ps := by
  rw [resent, systemMaster_append, entered_append, List.length_append]
  rfl
@[simp] theorem resent_master (o : List (Event LlcStateM)) : resent (o.map .master) = (entered .resend o).length := by
  rw [resent, systemMaster_of_master]
@[simp] theorem resent_slave (o : List (Event LlcStateS)) : resent (o.map .slave) = 0 := by
  rw [resent, systemMaster_of_slave]
  rfl
@[simp] theorem resent_emul (o : List WlEvent) : resent (o.map .emul) = 0 := by
  rw [resent, systemMaster_of_emul]
  rfl

/-- **One step of the stack**, if the slave does not complain about it. -/
theorem Ordered.explained {x : SystemInput} {os o : List SystemEvent} (h : Ordered n a b)
    (hexplained : Explained (faults os) (resent os) n a b) (hi : ExpiresWhen System.still n x)
    (hs : systemStep cfg n x = some (n', o)) (hsilent : n'.s.tsm.stderr = []) :
    ∃ a' b', Ordered n' a' b' ∧ Explained (faults (os ++ o)) (resent (os ++ o)) n' a' b' := by
  obtain ⟨⟨a', b', h', hadvance⟩, -⟩ := h.advance hi hs
  refine ⟨a', b', h', ?_⟩
  rw [faults_append, resent_append]
  cases hadvance with
  | @master i a' o hmove hlate hcalled hflight =>
    rw [faults_master, resent_master]
    exact hexplained.master h.turn hmove hlate hcalled
  | @slave i b' o hmove hcalled hpackets =>
    obtain ⟨cs, hrs⟩ := h'.slave.rel
    rw [faults_slave, resent_slave]
    exact hexplained.slave h.turn hmove (hrs.stderr.symm.trans hsilent) hcalled
  | @tick id t o hmove hret hflight =>
    have hnone : n.ret id = none := by
      have hin := hmove.call_step.1
      cases id
      · exact h.masterCall.inside hin
      · exact h.slaveCall.inside hin
    have hone : n.flight ≤ 1 := by
      have hsingle := h.turn.single
      omega
    rw [faults_emul, resent_emul]
    exact hexplained.tick h.turn (tick_fate hmove hret h.calm hone hnone)

/-- In such runs the slave never complains. -/
theorem systemRun_silent {tm ts : Tsm} {n₀ : System} {is : List SystemInput} (h : Ordered n₀ a b)
    (hnet : netStart tm ts = some n₀.net) (halong : Along (systemStep cfg) (Undisrupted cfg) n₀ is) :
    Along (systemStep cfg) (fun n x => ∀ n' o, systemStep cfg n x = some (n', o) → n'.s.tsm.stderr = []) n₀ is := by
  rintro pre x post rfl n os hr n' o hs
  have halong' : Along (systemStep cfg) (Undisrupted cfg) n₀ (pre ++ [x]) := by
    rw [List.append_cons] at halong
    exact halong.front
  obtain ⟨js, hjs, hquiet⟩ := systemRun_net h (run_snoc.mpr ⟨n, os, o, hr, hs, rfl⟩) halong'
  obtain ⟨c, k, l, a', b', hjoint⟩ := netRun_joint hnet hjs (Along.mono hquiet fun _ _ hj => hj.1)
  exact hjoint.systemAgreement.silent.2

theorem systemRun_explained {tm ts : Tsm} {n₀ : System} {is : List SystemInput} {os : List SystemEvent}
    (h : Ordered n₀ a b) (hst : a.st ≠ .sendAll) (hnet : netStart tm ts = some n₀.net)
    (hr : run (systemStep cfg) n₀ is = some (n, os)) (halong : Along (systemStep cfg) (Undisrupted cfg) n₀ is) :
    ∃ a b, Ordered n a b ∧ Explained (faults os) (resent os) n a b := by
  have hsilent := systemRun_silent h hnet halong
  refine run_induct_along (P := fun _ os n => ∃ a b, Ordered n a b ∧ Explained (faults os) (resent os) n a b)
    ⟨a, b, h, .settled hst rfl⟩ ?_ hr fun pre x post he n os hr => And.intro (halong pre x post he n os hr)
      (hsilent pre x post he n os hr)
  rintro _ os n x n' o ⟨a, b, h, hexplained⟩ ⟨hx, hquiet⟩ hs
  exact h.explained hexplained hx.1 hs (hquiet n' o hs)

/-- **Every request is sent again for a cause**, and every fault for one request. In every run of the two loops over
the emulator, in any order of their steps, in which the timer is read as expired only when nothing is under way and no
damage escapes the checksum: while the master does not wait, the requests it has sent again are as many as the packets
lost or received damaged; while it waits, there may be one such packet more. -/
theorem resent_for_cause (cfg : WlConfig) (tm ts : Tsm) (g : WlEmulGlobal) :
    ∃ n₀, systemStart tm ts g = some n₀ ∧
      ∀ (is : List SystemInput) (n : System) (os : List SystemEvent), run (systemStep cfg) n₀ is = some (n, os) →
        Along (systemStep cfg) (Undisrupted cfg) n₀ is →
        faults os = resent os ∨ n.m.llcState = .sendAll ∧ faults os = resent os + 1 := by
  obtain ⟨n₀, hstart, hnet, hordered⟩ := systemStart_net tm ts g
  refine ⟨n₀, hstart, fun is n os hr halong => ?_⟩
  obtain ⟨a, b, h, hexplained⟩ := systemRun_explained hordered (by simp [mStationStart]) hnet hr halong
  obtain ⟨cm, hrm⟩ := h.master.rel
  cases hexplained with
  | settled _ hf | whole _ hf => exact Or.inl hf
  | broken hst hf => exact Or.inr ⟨hrm.st.trans hst, hf⟩

/-- The run with the noise: a request is lost, and the next one damaged. -/
theorem resent_for_cause_noisy : ∃ n₀ n os, systemStart Tsm.zeroed Tsm.zeroed .zeroed = some n₀ ∧
    run (systemStep .noisy) n₀ noisyInputs = some (n, os) ∧ resent os = 2 ∧ n.m.llcState = .idle ∧ faults os = 2 := by
  have heval : (systemStart Tsm.zeroed Tsm.zeroed .zeroed).bind (fun n₀ =>
      (run (systemStep .noisy) n₀ noisyInputs).map fun r => (resent r.2, r.1.m.llcState)) = some (2, .idle) := by
    decide +kernel
  obtain ⟨n₀, n, os, h₀, hr, halong, -⟩ := noisy_run
  obtain ⟨n₁, h₁, hall⟩ := resent_for_cause .noisy Tsm.zeroed Tsm.zeroed .zeroed
  cases h₀.symm.trans h₁
  rw [h₀, Option.bind_some, hr, Option.map_some, Option.some.injEq, Prod.mk.injEq] at heval
  obtain ⟨hresent, hidle⟩ := heval
  refine ⟨n₀, n, os, h₀, hr, hresent, hidle, ?_⟩
  rcases hall _ _ _ hr halong with hf | ⟨hst, -⟩
  · rw [hf, hresent]
  · rw [hidle] at hst
    cases hst

end LoraBridge
