import LoraBridge.Accounting

/-!
# Collisions

A packet put into the air while the other side's packet is there collides with it. The channel check counts what is in
the air when it runs, and a shadow worker takes finished packets out of the air before it checks; so a collision is
counted exactly when the next look at the channel finds both packets (`collision_counted`). Two sends that sleep
overlap uncounted when the first one to wake is done with its packet (`collision_missed`).
-/

set_option autoImplicit false

namespace LoraBridge

open Transducer

/-- Packet `n` of the side is in its output buffer, not sent. -/
def WlEmulGlobal.InAir (g : WlEmulGlobal) (id : ConnId) (n : Nat) : Prop := g.back id = some n

/-- The error that counts packet `m` of the side together with packet `n` of the other one. -/
def collision (id : ConnId) (m n : Nat) : WlEvent :=
  match id with
  | .id0 => .simultaneous m n
  | .id1 => .simultaneous n m

def WlInput.readings : WlInput → List Timeval
  | .call _ _ => []
  | .tick _ t => [t.now₀, t.now₁]

/-- The clock never goes back. -/
def ClockForward (is : List WlInput) : Prop :=
  (is.flatMap WlInput.readings).Pairwise fun a b => timercmpLe a b = true

/-- A send sleeps no shorter than it should: it wakes when its packet is done. -/
def Rested (e : Emul) : WlInput → Prop
  | .call _ _ => True
  | .tick id t => e.pc id = .sendFlush → wlAirDone (e.devs.dev id).outputBuff.sendTime t.now₀ = true ∧
      wlAirDone (e.devs.dev id).outputBuff.sendTime t.now₁ = true

instance (e : Emul) : ∀ i, Decidable (Rested e i)
  | .call _ _ => isTrue trivial
  | .tick id t => inferInstanceAs (Decidable (e.pc id = .sendFlush →
      wlAirDone (e.devs.dev id).outputBuff.sendTime t.now₀ = true ∧
        wlAirDone (e.devs.dev id).outputBuff.sendTime t.now₁ = true))

/-- The step looks at the channel, or writes an output buffer. -/
def Emul.looks (e : Emul) : WlInput → Bool
  | .call _ _ => false
  | .tick id _ =>
    (e.pc id).worked.isSome || (e.pc id).checked.isSome ||
      match e.pc id with
      | .sendPut _ _ => true
      | _ => false

/-- It is a look at the channel that takes no packet out of the air before: a `wl_shadow_checker`, or a
`wl_shadow_worker` that reads the clock too early for either packet. -/
def Emul.sees (e : Emul) : WlInput → Bool
  | .call _ _ => false
  | .tick id t =>
    (e.pc id).checked.isSome ||
      (e.pc id).worked.isSome && !wlAirDone (e.devs.dev .id0).outputBuff.sendTime t.now₀ &&
        !wlAirDone (e.devs.dev .id1).outputBuff.sendTime t.now₁

/-- The first look at the channel sees all that is in the air. -/
def seenFirst (cfg : WlConfig) : Emul → List WlInput → Bool
  | _, [] => false
  | e, i :: is =>
    if e.looks i then e.sees i
    else
      match emulStep cfg e i with
      | none => false
      | some (e', _) => seenFirst cfg e' is

/-- The clock as the shadow worker reads it for the packet of the side. -/
def WlTick.now (t : WlTick) : ConnId → Timeval
  | .id0 => t.now₀
  | .id1 => t.now₁

variable {cfg : WlConfig} {id j src : ConnId} {g g' : WlEmulGlobal} {os o : List WlEvent} {e e' : Emul}
  {i : WlInput} {is : List WlInput} {m n : Nat} {now : Timeval}

theorem inAir_iff : g.InAir id n ↔ (g.dev id).outputBuff.isSend = false ∧ (g.dev id).outputBuff.num = n := by
  rw [WlEmulGlobal.InAir, WlEmulGlobal.back]
  cases (g.dev id).outputBuff.isSend <;> simp

/-! ## Output buffers -/

theorem WlTick.now_mem (t : WlTick) (id j : ConnId) : t.now j ∈ (WlInput.tick id t).readings := by
  cases j <;> simp [WlTick.now, WlInput.readings]

theorem WlArrive.puts (h : WlArrive cfg now src g g' o) : g'.puts = g.puts := by cases h <;> rfl

/-- A packet in the air stays there just as long as the clock says. -/
theorem WlArrive.out (h : WlArrive cfg now src g g' o) :
    ((g.dev src).outputBuff.isSend = false → wlAirDone (g.dev src).outputBuff.sendTime now = true →
      (g'.dev src).outputBuff.isSend = true ∧ (g'.dev src).outputBuff.sendTime = (g.dev src).outputBuff.sendTime) ∧
    ((g.dev src).outputBuff.isSend = true ∨ wlAirDone (g.dev src).outputBuff.sendTime now = false →
      (g'.dev src).outputBuff = (g.dev src).outputBuff) := by
  cases h with
  | none hsend => simp [hsend]
  | flying hsend hair => simp [hair]
  | lost hsend hair hcfg => simp [hsend, hair]
  | dropped hsend hair hbreak hfull => simp [hsend, hair]
  | delivered hsend hair hbreak hempty => simp [hsend, hair]

/-- The same of the whole shadow worker. -/
theorem wlShadowWorker_out {t : WlTick} (h : wlShadowWorker cfg t g = some (g', o)) (j : ConnId) :
    g'.puts = g.puts ∧
    ((g.dev j).outputBuff.isSend = false → wlAirDone (g.dev j).outputBuff.sendTime (t.now j) = true →
      (g'.dev j).outputBuff.isSend = true ∧ (g'.dev j).outputBuff.sendTime = (g.dev j).outputBuff.sendTime) ∧
    ((g.dev j).outputBuff.isSend = true ∨ wlAirDone (g.dev j).outputBuff.sendTime (t.now j) = false →
      (g'.dev j).outputBuff = (g.dev j).outputBuff) := by
  obtain ⟨g₀, g₁, o₀, o₁, h₀, h₁, rfl, -⟩ := wlShadowWorker_arrive h
  obtain ⟨-, -, hdev⟩ := chanelCheck_keeps g₁
  have hputs : (wlShadowWorkerChanelCheck g₁).1.puts = g₁.puts := by
    rcases chanelCheck_cases g₁ with ⟨-, -, hc⟩ | ⟨-, hc⟩
    · rw [hc, incErr_puts]
    · rw [hc]
  rw [hdev, hputs, h₁.puts, h₀.puts]
  refine ⟨rfl, ?_⟩
  cases j with
  | id0 =>
    rw [h₁.out_of_ne (j := .id0) (by decide)]
    exact h₀.out
  | id1 =>
    have hsame := h₀.out_of_ne (j := .id1) (by decide)
    rw [← hsame]
    exact h₁.out

/-- What a step does to the output buffer of a side: nothing, or its packet is done, or a new one is put. -/
inductive OutStep (e : Emul) (i : WlInput) (e' : Emul) (j : ConnId) : Prop
  | same : (e'.devs.dev j).outputBuff = (e.devs.dev j).outputBuff → e'.devs.puts j = e.devs.puts j → OutStep e i e' j
  | done {r : Timeval} : r ∈ i.readings → wlAirDone (e.devs.dev j).outputBuff.sendTime r = true →
      (e'.devs.dev j).outputBuff.isSend = true →
      (e'.devs.dev j).outputBuff.sendTime = (e.devs.dev j).outputBuff.sendTime →
      e'.devs.puts j = e.devs.puts j → OutStep e i e' j
  | put : (e'.devs.dev j).outputBuff.isSend = false → (e'.devs.dev j).outputBuff.num = e.devs.puts j →
      e'.devs.puts j = e.devs.puts j + 1 → e.looks i = true → OutStep e i e' j

theorem WlMove.out (h : WlMove cfg e i e' o) (j : ConnId) : OutStep e i e' j := by
  cases h with
  | @work id t pc g o hpc hw =>
    obtain ⟨hputs, hdone, hsame⟩ := wlShadowWorker_out hw j
    cases hsend : (e.devs.dev j).outputBuff.isSend with
    | true => exact .same (hsame (Or.inl hsend)) (by rw [goto_devs, hputs])
    | false =>
      cases hair : wlAirDone (e.devs.dev j).outputBuff.sendTime (t.now j) with
      | true =>
        obtain ⟨hsent, htime⟩ := hdone hsend hair
        exact .done (t.now_mem id j) hair hsent htime (by rw [goto_devs, hputs])
      | false => exact .same (hsame (Or.inr hair)) (by rw [goto_devs, hputs])
  | check hpc =>
    rcases chanelCheck_cases e.devs with ⟨-, -, hc⟩ | ⟨-, hc⟩ <;> rw [hc] <;> exact .same rfl rfl
  | @put id t payload timeout hpc =>
    by_cases hj : j = id
    · subst hj
      exact .put (by simp [WlEmulGlobal.put]) (by simp [WlEmulGlobal.put]) (by simp [WlEmulGlobal.put])
        (by simp [Emul.looks, hpc])
    · exact .same (by simp [WlEmulGlobal.put, setOut_out_of_ne _ _ _ hj]) (by simp [WlEmulGlobal.put, hj])
  | copy hpc => exact .same (by simp [WlEmulGlobal.take]) rfl
  | _ => exact .same rfl rfl

/-! ## What a look at the channel counts -/

theorem mem_chanelCheck :
    collision id m n ∈ (wlShadowWorkerChanelCheck g).2 ↔ g.InAir id m ∧ g.InAir id.other n := by
  rcases chanelCheck_cases g with ⟨h₀, h₁, hc⟩ | ⟨h, hc⟩
  · rw [hc]
    cases id <;> simp [collision, inAir_iff, ConnId.other, h₀, h₁, eq_comm, and_comm]
  · rw [hc]
    refine ⟨fun hm => absurd hm List.not_mem_nil, fun hm => ?_⟩
    rw [inAir_iff, inAir_iff] at hm
    cases id <;> simp [ConnId.other] at hm <;> simp [hm] at h

theorem WlArrive.no_collision (h : WlArrive cfg now src g g' o) : collision id m n ∉ o := by
  cases h <;> cases id <;> simp [collision]

/-- A collision is counted by the channel check of a step, and by nothing else: it is that of the packets in the air
after the step. -/
theorem WlMove.mem_collision (h : WlMove cfg e i e' o) :
    collision id m n ∈ o ↔
      (∃ k t, i = .tick k t ∧ ((e.pc k).worked.isSome ∨ (e.pc k).checked.isSome)) ∧
        e'.devs.InAir id m ∧ e'.devs.InAir id.other n := by
  have hother : ∀ {k t}, i = .tick k t → (e.pc k).worked = none → (e.pc k).checked = none →
      collision id m n ∉ o → (collision id m n ∈ o ↔
        (∃ k t, i = .tick k t ∧ ((e.pc k).worked.isSome ∨ (e.pc k).checked.isSome)) ∧
          e'.devs.InAir id m ∧ e'.devs.InAir id.other n) := by
    rintro k t rfl hw hc hno
    refine ⟨fun hm => absurd hm hno, ?_⟩
    rintro ⟨⟨k', t', hkt, hlook⟩, -⟩
    cases hkt
    simp [hw, hc] at hlook
  cases h with
  | @call k c hpc =>
    refine ⟨fun hm => absurd hm List.not_mem_nil, ?_⟩
    rintro ⟨⟨k', t', hkt, -⟩, -⟩
    cases hkt
  | @work k t pc g o hpc hw =>
    obtain ⟨g₀, g₁, o₀, o₁, h₀, h₁, rfl, rfl⟩ := wlShadowWorker_arrive hw
    obtain ⟨-, -, hdev⟩ := chanelCheck_keeps g₁
    have hlook : ∃ k' t', WlInput.tick k t = .tick k' t' ∧ ((e.pc k').worked.isSome ∨ (e.pc k').checked.isSome) :=
      ⟨k, t, rfl, Or.inl (by rw [hpc]; rfl)⟩
    simp only [List.mem_append, h₀.no_collision, h₁.no_collision, false_or, mem_chanelCheck, hlook, true_and, goto_devs,
      inAir_iff, hdev]
  | @check k t pc r hpc =>
    obtain ⟨-, -, hdev⟩ := chanelCheck_keeps e.devs
    have hlook : ∃ k' t', WlInput.tick k t = .tick k' t' ∧ ((e.pc k').worked.isSome ∨ (e.pc k').checked.isSome) :=
      ⟨k, t, rfl, Or.inr (by rw [hpc]; rfl)⟩
    have hret : collision id m n ∉ (r.map (WlEvent.ret k)).toList := by
      cases r <;> cases id <;> simp [collision]
    simp only [List.mem_append, hret, or_false, mem_chanelCheck, hlook, true_and, goto_devs, inAir_iff, hdev]
  | test hpc | read hpc => exact hother rfl (by rw [hpc]; rfl) (by rw [hpc]; rfl) List.not_mem_nil
  | busy hpc | empty hpc | copy hpc =>
    exact hother rfl (by rw [hpc]; rfl) (by rw [hpc]; rfl) (by cases id <;> simp [collision])
  | put hpc =>
    exact hother rfl (by rw [hpc]; rfl) (by rw [hpc]; rfl) (by split_ifs <;> cases id <;> simp [collision])

/-! ## Once missed, missed for ever -/

/-- Packets `m` and `n` have been put, and are not in the air together. -/
structure Parted (e : Emul) (id : ConnId) (m n : Nat) : Prop where
  put : m < e.devs.puts id
  putOther : n < e.devs.puts id.other
  apart : ¬ (e.devs.InAir id m ∧ e.devs.InAir id.other n)

/-- A packet comes into the air when it is put, and only then. -/
theorem OutStep.inAir (h : OutStep e i e' j) (hm : m < e.devs.puts j) :
    m < e'.devs.puts j ∧ (e'.devs.InAir j m → e.devs.InAir j m) := by
  cases h with
  | same hout hputs => exact ⟨by rw [hputs]; exact hm, fun h => by rw [inAir_iff, hout] at h; exact inAir_iff.mpr h⟩
  | done _ _ hsent _ hputs =>
    refine ⟨by rw [hputs]; exact hm, fun h => ?_⟩
    rw [inAir_iff, hsent] at h
    cases h.1
  | put hsend hnum hputs _ =>
    refine ⟨by rw [hputs]; exact Nat.lt_succ_of_lt hm, fun h => ?_⟩
    rw [inAir_iff, hnum] at h
    exact absurd h.2 (Nat.ne_of_gt hm)

theorem Parted.step (h : Parted e id m n) (hmove : WlMove cfg e i e' o) :
    Parted e' id m n ∧ collision id m n ∉ o := by
  obtain ⟨hm, hair⟩ := (hmove.out id).inAir h.put
  obtain ⟨hn, hair'⟩ := (hmove.out id.other).inAir h.putOther
  have hapart : ¬ (e'.devs.InAir id m ∧ e'.devs.InAir id.other n) := fun hboth => h.apart (hboth.imp hair hair')
  exact ⟨⟨hm, hn, hapart⟩, fun hmem => hapart (hmove.mem_collision.mp hmem).2⟩

theorem Parted.never (h : Parted e id m n) (hr : run (emulStep cfg) e is = some (e', o)) : collision id m n ∉ o :=
  (run_induct (P := fun _ o e => Parted e id m n ∧ collision id m n ∉ o) ⟨h, List.not_mem_nil⟩
    (fun _ _ _ _ _ _ hp hs => by
      obtain ⟨hparted, hno⟩ := hp.1.step (emulStep_move hs)
      exact ⟨hparted, by simp [hp.2, hno]⟩) hr).2

/-! ## The first look -/

/-- A step that is no look leaves the output buffers as they are. -/
theorem WlMove.blind (h : WlMove cfg e i e' o) (hlook : e.looks i = false) (j : ConnId) :
    (e'.devs.dev j).outputBuff = (e.devs.dev j).outputBuff ∧ e'.devs.puts j = e.devs.puts j := by
  cases h with
  | work hpc | check hpc | put hpc => simp [Emul.looks, hpc] at hlook
  | copy hpc => exact ⟨by simp [WlEmulGlobal.take], rfl⟩
  | _ => exact ⟨rfl, rfl⟩

/-- A look that sees both packets counts them; any other look parts them. -/
theorem WlMove.look (h : WlMove cfg e i e' o) (hlook : e.looks i = true) (hm : e.devs.InAir id m)
    (hn : e.devs.InAir id.other n) (hputm : m < e.devs.puts id) (hputn : n < e.devs.puts id.other) :
    (e.sees i = true → collision id m n ∈ o) ∧
      (e.sees i = false → ¬ (e'.devs.InAir id m ∧ e'.devs.InAir id.other n)) := by
  have hcounts : collision id m n ∈ o ↔ _ := h.mem_collision
  cases h with
  | call hpc => cases hlook
  | @work k t pc g o hpc hw =>
    have hlooked : ∃ k' t', WlInput.tick k t = .tick k' t' ∧ ((e.pc k').worked.isSome ∨ (e.pc k').checked.isSome) :=
      ⟨k, t, rfl, Or.inl (by rw [hpc]; rfl)⟩
    have hchecked : (e.pc k).checked = none := by
      cases hk : e.pc k <;> rw [hk] at hpc <;> first | rfl | cases hpc
    have hsees : e.sees (.tick k t) = true ↔ ∀ j, wlAirDone (e.devs.dev j).outputBuff.sendTime (t.now j) = false := by
      simp only [Emul.sees, hchecked, hpc, Option.isSome_none, Option.isSome_some, Bool.false_or, Bool.true_and,
        Bool.and_eq_true, Bool.not_eq_eq_eq_not, Bool.not_true]
      exact ⟨fun hsee j => by cases j; exacts [hsee.1, hsee.2], fun hall => ⟨hall .id0, hall .id1⟩⟩
    have hflight : ∀ j, (e.devs.dev j).outputBuff.isSend = false := by
      intro j
      rcases id.eq_or_other j with rfl | rfl
      · exact (inAir_iff.mp hm).1
      · exact (inAir_iff.mp hn).1
    constructor
    · intro hsee
      have hstay : ∀ j, (g.dev j).outputBuff = (e.devs.dev j).outputBuff := fun j =>
        (wlShadowWorker_out hw j).2.2 (Or.inr (hsees.mp hsee j))
      refine hcounts.mpr ⟨hlooked, ?_⟩
      rw [goto_devs, inAir_iff, inAir_iff, hstay, hstay, ← inAir_iff, ← inAir_iff]
      exact ⟨hm, hn⟩
    · intro hsee hboth
      rw [goto_devs, inAir_iff, inAir_iff] at hboth
      have hnot : ¬ ∀ j, wlAirDone (e.devs.dev j).outputBuff.sendTime (t.now j) = false := fun hall => by
        rw [hsees.mpr hall] at hsee
        cases hsee
      push Not at hnot
      obtain ⟨j, hj⟩ := hnot
      have hsent := ((wlShadowWorker_out hw j).2.1 (hflight j) (by simpa using hj)).1
      rcases id.eq_or_other j with rfl | rfl
      · rw [hsent] at hboth
        cases hboth.1.1
      · rw [hsent] at hboth
        cases hboth.2.1
  | @check k t pc r hpc =>
    have hlooked : ∃ k' t', WlInput.tick k t = .tick k' t' ∧ ((e.pc k').worked.isSome ∨ (e.pc k').checked.isSome) :=
      ⟨k, t, rfl, Or.inr (by rw [hpc]; rfl)⟩
    obtain ⟨-, -, hdev⟩ := chanelCheck_keeps e.devs
    refine ⟨fun _ => hcounts.mpr ⟨hlooked, ?_⟩, fun hsee => by simp [Emul.sees, hpc] at hsee⟩
    rw [goto_devs, inAir_iff, inAir_iff, hdev, ← inAir_iff, ← inAir_iff]
    exact ⟨hm, hn⟩
  | @put k t payload timeout hpc =>
    refine ⟨fun hsee => ?_, fun _ hboth => ?_⟩
    · simp only [Emul.sees, hpc] at hsee
      exact absurd hsee Bool.false_ne_true
    rw [goto_devs, inAir_iff, inAir_iff] at hboth
    have hnum : ((e.devs.put k payload t.now₀).dev k).outputBuff.num = e.devs.puts k := by simp [WlEmulGlobal.put]
    rcases id.eq_or_other k with rfl | rfl
    · exact absurd (hboth.1.2.symm.trans hnum) (Nat.ne_of_lt hputm)
    · exact absurd (hboth.2.2.symm.trans hnum) (Nat.ne_of_lt hputn)
  | test hpc | busy hpc | read hpc | empty hpc | copy hpc =>
    simp only [Emul.looks, hpc] at hlook
    exact absurd hlook Bool.false_ne_true

/-- Both packets in the air: their collision is counted just when the first look sees them. -/
theorem counted_iff_seen (hm : e.devs.InAir id m) (hn : e.devs.InAir id.other n) (hputm : m < e.devs.puts id)
    (hputn : n < e.devs.puts id.other) (hr : run (emulStep cfg) e is = some (e', o)) :
    collision id m n ∈ o ↔ seenFirst cfg e is = true := by
  induction is generalizing e o with
  | nil =>
    cases hr
    simp [seenFirst]
  | cons i is ih =>
    obtain ⟨e₁, o₁, o₂, hs, hrest, rfl⟩ := run_cons.mp hr
    have hmove := emulStep_move hs
    rw [seenFirst, List.mem_append]
    cases hlook : e.looks i with
    | true =>
      obtain ⟨hsees, hparts⟩ := hmove.look hlook hm hn hputm hputn
      simp only [if_true]
      cases hsee : e.sees i with
      | true => simp [hsees hsee]
      | false =>
        have hparted : Parted e₁ id m n := ⟨((hmove.out id).inAir hputm).1, ((hmove.out id.other).inAir hputn).1,
          hparts hsee⟩
        have hno : collision id m n ∉ o₁ := fun hmem => hparts hsee (hmove.mem_collision.mp hmem).2
        simp [hno, hparted.never hrest]
    | false =>
      obtain ⟨hout, hputs⟩ := hmove.blind hlook id
      obtain ⟨hout', hputs'⟩ := hmove.blind hlook id.other
      have hno : collision id m n ∉ o₁ := by
        intro hmem
        obtain ⟨⟨k, t, rfl, hk⟩, -⟩ := hmove.mem_collision.mp hmem
        rcases hk with hk | hk <;> simp [Emul.looks, hk] at hlook
      simp only [Bool.false_eq_true, if_false, hs, hno, false_or]
      exact ih (by rw [inAir_iff, hout, ← inAir_iff]; exact hm) (by rw [inAir_iff, hout', ← inAir_iff]; exact hn)
        (by rw [hputs]; exact hputm) (by rw [hputs']; exact hputn) hrest

/-! ## The clock -/

theorem timercmpLe_trans {a b c : Timeval} (hab : timercmpLe a b = true) (hbc : timercmpLe b c = true) :
    timercmpLe a c = true := by
  unfold timercmpLe at *
  split_ifs at * <;> simp only [decide_eq_true_eq] at * <;> omega

/-- A packet that is out of the air was done at a reading of the clock. -/
theorem emulRun_done {is : List WlInput} (hr : run (emulStep cfg) (emulStart g) is = some (e, os)) (j : ConnId)
    (hput : 0 < e.devs.puts j) (hsent : (e.devs.dev j).outputBuff.isSend = true) :
    ∃ r ∈ is.flatMap WlInput.readings, wlAirDone (e.devs.dev j).outputBuff.sendTime r = true := by
  let P : List WlInput → List WlEvent → Emul → Prop := fun is _ e =>
    0 < e.devs.puts j → (e.devs.dev j).outputBuff.isSend = true →
      ∃ r ∈ is.flatMap WlInput.readings, wlAirDone (e.devs.dev j).outputBuff.sendTime r = true
  have hstart : P [] [] (emulStart g) := fun hput _ => absurd hput (Nat.lt_irrefl 0)
  have hstep : ∀ is os e i e' o, P is os e → emulStep cfg e i = some (e', o) → P (is ++ [i]) (os ++ o) e' := by
    intro is os e i e' o hP hs hput hsent
    rw [List.flatMap_append, List.flatMap_singleton]
    cases (emulStep_move hs).out j with
    | same hout hputs =>
      rw [hout] at hsent ⊢
      obtain ⟨r, hr, hdone⟩ := hP (hputs ▸ hput) hsent
      exact ⟨r, List.mem_append_left _ hr, hdone⟩
    | done hr hdone hsent htime hputs =>
      rw [htime]
      exact ⟨_, List.mem_append_right _ hr, hdone⟩
    | put hsend hnum hputs hlook =>
      rw [hsend] at hsent
      cases hsent
  exact run_induct (P := P) hstart hstep hr hput hsent

/-- While the clock goes forward, a packet stays in the air for the whole time on air. -/
theorem inAir_of_clock {pre : List WlInput} {t : WlTick} (hr : run (emulStep cfg) (emulStart g) pre = some (e, os))
    (hclock : ClockForward (pre ++ [.tick id t])) (hput : 0 < e.devs.puts j)
    (hair : wlAirDone (e.devs.dev j).outputBuff.sendTime t.now₀ = false) :
    (e.devs.dev j).outputBuff.isSend = false := by
  by_contra hsent
  obtain ⟨r, hmem, hdone⟩ := emulRun_done hr j hput (by simpa using hsent)
  rw [ClockForward, List.flatMap_append, List.pairwise_append] at hclock
  have hle := hclock.2.2 r hmem t.now₀ (by simp [WlInput.readings])
  have hlate : wlAirDone (e.devs.dev j).outputBuff.sendTime t.now₀ = true := timercmpLe_trans hdone hle
  rw [hlate] at hair
  cases hair

/-! ## Collisions -/

/-- **Which collisions are counted.** A send of `id` puts its packet while the other side has put one less than the time
on air ago. Their collision is counted, when the send has returned or at any other moment after the put, if and only if
the first look at the channel since then has seen both packets. -/
theorem collision_counted (cfg : WlConfig) (g : WlEmulGlobal) (id : ConnId) (pre post : List WlInput) (t : WlTick)
    (payload : PackData) (timeout : BitVec 32) (e e₁ e₂ : Emul) (os o₁ o₂ : List WlEvent)
    (hr : run (emulStep cfg) (emulStart g) pre = some (e, os)) (hpc : e.pc id = .sendPut payload timeout)
    (hclock : ClockForward (pre ++ [.tick id t])) (hput : 0 < e.devs.puts id.other)
    (hair : wlAirDone (e.devs.dev id.other).outputBuff.sendTime t.now₀ = false)
    (hs : emulStep cfg e (.tick id t) = some (e₁, o₁)) (hpost : run (emulStep cfg) e₁ post = some (e₂, o₂)) :
    (collision id (e.devs.puts id) (e.devs.dev id.other).outputBuff.num ∈ o₂ ↔ seenFirst cfg e₁ post = true) ∧
      e₂.devs.err = BitVec.ofNat 32 (errors (os ++ o₁ ++ o₂)) := by
  have hother : (e.devs.dev id.other).outputBuff.isSend = false := inAir_of_clock hr hclock hput hair
  have hn : e.devs.InAir id.other (e.devs.dev id.other).outputBuff.num := inAir_iff.mpr ⟨hother, rfl⟩
  have hputn : (e.devs.dev id.other).outputBuff.num < e.devs.puts id.other :=
    ((emulRun_accounts hr).lane id.other).ledger.lt (Or.inr (Or.inr (Or.inr hn)))
  refine ⟨?_, ?_⟩
  · have hmove := emulStep_move hs
    cases hmove with
    | @put _ _ payload' timeout' hpc' =>
      refine counted_iff_seen ?_ ?_ ?_ ?_ hpost
      · simp [inAir_iff, WlEmulGlobal.put]
      · rw [inAir_iff] at hn ⊢
        simpa [WlEmulGlobal.put, setOut_out_of_ne] using hn
      · simp [WlEmulGlobal.put]
      · simpa [WlEmulGlobal.put] using hputn
    | work hpc' | check hpc' | test hpc' | busy hpc' | read hpc' | empty hpc' | copy hpc' =>
      rw [hpc] at hpc'
      cases hpc'
  · have hall : run (emulStep cfg) (emulStart g) (pre ++ .tick id t :: post) = some (e₂, os ++ o₁ ++ o₂) :=
      run_append.mpr ⟨e, os, o₁ ++ o₂, hr, run_cons.mpr ⟨e₁, o₁, o₂, hs, hpost, rfl⟩, List.append_assoc ..⟩
    exact (emulRun_accounts hall).err

/-- Two sends at 0 and 50 ms that sleep, up to the second put. -/
def sleepingSends : List WlInput :=
  let payload : PackData := Vector.replicate 19 0
  [.call .id0 (.send payload 200), tickAt .id0 0, tickAt .id0 0, tickAt .id0 0, .call .id1 (.send payload 200),
    tickAt .id1 50, tickAt .id1 50]

/-- The sends wake at 100 and 150 ms. -/
def wakes : List WlInput := [tickAt .id0 100, tickAt .id0 100, tickAt .id1 150, tickAt .id1 150]

theorem collision_missed : ∃ e e₁ e₂ os o₁ o₂ payload timeout,
    run (emulStep .clean) (emulStart .zeroed) sleepingSends = some (e, os) ∧
    e.pc .id1 = .sendPut payload timeout ∧ 0 < e.devs.puts .id0 ∧
    wlAirDone (e.devs.dev .id0).outputBuff.sendTime ⟨0, 50000⟩ = false ∧
    emulStep .clean e (tickAt .id1 50) = some (e₁, o₁) ∧ run (emulStep .clean) e₁ wakes = some (e₂, o₂) ∧
    ClockForward (sleepingSends ++ tickAt .id1 50 :: wakes) ∧
    Along (emulStep .clean) Rested (emulStart .zeroed) (sleepingSends ++ tickAt .id1 50 :: wakes) ∧
    e₂.pc .id0 = .out ∧ e₂.pc .id1 = .out ∧ e₂.devs.err = 0 := by
  have heval : (run (emulStep .clean) (emulStart .zeroed) sleepingSends).bind (fun r =>
      (emulStep .clean r.1 (tickAt .id1 50)).bind fun r₁ => (run (emulStep .clean) r₁.1 wakes).map fun r₂ =>
        ((r.1.pc .id1, decide (0 < r.1.devs.puts .id0),
          wlAirDone (r.1.devs.dev .id0).outputBuff.sendTime ⟨0, 50000⟩),
        checkAlong (emulStep .clean) (fun e i => decide (Rested e i)) (emulStart .zeroed)
          (sleepingSends ++ tickAt .id1 50 :: wakes), r₂.1.pc .id0, r₂.1.pc .id1, r₂.1.devs.err)) =
      some ((.sendPut (Vector.replicate 19 0) 200, true, false), true, .out, .out, 0) := by decide +kernel
  obtain ⟨⟨e, os⟩, hr, h₁⟩ := Option.bind_eq_some_iff.mp heval
  obtain ⟨⟨e₁, o₁⟩, hs, h₂⟩ := Option.bind_eq_some_iff.mp h₁
  obtain ⟨⟨e₂, o₂⟩, hpost, hfacts⟩ := Option.map_eq_some_iff.mp h₂
  simp only [Prod.mk.injEq, decide_eq_true_eq] at hfacts
  obtain ⟨⟨hpc, hput, hair⟩, hrested, hpc₀, hpc₁, herr⟩ := hfacts
  exact ⟨e, e₁, e₂, os, o₁, o₂, _, _, hr, hpc, hput, hair, hs, hpost, by unfold ClockForward; decide,
    along_of_check hrested, hpc₀, hpc₁, herr⟩

/-- Two sends at 0 and 50 ms that do not sleep, up to the second put. -/
def pollingSends : List WlInput :=
  let payload : PackData := Vector.replicate 19 0
  [.call .id0 (.send payload 0), tickAt .id0 0, tickAt .id0 0, tickAt .id0 0, .call .id1 (.send payload 0),
    tickAt .id1 50, tickAt .id1 50]

theorem collision_counted_polling : ∃ e e₁ e₂ os o₁ o₂,
    run (emulStep .clean) (emulStart .zeroed) pollingSends = some (e, os) ∧
    emulStep .clean e (tickAt .id1 50) = some (e₁, o₁) ∧
    run (emulStep .clean) e₁ [tickAt .id1 50] = some (e₂, o₂) ∧ e₂.pc .id1 = .out ∧
    collision .id1 0 0 ∈ o₂ ∧ e₂.devs.err = 1 := by
  have heval : (run (emulStep .clean) (emulStart .zeroed) pollingSends).bind (fun r =>
      (emulStep .clean r.1 (tickAt .id1 50)).bind fun r₁ =>
        (run (emulStep .clean) r₁.1 [tickAt .id1 50]).map fun r₂ =>
          ((r.1.pc .id1, r.1.devs.puts .id0, (r.1.devs.dev .id0).outputBuff.num,
            wlAirDone (r.1.devs.dev .id0).outputBuff.sendTime ⟨0, 50000⟩), r.1.devs.puts .id1,
          seenFirst .clean r₁.1 [tickAt .id1 50], r₂.1.pc .id1, errors (r.2 ++ r₁.2 ++ r₂.2))) =
      some ((.sendPut (Vector.replicate 19 0) 0, 1, 0, false), 0, true, .out, 1) := by decide +kernel
  obtain ⟨⟨e, os⟩, hr, h₁⟩ := Option.bind_eq_some_iff.mp heval
  obtain ⟨⟨e₁, o₁⟩, hs, h₂⟩ := Option.bind_eq_some_iff.mp h₁
  obtain ⟨⟨e₂, o₂⟩, hpost, hfacts⟩ := Option.map_eq_some_iff.mp h₂
  simp only [Prod.mk.injEq] at hfacts
  obtain ⟨⟨hpc, hputs, hnum, hair⟩, hputs₁, hseen, hret, herrors⟩ := hfacts
  obtain ⟨hcounted, herr⟩ := collision_counted .clean .zeroed .id1 pollingSends [tickAt .id1 50]
    ⟨⟨0, 50000⟩, ⟨0, 50000⟩, [], []⟩ _ _ e e₁ e₂ os o₁ o₂ hr hpc (by unfold ClockForward; decide)
      (by rw [ConnId.other, hputs]; decide) hair hs hpost
  rw [ConnId.other, hputs₁, hnum] at hcounted
  rw [herrors] at herr
  exact ⟨e, e₁, e₂, os, o₁, o₂, hr, hs, hpost, hret, hcounted.mpr hseen, herr⟩

end LoraBridge
