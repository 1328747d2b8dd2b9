import LoraBridge.Refinement

/-!
# Taking turns

Packets are counted: those that a station holds, and those elsewhere. A move of the slave makes no packet: it answers at
most one for one (`SMove.load`). A move of the master makes one only when there is none, provided it does not give up
waiting before (`MMove.turn`); so there is never more than one.
-/

set_option autoImplicit false

namespace LoraBridge

/-- The packets a station holds. The one in `send` is no longer counted once the radio has it. -/
def Station.load {σ : Type} (a : Station σ) : Nat :=
  (if a.place = .sending then 0 else a.send.toList.length) + a.recv.toList.length

/-- The slave has consumed a packet that it has not answered yet. -/
def Station.due (b : Station LlcStateS) : Nat := if b.st = .receivedAll ∨ b.st = .resend then 1 else 0

/-- It is the master's turn, or somewhere there is one packet; `r` counts the packets that the master does not hold. -/
structure Turn (r : Nat) (a : Station LlcStateM) : Prop where
  single : a.load + r ≤ 1
  turn : a.st ≠ .sendAll → a.load + r = 0

theorem Turn.mono {r r' : Nat} {a : Station LlcStateM} (h : Turn r a) (hle : r' ≤ r) : Turn r' a := by
  obtain ⟨hsingle, hturn⟩ := h
  exact ⟨by omega, fun hst => by have := hturn hst; omega⟩

theorem SMove.load {b b' : Station LlcStateS} {i : Input} {o : List (Event LlcStateS)} (h : SMove b i b' o) :
    b'.load + b'.due + (transmitted o).length ≤ b.load + b.due + i.packet.toList.length := by
  cases h with
  | rest hp hst hrecv => simp [Station.load, Station.due, hp, hst, hrecv]
  | discard hp hst hrecv hsend => simp [Station.load, Station.due, hp, hst, hrecv, hsend]
  | again hp hst hrecv hsend => simp [Station.load, Station.due, hp, hst, hrecv, hsend]
  | accept hp hst hrecv hsend => simp [Station.load, Station.due, hp, hst, hrecv, hsend]
  | respond hp hst hsend hrecv => simp [Station.load, Station.due, hp, hst, hsend, hrecv]
  | finish hp hst hrecv => simp [Station.load, Station.due, hp, hst, hrecv]
  | repeatLast hp hst hsend hrecv => simp [Station.load, Station.due, hp, hst, hsend, hrecv]
  | echo hp hst hsend hrecv => simp [Station.load, Station.due, hp, hst, hsend, hrecv]
  | call hp hst hrecv hsend => simp [Station.load, Station.due, hp, hst, hrecv, hsend]
  | listen hp hst hrecv hsend => simp [Station.load, Station.due, hst, hrecv, hsend]
  | sent hp hst hrecv => simp [Station.load, Station.due, hst, hrecv]
  | fail hp hst hrecv hsend => simp [Station.load, Station.due, hst, hrecv, hsend]
  | arrive hp hst hrecv hsend hpacket => simp [Station.load, Station.due, hst, hsend, hpacket]

/-- While the master waits for the response it makes no packet. -/
theorem MMove.waiting {a a' : Station LlcStateM} {i : Input} {o : List (Event LlcStateM)} (h : MMove a i a' o)
    (hst : a.st = .sendAll) (hst' : a'.st = .sendAll) :
    a'.load + (transmitted o).length ≤ a.load + i.packet.toList.length := by
  cases h with
  | wait hp _ hrecv => simp [Station.load, hp, hrecv]
  | call hp _ hrecv _ hsend => simp [Station.load, hp, hrecv, hsend]
  | listen hp _ hrecv _ hsend => simp [Station.load, hrecv, hsend]
  | sent hp _ hrecv => simp [Station.load, hrecv]
  | fail hp _ hrecv hsend => simp [Station.load, hrecv, hsend]
  | arrive hp _ hrecv hsend _ hpacket => simp [Station.load, hsend, hpacket]
  | _ => simp_all

/-- A move of the master keeps turns, if it gives up waiting only when there is no packet elsewhere. -/
theorem MMove.turn {a a' : Station LlcStateM} {i : Input} {o : List (Event LlcStateM)} {r r' : Nat}
    (h : MMove a i a' o) (ht : Turn r a) (hlate : a'.st = .resend → r = 0)
    (hr : r' + i.packet.toList.length ≤ r + (transmitted o).length) : Turn r' a' := by
  obtain ⟨hone, hturn⟩ := ht
  have hwait := h.waiting
  cases h with
  | start hp hst hsend hrecv =>
    have hnone := hturn (by rw [hst]; decide)
    simp only [Input.packet, transmitted_enter, Option.toList_none, List.length_nil] at hr
    exact ⟨by simp [Station.load, hp, hrecv]; omega, fun hne => absurd rfl hne⟩
  | response hp hst hrecv hsend hresend =>
    simp only [Station.load, hp, hrecv, hsend] at hone
    simp at hr hone
    exact ⟨by simp [Station.load, hp, hsend]; omega, fun _ => by simp [Station.load, hp, hsend]; omega⟩
  | timeout hp hst hrecv hsend hresend hexp =>
    have hnone := hlate rfl
    simp at hr
    exact ⟨by simp [Station.load, hp, hsend, hrecv]; omega, fun _ => by simp [Station.load, hp, hsend, hrecv]; omega⟩
  | complete hp hst hsend hrecv =>
    have hnone := hturn (by rw [hst]; decide)
    simp at hr
    exact ⟨by simp [Station.load, hp, hsend, hrecv]; omega, fun _ => by simp [Station.load, hp, hsend, hrecv]; omega⟩
  | retry hp hst hsend hrecv hresend =>
    have hnone := hturn (by rw [hst]; decide)
    simp at hr
    exact ⟨by simp [Station.load, hp, hrecv]; omega, fun hne => absurd rfl hne⟩
  | _ =>
    have hst : a.st = .sendAll := by assumption
    have hload := hwait hst hst
    exact ⟨by omega, fun hne => absurd hst hne⟩

/-! ## The loops -/

theorem SRel.move {l l' : Loop LlcStateS} {b : Station LlcStateS} {i : Input} {o : List (Event LlcStateS)}
    (h : SRel l b) (hs : sStep l i = some (l', o)) : ∃ b', SRel l' b' ∧ SMove b i b' o := by
  obtain ⟨b', hb, hrel⟩ := (h.step i).of_some hs
  exact ⟨b', hrel, sStation_move h.inv hb⟩

/-- A step of the master that reads its timer as expired only when nothing waits for the radio and `r` is zero. -/
theorem MRel.move {l l' : Loop LlcStateM} {a : Station LlcStateM} {i : Input} {o : List (Event LlcStateM)} {r : Nat}
    (h : MRel l a) (hs : mStep l i = some (l', o))
    (hquiet : ∀ now, i = .pass now → a.place = .llc → l.llcState = .sendAll → stkLlcHasReceivedPack l.tsm = false →
      ttTimerIsTimeouted l.tsm.llcTimer now = true → a.send = none ∧ r = 0) :
    ∃ a', MRel l' a' ∧ MMove a i a' o ∧ (a'.st = .resend → r = 0) := by
  obtain ⟨c, hrel⟩ := h.rel
  have hpatient : TimerPatient l i := by
    cases i with
    | pass now =>
      intro hst hrecv hexp
      have hplace : a.place = .llc := by
        rw [← hrel.place]
        simp only [mStep] at hs
        split at hs
        · rename_i hpc
          rw [hpc]
          rfl
        · cases hs
      rw [hrel.hasPackToSend, (hquiet now rfl hplace hst hrecv hexp).1]
      rfl
    | _ => trivial
  obtain ⟨a', ha, hrel'⟩ := (h.step hpatient).of_some hs
  have hmove := mStation_move h.inv (hpatient.station hrel) ha
  refine ⟨a', hrel', hmove, fun hresent => ?_⟩
  cases hmove with
  | timeout hp hst hrecv hsend hresend hexp =>
    exact (hquiet _ rfl hp (by rw [hrel.st, hst]) (by rw [hrel.hasReceivedPack, hrecv]; rfl)
      (by rw [hrel.llcTimer, hexp])).2
  | _ => simp_all

end LoraBridge
