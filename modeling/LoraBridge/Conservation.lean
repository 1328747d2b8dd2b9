import LoraBridge.Queues

/-!
# Packs are neither lost nor duplicated

In every state of both loops each pack is on exactly one list of its side, the counters count, and no pool runs empty
(`packs_conserved`): on the slave and on a master that keeps its queues by the relation with the station, on a jammed
master because its owner lists stand still.
-/

set_option autoImplicit false

namespace LoraBridge

open ListHead Transducer

/-- The owner lists of `t` are those of `c`, and they hold each pack once. -/
structure ConservedIn (c : Lists) (t : Tsm) : Prop where
  owner : Forest t.owner c.owner
  queue : Seg t.mac (.head .recvList) (c.recvList.map .item) (.head .recvList)
  /-- each send pack is on one of its three lists, once -/
  sendPacks : (c.sendListPool ++ c.llcSendOwned ++ c.llcResendList).Perm sendPacks
  /-- each receive pack is on one of its two lists, once -/
  recvPacks : (c.recvListPool ++ c.llcRecvOwned).Perm recvPacks
  sendCounter : t.llcSendOwnedCounter.toNat = c.llcSendOwned.length + c.llcResendList.length
  recvCounter : t.llcRecvOwnedCounter.toNat = c.llcRecvOwned.length
  sendCounter_le : t.llcSendOwnedCounter.toNat ≤ 1
  recvCounter_le : t.llcRecvOwnedCounter.toNat ≤ 1
  queued : ∀ p ∈ c.recvList, p ∈ c.llcRecvOwned
  /-- a pool that is asked for a pack has one -/
  sendPool : c.sendListPool ≠ [] ∧ Assert.sendListPoolEmpty ∉ t.stderr
  recvPool : c.recvListPool ≠ [] ∧ Assert.recvListPoolEmpty ∉ t.stderr

def Conserved (t : Tsm) : Prop := ∃ c, ConservedIn c t

theorem ofNat_toNat_of_le_one {n : Nat} (h : n ≤ 1) : (BitVec.ofNat 8 n).toNat = n := by
  rw [BitVec.toNat_ofNat]
  omega

/-- The relation with a station, when a packet waits or a receive is going on but not both. -/
theorem Rel.conserved {σ : Type} {c : Lists} {l : Loop σ} {a : Station σ} (h : Rel c l a) (hs : a.Supplied)
    (hrecv : a.place = .receiving → a.recv = none) : ConservedIn c l.tsm := by
  have hsend := h.resend_length
  have hrecv' : c.llcRecvOwned.length ≤ 1 := by
    have hlen := congrArg List.length h.recv
    rw [List.length_map] at hlen
    rw [h.recvOwned, List.length_append, hlen]
    by_cases hp : a.place = .receiving
    · rw [hrecv hp]
      cases l.pc <;> simp [Pc.holder]
    · rw [h.holder_nil hp]
      cases a.recv <;> simp
  have hpool : c.recvListPool ≠ [] := by
    intro hnil
    have hlen := h.recvPerm.length_eq
    simp only [hnil, List.nil_append, LoraBridge.recvPacks, List.length_map, List.length_finRange] at hlen
    omega
  obtain ⟨p, ps, hp⟩ := h.sendListPool_cons
  refine ⟨h.linked.owner, h.linked.mac.ring .recvList, ?_, h.recvPerm, ?_, ?_, ?_, ?_, fun p hp => h.recv_owned hp,
    ⟨by rw [hp]; simp, ?_⟩, hpool, ?_⟩
  · rw [h.sendOwned, List.append_nil]
    exact h.sendPerm
  · rw [h.sendCounter, ofNat_toNat_of_le_one hsend, h.sendOwned]
    simp
  · rw [h.recvCounter, ofNat_toNat_of_le_one hrecv']
  · rw [h.sendCounter, ofNat_toNat_of_le_one hsend]
    exact hsend
  · rw [h.recvCounter, ofNat_toNat_of_le_one hrecv']
    exact hrecv'
  · rw [h.stderr]
    exact hs.1
  · rw [h.stderr]
    exact hs.2

theorem SRel.conserved {l : Loop LlcStateS} {a : Station LlcStateS} (h : SRel l a) : Conserved l.tsm := by
  obtain ⟨c, hrel⟩ := h.rel
  refine ⟨c, hrel.conserved h.supplied fun hp => ?_⟩
  have hinv := h.inv
  cases hst : a.st <;> simp only [SInv, hp, hst] at hinv
  exact hinv.2

theorem MRel.conserved {l : Loop LlcStateM} {a : Station LlcStateM} (h : MRel l a) : Conserved l.tsm := by
  obtain ⟨c, hrel⟩ := h.rel
  refine ⟨c, hrel.conserved h.supplied fun hp => ?_⟩
  have hinv := h.inv
  cases hst : a.st <;> simp only [MInv, hp, hst] at hinv
  exact hinv.2.1

/-- A transmitter with the owner lists of a conserved one, and an empty receive queue. -/
theorem ConservedIn.same {c : Lists} {t t' : Tsm} (h : ConservedIn c t) (hs : Still t t')
    (hqueue : Seg t'.mac (.head .recvList) [] (.head .recvList)) : ConservedIn { c with recvList := [] } t' where
  owner := by
    rw [hs.owner]
    exact h.owner
  queue := hqueue
  sendPacks := h.sendPacks
  recvPacks := h.recvPacks
  sendCounter := by rw [hs.sendCounter]; exact h.sendCounter
  recvCounter := by rw [hs.recvCounter]; exact h.recvCounter
  sendCounter_le := by rw [hs.sendCounter]; exact h.sendCounter_le
  recvCounter_le := by rw [hs.recvCounter]; exact h.recvCounter_le
  queued _ hp := by cases hp
  sendPool := ⟨h.sendPool.1, fun hx => (hs.stderr _ hx).elim h.sendPool.2 nofun⟩
  recvPool := ⟨h.recvPool.1, fun hx => (hs.stderr _ hx).elim h.recvPool.2 nofun⟩

/-- **Conservation of packs**, for every sequence of receive outcomes and of timer answers. -/
theorem packs_conserved (t : Tsm) :
    (∃ l₀, sStart t = some l₀ ∧ ∀ (is : List Input) (l : Loop LlcStateS) (os : List (Event LlcStateS)),
      run sStep l₀ is = some (l, os) → Conserved l.tsm) ∧
    (∃ l₀, mStart t = some l₀ ∧ ∀ (is : List Input) (l : Loop LlcStateM) (os : List (Event LlcStateM)),
      run mStep l₀ is = some (l, os) → Conserved l.tsm) := by
  constructor
  · obtain ⟨l₀, h₀, -⟩ := sStart_rel t
    refine ⟨l₀, h₀, fun is l os hr => ?_⟩
    obtain ⟨a, -, hrel⟩ := sRun_station h₀ hr
    exact hrel.conserved
  · obtain ⟨l₀, h₀, -⟩ := mStart_rel t
    refine ⟨l₀, h₀, fun is l os hr => ?_⟩
    rcases mRun_cases h₀ hr with ⟨-, a, hrel⟩ | ⟨-, ⟨p, hjam⟩, l₁, a, hrel, hsame⟩
    · exact hrel.conserved
    · obtain ⟨c, hc⟩ := hrel.conserved
      exact ⟨_, hc.same hsame ⟨hjam.recvNext, hjam.recvPrev⟩⟩

end LoraBridge
