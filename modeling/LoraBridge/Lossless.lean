import LoraBridge.Agreement
import LoraBridge.Calls

/-!
# A reliable channel

A channel that loses and damages nothing keeps the one packet of a transaction: while the master waits there is one,
exactly (`Whole.present`). So no packet is sent twice, and what the radio has got from
a loop are the packets of its transactions, each once and in order (`Reliably`).
-/

set_option autoImplicit false

namespace LoraBridge

open Transducer

/-- The channel does neither lose nor damage a packet. -/
def NetInput.Reliable : NetInput → Prop
  | .lose _ => False
  | .spoil _ _ => False
  | _ => True

variable {c n k c' n' k' : Nat} {a a' : Station LlcStateM} {b b' : Station LlcStateS}
  {air inbuf : Side → Option PackData} {i : Input} {x y : Option PackData}

/-! ## Moves that keep their packets -/

@[simp] theorem Input.packet_pass (now : Timeval) : (Input.pass now).packet = none := rfl
@[simp] theorem Input.packet_call : Input.call.packet = none := rfl
@[simp] theorem Input.packet_sent : Input.sent.packet = none := rfl
@[simp] theorem transactions_length (n : Nat) : (transactions n).length = n := by simp [transactions]

theorem MMove.transmits {o : List (Event LlcStateM)} (h : MMove a i a' o) {d : PackData} (hd : d ∈ transmitted o) :
    a.send = some d ∧ a.place ≠ .sending := by
  cases h with
  | call hp _ _ _ hsend =>
    rw [transmitted_tx, List.mem_singleton] at hd
    rw [hd, hp]
    exact ⟨hsend, by decide⟩
  | _ => simp at hd

theorem SMove.transmits {o : List (Event LlcStateS)} (h : SMove b i b' o) {d : PackData} (hd : d ∈ transmitted o) :
    b.send = some d := by
  cases h with
  | call _ _ _ hsend =>
    rw [transmitted_tx, List.mem_singleton] at hd
    rw [hd]
    exact hsend
  | _ => simp at hd

theorem MMove.keeps {o : List (Event LlcStateM)} (h : MMove a i a' o) (hst : a.st = .sendAll)
    (hst' : a'.st = .sendAll) :
    a'.load + (transmitted o).length = a.load + i.packet.toList.length := by
  cases h with
  | wait hp _ hrecv => simp [Station.load, hp, hrecv]
  | call hp _ hrecv _ hsend => simp [Station.load, hp, hrecv, hsend]
  | listen hp _ hrecv _ hsend => simp [Station.load, hrecv, hsend]
  | sent hp _ hrecv => simp [Station.load, hp, hrecv]
  | fail hp _ hrecv hsend _ hpacket => simp [Station.load, hrecv, hsend, hpacket]
  | arrive hp _ hrecv hsend _ hpacket => simp [Station.load, hrecv, hsend, hpacket]
  | _ => simp_all

/-- The slave drops a packet only if it is not single. -/
theorem SMove.keeps {o : List (Event LlcStateS)} (h : SMove b i b' o)
    (hsingle : ∀ d, b.recv = some d → stkGetPackType d = .typeSingle) :
    b'.load + b'.due + (transmitted o).length = b.load + b.due + i.packet.toList.length := by
  cases h with
  | discard hp hst hrecv hsend htype => exact absurd (hsingle _ hrecv) htype
  | rest hp hst hrecv => simp [Station.load, Station.due, hp, hst, hrecv]
  | again hp hst hrecv hsend => simp [Station.load, Station.due, hp, hst, hrecv, hsend]
  | accept hp hst hrecv hsend => simp [Station.load, Station.due, hp, hst, hrecv, hsend]
  | respond hp hst hsend hrecv => simp [Station.load, Station.due, hp, hst, hsend, hrecv]
  | finish hp hst hrecv => simp [Station.load, Station.due, hp, hst, hrecv]
  | repeatLast hp hst hsend hrecv => simp [Station.load, Station.due, hp, hst, hsend, hrecv]
  | echo hp hst hsend hrecv => simp [Station.load, Station.due, hp, hst, hsend, hrecv]
  | call hp hst hrecv hsend => simp [Station.load, Station.due, hp, hst, hrecv, hsend]
  | listen hp hst hrecv hsend => simp [Station.load, Station.due, hst, hrecv, hsend]
  | sent hp hst hrecv => simp [Station.load, Station.due, hp, hst, hrecv]
  | fail hp hst hrecv hsend hpacket => simp [Station.load, Station.due, hst, hrecv, hsend, hpacket]
  | arrive hp hst hrecv hsend hpacket => simp [Station.load, Station.due, hst, hrecv, hsend, hpacket]

/-- What a side hands to a free channel, and takes intact from it, is neither lost nor made there. -/
theorem channelLoad_keeps {σ : Type} (air : Side → Option PackData) (o : List (Event σ)) (z : Side)
    (htake : takes (inbuf z) i = some y) (hfree : (transmitted o).length + (air z).toList.length ≤ 1)
    (hintact : ∀ d, inbuf z = some d → stkTestPackChecksumm d = true) :
    channelLoad (Function.update air z (puts (air z) o)) (Function.update inbuf z y) + i.packet.toList.length =
      channelLoad air inbuf + (transmitted o).length := by
  have hputs : (puts (air z) o).toList.length = (air z).toList.length + (transmitted o).length := by
    rw [puts]
    cases htx : transmitted o with
    | nil => simp
    | cons d tx =>
      rw [htx, List.length_cons] at hfree
      have hair : air z = none := by
        cases hair : air z with
        | none => rfl
        | some d => simp [hair] at hfree
      have hone : tx.length = 0 := by omega
      simp [hair, hone]
  have htakes : y.toList.length + i.packet.toList.length = (inbuf z).toList.length := by
    unfold takes at htake
    split at htake
    · rename_i d
      split_ifs at htake with hin
      cases htake
      rw [hin, Input.packet, if_pos (hintact d hin)]
      rfl
    · rename_i hne
      cases htake
      have hpacket : i.packet = none := by
        unfold Input.packet
        split
        · exact absurd rfl (hne _)
        · rfl
      simp [hpacket]
  cases z <;> simp only [channelLoad, Function.update_self, ne_eq, reduceCtorEq, not_false_eq_true,
    Function.update_of_ne] <;> omega

/-! ## What the radio gets -/

/-- The packets of transactions `1..n`. -/
def frames (n : Nat) : List PackData := (transactions n).map singleFrame

/-- The packet that the radio has not got from the loop yet. -/
def Station.waiting {σ : Type} (x : Station σ) : List PackData := if x.place = .sending then [] else x.send.toList

/-- That of a response that the slave has not built yet. -/
def Station.asked (b : Station LlcStateS) : List PackData := if b.st = .receivedAll then [singleFrame b.transId] else []

theorem Station.waiting_le {σ : Type} (x : Station σ) : x.waiting.length ≤ x.load := by
  unfold Station.waiting Station.load
  split_ifs
  · exact Nat.zero_le _
  · exact Nat.le_add_right ..

theorem Station.asked_le (b : Station LlcStateS) : b.asked.length ≤ b.due := by
  unfold Station.asked Station.due
  by_cases hst : b.st = .receivedAll <;> simp [hst]

/-- A request is built once for each transaction, if none is sent again. -/
theorem MMove.hands {o : List (Event LlcStateM)} (h : MMove a i a' o) (hst : a.st ≠ .resend) :
    transmitted o ++ a'.waiting = a.waiting ++ (entered .sendAll o).map singleFrame := by
  cases h with
  | retry _ hresend => exact absurd hresend hst
  | start hp _ hsend => simp [Station.waiting, hp, hsend, entered_enter]
  | response | timeout | complete => simp [Station.waiting, entered_enter]
  | wait hp => simp [Station.waiting, hp]
  | call hp _ _ _ hsend => simp [Station.waiting, hp, hsend]
  | listen _ _ _ _ hsend | fail _ _ _ hsend | arrive _ _ _ hsend => simp [Station.waiting, hsend]
  | sent hp => simp [Station.waiting, hp]

/-- So is a response for each request that has been accepted. -/
theorem SMove.hands {o : List (Event LlcStateS)} (h : SMove b i b' o) (hst : b.st ≠ .resend) :
    transmitted o ++ (b'.waiting ++ b'.asked) = b.waiting ++ b.asked ++ (entered .receivedAll o).map singleFrame := by
  cases h with
  | repeatLast _ hresend | echo _ hresend => exact absurd hresend hst
  | again _ h _ hsend | discard _ h _ hsend | accept _ h _ hsend =>
    simp [Station.waiting, Station.asked, h, hsend, entered_enter]
  | respond hp h hsend => simp [Station.waiting, Station.asked, hp, h, hsend, entered_enter]
  | rest hp h => simp [Station.waiting, Station.asked, hp, h]
  | finish hp h => simp [Station.waiting, Station.asked, hp, h, entered_enter]
  | call hp h _ hsend => simp [Station.waiting, Station.asked, hp, h, hsend]
  | listen _ h _ hsend | fail _ h _ hsend | arrive _ h _ hsend => simp [Station.waiting, Station.asked, h, hsend]
  | sent hp h => simp [Station.waiting, Station.asked, hp, h]

/-- All packets but those that wait, of which there is at most one. -/
theorem frames_split {n : Nat} {tx rest : List PackData} (h : tx ++ rest = frames n) (hone : rest.length ≤ 1) :
    tx = frames n ∨ rest ≠ [] ∧ tx = frames (n - 1) := by
  cases rest with
  | nil => exact Or.inl (by rw [← h, List.append_nil])
  | cons d rest =>
    refine Or.inr ⟨List.cons_ne_nil _ _, ?_⟩
    cases n with
    | zero => simp [frames, transactions] at h
    | succ n =>
      rw [frames, transactions_succ, List.map_append] at h
      exact (List.append_inj' h (by simp at hone ⊢; omega)).1

/-! ## The invariant -/

/-- The request is on its way to the slave. -/
def Asked (a : Station LlcStateM) (b : Station LlcStateS) (air inbuf : Side → Option PackData) : Prop :=
  a.send.isSome = true ∧ a.place ≠ .sending ∨ (air .master).isSome = true ∨ (inbuf .slave).isSome = true ∨
    b.recv.isSome = true

theorem Asked.load (h : Asked a b air inbuf) : 1 ≤ a.load + b.recv.toList.length + channelLoad air inbuf := by
  rcases h with ⟨hsend, hplace⟩ | hair | hin | hrecv
  · obtain ⟨d, hd⟩ := Option.isSome_iff_exists.mp hsend
    simp only [Station.load, hplace, if_false, hd, Option.toList_some, List.length_singleton]
    omega
  · obtain ⟨d, hd⟩ := Option.isSome_iff_exists.mp hair
    simp only [channelLoad, hd, Option.toList_some, List.length_singleton]
    omega
  · obtain ⟨d, hd⟩ := Option.isSome_iff_exists.mp hin
    simp only [channelLoad, hd, Option.toList_some, List.length_singleton]
    omega
  · obtain ⟨d, hd⟩ := Option.isSome_iff_exists.mp hrecv
    simp only [hd, Option.toList_some, List.length_singleton]
    omega

structure Whole (n k : Nat) (a : Station LlcStateM) (b : Station LlcStateS) (air inbuf : Side → Option PackData) :
    Prop where
  intact : ∀ z d, air z = some d ∨ inbuf z = some d → stkTestPackChecksumm d = true
  present : a.st = .sendAll → a.load + (b.load + b.due + channelLoad air inbuf) = 1
  /-- the slave has not seen it before -/
  asked : a.st = .sendAll → Asked a b air inbuf → k + 1 = n
  once : a.st ≠ .resend ∧ b.st ≠ .resend

/-- A packet in the channel after a step of a side was handed over by it, or was there. -/
theorem channel_mem {σ : Type} {o : List (Event σ)} {z w : Side} {d : PackData} (htake : takes (inbuf z) i = some y)
    (h : Function.update air z (puts (air z) o) w = some d ∨ Function.update inbuf z y w = some d) :
    d ∈ transmitted o ∨ air w = some d ∨ inbuf w = some d := by
  by_cases hw : w = z
  · subst hw
    rw [Function.update_self, Function.update_self] at h
    rcases h with h | h
    · exact (puts_mem h).imp_right Or.inl
    · exact Or.inr (Or.inr (takes_mem htake h))
  · rw [Function.update_of_ne hw, Function.update_of_ne hw] at h
    exact Or.inr h

theorem stkTest_frame (n : Nat) : stkTestPackChecksumm (frame n) = true := stkTest_singleFrame _

/-! ## The steps -/

/-- While the master waits. -/
theorem Whole.master_wait {o : List (Event LlcStateM)} (h : Agreeing c n k a b air inbuf)
    (hw : Whole n k a b air inbuf) (hmove : MMove a i a' o) (htake : takes (inbuf .master) i = some y)
    (hst : a.st = .sendAll) (hst' : a'.st = .sendAll)
    (hsend : a'.send.isSome = true ∧ a'.place ≠ .sending → a.send.isSome = true ∧ a.place ≠ .sending) :
    Whole n k a' b (Function.update air .master (puts (air .master) o)) (Function.update inbuf .master y) := by
  have hone := hw.present hst
  have hfree : (transmitted o).length + (air .master).toList.length ≤ 1 := by
    have hlen := hmove.places.2
    simp only [channelLoad] at hone
    omega
  have hchannel := channelLoad_keeps air o .master htake hfree fun d hd => hw.intact .master d (Or.inr hd)
  have hload := hmove.keeps hst hst'
  refine ⟨fun z d hd => ?_, fun _ => by omega, fun _ hasked => hw.asked hst ?_, ?_⟩
  · rcases channel_mem htake hd with hd | hd
    · rw [h.masterSend d (hmove.transmits hd).1]
      exact stkTest_frame n
    · exact hw.intact z d hd
  · rcases hasked with hs | hair | hin | hrecv
    · exact Or.inl (hsend hs)
    · obtain ⟨d, hd⟩ := Option.isSome_iff_exists.mp hair
      rw [Function.update_self] at hd
      rcases puts_mem hd with hd | hd
      · obtain ⟨hs, hp⟩ := hmove.transmits hd
        exact Or.inl ⟨by rw [hs]; rfl, hp⟩
      · exact Or.inr (Or.inl (by rw [hd]; rfl))
    · rw [Function.update_of_ne (by decide)] at hin
      exact Or.inr (Or.inr (Or.inl hin))
    · exact Or.inr (Or.inr (Or.inr hrecv))
  · rw [hst']
    exact ⟨by decide, hw.once.2⟩

/-- A pass that hands nothing over leaves the channel. -/
theorem channel_pass {σ : Type} {o : List (Event σ)} {z : Side} {now : Timeval} (air : Side → Option PackData)
    (htake : takes (inbuf z) (.pass now) = some y) (htx : transmitted o = []) :
    Function.update air z (puts (air z) o) = air ∧ Function.update inbuf z y = inbuf := by
  have hy : inbuf z = y := Option.some.inj htake
  rw [puts, htx, List.head?_nil, Option.none_or, ← hy]
  exact ⟨Function.update_eq_self _ _, Function.update_eq_self _ _⟩

theorem Whole.master {o : List (Event LlcStateM)} (h : Agreeing c n k a b air inbuf) (hw : Whole n k a b air inbuf)
    (hmove : MMove a i a' o) (htake : takes (inbuf .master) i = some y)
    (hquiet : a'.st = .resend → b.load + b.due + channelLoad air inbuf = 0)
    (h' : Agreeing c' n' k a' b (Function.update air .master (puts (air .master) o)) (Function.update inbuf .master y))
    (hc : transactions c' = transactions c ++ entered .idle o) :
    Whole n' k a' b (Function.update air .master (puts (air .master) o)) (Function.update inbuf .master y) ∧
      transactions n' = transactions n ++ entered .sendAll o ∧ entered .resend o = [] := by
  have hlen := congrArg List.length hc
  rw [List.length_append, transactions_length, transactions_length] at hlen
  have hcount := h.count
  have hcount' := h'.count
  have hwait := hw.master_wait h hmove htake
  cases hmove with
  | start hp hst hsend hrecv =>
    have hk := h.answered (Or.inl hst)
    obtain ⟨hload, hdue, hair, hin⟩ := h.empty (by rw [hst]; decide)
    obtain ⟨hair', hin'⟩ := channel_pass air htake (transmitted_enter LlcStateM.sendAll (nextTransId a.transId))
    have hn : n' = n + 1 := by
      simp only [hst, hlen, entered_enter] at hcount hcount'
      exact hcount'.trans (by rw [hcount]; rfl)
    rw [hair', hin']
    refine ⟨⟨hw.intact, fun _ => ?_, fun _ _ => by omega, (fun hr => by cases hr), hw.once.2⟩, ?_,
      by simp [entered_enter]⟩
    · rw [hload, hdue]
      simp [Station.load, hp, hrecv, channelLoad, hair, hin]
    · rw [hn, transactions_succ, entered_enter, if_pos rfl, h.masterId, nextTransId_transIdOf]
  | timeout hp hst hrecv hsend =>
    have hone := hw.present hst
    have hnone := hquiet rfl
    have hload : a.load = 0 := by simp [Station.load, hrecv, hsend]
    omega
  | retry hp hst => exact absurd hst hw.once.1
  | response hp hst =>
    obtain ⟨hair', hin'⟩ := channel_pass air htake (transmitted_enter LlcStateM.receivedAll a.transId)
    have hn : n' = n := by
      simp only [hst, hlen, entered_enter] at hcount hcount'
      exact hcount'.trans hcount.symm
    rw [hair', hin', hn]
    exact ⟨⟨hw.intact, (fun hs => by cases hs), (fun hs => by cases hs), (fun hr => by cases hr), hw.once.2⟩,
      by simp [entered_enter], by simp [entered_enter]⟩
  | complete hp hst =>
    obtain ⟨hair', hin'⟩ := channel_pass air htake (transmitted_enter LlcStateM.idle a.transId)
    have hn : n' = n := by
      simp only [hst, hlen, entered_enter] at hcount hcount'
      exact hcount'.trans hcount.symm
    rw [hair', hin', hn]
    exact ⟨⟨hw.intact, (fun hs => by cases hs), (fun hs => by cases hs), (fun hr => by cases hr), hw.once.2⟩,
      by simp [entered_enter], by simp [entered_enter]⟩
  | wait hp hst =>
    have hn : n' = n := by
      simp only [hst, hlen] at hcount hcount'
      exact hcount'.trans hcount.symm
    rw [hn]
    exact ⟨hwait hst hst fun hs => ⟨hs.1, by rw [hp]; decide⟩, by simp, rfl⟩
  | call hp hst =>
    have hn : n' = n := by
      simp only [hst, hlen] at hcount hcount'
      exact hcount'.trans hcount.symm
    rw [hn]
    exact ⟨hwait hst hst fun hs => absurd rfl hs.2, by simp, rfl⟩
  | listen hp hst hrecv hresend hsend | fail hp hst hrecv hsend =>
    have hn : n' = n := by
      simp only [hst, hlen] at hcount hcount'
      exact hcount'.trans hcount.symm
    rw [hn]
    refine ⟨hwait hst hst fun hs => ?_, by simp, rfl⟩
    rw [show _ = none from hsend] at hs
    cases hs.1
  | sent hp hst =>
    have hn : n' = n := by
      simp only [hst, hlen] at hcount hcount'
      exact hcount'.trans hcount.symm
    rw [hn]
    exact ⟨hwait hst hst fun hs => absurd hs.1 Bool.false_ne_true, by simp, rfl⟩
  | arrive hp hst hrecv hsend =>
    have hn : n' = n := by
      simp only [hst, hlen] at hcount hcount'
      exact hcount'.trans hcount.symm
    rw [hn]
    refine ⟨hwait hst hst fun hs => ?_, by simp, rfl⟩
    rw [show _ = none from hsend] at hs
    cases hs.1

/-- The slave with the request: it is new. -/
theorem Whole.new (h : Agreeing c n k a b air inbuf) (hw : Whole n k a b air inbuf) {d : PackData}
    (hrecv : b.recv = some d) : d = frame n ∧ k + 1 = n ∧ stkGetTransId d ≠ b.transId := by
  have hload : 1 ≤ b.load := by simp [Station.load, hrecv]
  have hst : a.st = .sendAll := by
    by_contra hst
    have hnone := (h.empty hst).1
    omega
  have hd := h.requested d hrecv
  have hk : k + 1 = n := hw.asked hst (Or.inr (Or.inr (Or.inr (by rw [hrecv]; rfl))))
  refine ⟨hd, hk, ?_⟩
  rw [hd, stkGetTransId_frame, h.slaveId]
  split_ifs with hzero
  · exact transIdOf_ne_none n
  · rw [← hk]
    exact transIdOf_succ_ne k

/-- The steps that leave the slave's transaction. -/
theorem Whole.slave_same {o : List (Event LlcStateS)} (h : Agreeing c n k a b air inbuf) (hw : Whole n k a b air inbuf)
    (hmove : SMove b i b' o) (htake : takes (inbuf .slave) i = some y) (hst' : b'.st ≠ .resend)
    (hrecv' : b'.recv.isSome = true → b.recv.isSome = true ∨ (inbuf .slave).isSome = true) :
    Whole n k a b' (Function.update air .slave (puts (air .slave) o)) (Function.update inbuf .slave y) := by
  have hsingle := h.turn.single
  have hlen := hmove.places.2
  have hfree : (transmitted o).length + (air .slave).toList.length ≤ 1 := by
    simp only [channelLoad] at hsingle
    omega
  have hchannel := channelLoad_keeps air o .slave htake hfree fun d hd => hw.intact .slave d (Or.inr hd)
  have hload := hmove.keeps fun d hd => by rw [(hw.new h hd).1, stkGetPackType_frame]
  refine ⟨fun z d hd => ?_, fun hst => ?_, fun hst hasked => hw.asked hst ?_, hw.once.1, hst'⟩
  · rcases channel_mem htake hd with hd | hd
    · rw [h.slaveSend d (hmove.transmits hd)]
      exact stkTest_frame k
    · exact hw.intact z d hd
  · have hone := hw.present hst
    omega
  · rcases hasked with hs | hair | hin | hrecv
    · exact Or.inl hs
    · rw [Function.update_of_ne (by decide)] at hair
      exact Or.inr (Or.inl hair)
    · obtain ⟨d, hd⟩ := Option.isSome_iff_exists.mp hin
      rw [Function.update_self] at hd
      exact Or.inr (Or.inr (Or.inl (by rw [takes_mem htake hd]; rfl)))
    · rcases hrecv' hrecv with hrecv | hin
      · exact Or.inr (Or.inr (Or.inr hrecv))
      · exact Or.inr (Or.inr (Or.inl hin))

theorem Whole.slave {o : List (Event LlcStateS)} (h : Agreeing c n k a b air inbuf) (hw : Whole n k a b air inbuf)
    (hmove : SMove b i b' o) (htake : takes (inbuf .slave) i = some y)
    (hk : transactions k' = transactions k ++ entered .receivedAll o) :
    Whole n k' a b' (Function.update air .slave (puts (air .slave) o)) (Function.update inbuf .slave y) ∧
      entered .resend o = [] := by
  have hlen := congrArg List.length hk
  rw [List.length_append, transactions_length, transactions_length] at hlen
  have hsame := hw.slave_same h hmove htake
  cases hmove with
  | again hp hst hrecv hsend htype htrans => exact absurd htrans (hw.new h hrecv).2.2
  | discard hp hst hrecv hsend htype =>
    rw [(hw.new h hrecv).1, stkGetPackType_frame] at htype
    exact absurd rfl htype
  | repeatLast hp hst | echo hp hst => exact absurd hst hw.once.2
  | @accept _ d hp hst hrecv hsend htype htrans =>
    have hbefore : b.load + b.due = 1 := by simp [Station.load, Station.due, hrecv, hsend, hst]
    have hone := h.turn.single
    obtain ⟨hair', hin'⟩ := channel_pass air htake (transmitted_enter LlcStateS.receivedAll (stkGetTransId d))
    rw [hair', hin']
    refine ⟨⟨hw.intact, fun hwait => ?_, fun _ hasked => ?_, hw.once.1, fun hr => by cases hr⟩, by simp [entered_enter]⟩
    · have hpresent := hw.present hwait
      rw [hbefore] at hpresent
      simpa [Station.load, Station.due, hsend] using hpresent
    · have hload := hasked.load
      simp only [Option.toList_none, List.length_nil] at hload
      omega
  | respond hp hst hsend hrecv | finish hp hst hrecv =>
    obtain rfl : k' = k := by simpa [entered_enter] using hlen
    exact ⟨hsame (fun hr => by cases hr) fun hsome => Or.inl hsome, by simp [entered_enter]⟩
  | rest hp hst hrecv | call hp hst hrecv | listen hp hst hrecv | sent hp hst hrecv | fail hp hst hrecv =>
    obtain rfl : k' = k := by simpa using hlen
    refine ⟨hsame (fun hr => ?_) fun hsome => Or.inl hsome, rfl⟩
    rw [show _ = LlcStateS.resend from hr] at hst
    cases hst
  | arrive hp hst hrecv hsend hpacket =>
    obtain rfl : k' = k := by simpa using hlen
    refine ⟨hsame (fun hr => ?_) fun _ => Or.inr ?_, rfl⟩
    · rw [show _ = LlcStateS.resend from hr] at hst
      cases hst
    · rw [(takes_packet htake hpacket).1]
      rfl

/-- A packet that arrives finds the input buffer free. -/
theorem Whole.deliver (h : Agreeing c n k a b air inbuf) (hw : Whole n k a b air inbuf) {z : Side}
    (hair : (air z).isSome = true) :
    Whole n k a b (Function.update air z none) (Function.update inbuf z.other ((inbuf z.other).or (air z))) := by
  obtain ⟨d, hd⟩ := Option.isSome_iff_exists.mp hair
  have hin : inbuf z.other = none := by
    cases hin : inbuf z.other with
    | none => rfl
    | some d' =>
      have hone := h.turn.single
      cases z <;> simp only [Side.other] at hin <;> simp [channelLoad, hd, hin] at hone <;> omega
  rw [hin, hd, Option.none_or]
  have hload : channelLoad (Function.update air z none) (Function.update inbuf z.other (some d)) =
      channelLoad air inbuf := by
    cases z <;> simp only [Side.other] at hin ⊢ <;> simp [channelLoad, hd, hin]
    omega
  refine ⟨fun w d' hd' => ?_, fun hst => by rw [hload, hw.present hst], fun hst hasked => hw.asked hst ?_, hw.once⟩
  · rcases hd' with hd' | hd'
    · rw [Function.update_apply] at hd'
      split_ifs at hd'
      exact hw.intact w d' (Or.inl hd')
    · rw [Function.update_apply] at hd'
      split_ifs at hd'
      · cases hd'
        exact hw.intact z d (Or.inl hd)
      · exact hw.intact w d' (Or.inr hd')
  · cases z with
    | master =>
      refine Or.inr (Or.inl (by rw [hd]; rfl))
    | slave =>
      simpa [Asked, Side.other] using hasked

/-! ## Runs -/

/-- The two parties at their start, nothing in the channel. -/
theorem Joint.start {m : Loop LlcStateM} {s : Loop LlcStateS} {tm ts : Tsm} (hm : MRel m (mStationStart tm))
    (hs : SRel s (sStationStart ts)) :
    Joint [] ⟨m, s, fun _ => none, fun _ => none⟩ 0 0 0 (mStationStart tm) (sStationStart ts) where
  master := hm
  slave := hs
  completed := rfl
  accepted := rfl
  agreeing := {
    turn := ⟨by simp [Station.load, Station.due, channelLoad, mStationStart, sStationStart], fun _ => by
      simp [Station.load, Station.due, channelLoad, mStationStart, sStationStart]⟩
    count := rfl
    near := Or.inl rfl
    masterId := rfl
    masterResend d hd := by cases hd
    masterSend d hd := by cases hd
    request := fun d hd => by simp at hd
    requested d hd := by cases hd
    slaveId := rfl
    kept := fun hk => absurd rfl hk
    slaveSend d hd := by cases hd
    response := fun d hd => by simp at hd
    responded d hd := by cases hd
    answered := fun _ => rfl
    tested hst := by cases hst
    silent := ⟨rfl, rfl⟩ }

theorem netRun_joint {tm ts : Tsm} {net₀ net : Net} (h₀ : netStart tm ts = some net₀) {js : List NetInput}
    {os : List NetEvent} (hr : run netStep net₀ js = some (net, os)) (halong : Along netStep QuietTimeout net₀ js) :
    ∃ c k j a b, Joint os net c k j a b := by
  obtain ⟨m, hm, hmrel⟩ := mStart_rel tm
  obtain ⟨s, hs, hsrel⟩ := sStart_rel ts
  simp only [netStart, hm, hs, Option.bind_eq_bind, Option.bind_some, Option.pure_def, Option.some.injEq] at h₀
  subst h₀
  refine run_induct_along (P := fun _ os net => ∃ c k j a b, Joint os net c k j a b)
    ⟨0, 0, 0, _, _, Joint.start hmrel hsrel⟩ ?_ hr halong
  rintro _ os net i net' o ⟨c, k, j, a, b, hj⟩ hi hs
  exact hj.step hi hs

/-- The parties after a run over a reliable channel: every request has been sent once, and every response; the radio
has got these packets, but the last one may still wait. -/
structure Reliably (os : List NetEvent) (net : Net) (c n k : Nat) (a : Station LlcStateM) (b : Station LlcStateS) :
    Prop where
  joint : Joint os net c n k a b
  whole : Whole n k a b net.air net.inbuf
  sent : entered .sendAll (masterEvents os) = transactions n
  once : entered .resend (masterEvents os) = [] ∧ entered .resend (slaveEvents os) = []
  requests : transmitted (masterEvents os) ++ a.waiting = frames n
  responses : transmitted (slaveEvents os) ++ (b.waiting ++ b.asked) = frames k

theorem Reliably.step {net net' : Net} {os o : List NetEvent} {j : NetInput} (h : Reliably os net c n k a b)
    (hj : QuietTimeout net j ∧ j.Reliable) (hs : netStep net j = some (net', o)) :
    ∃ c' n' k' a' b', Reliably (os ++ o) net' c' n' k' a' b' := by
  obtain ⟨hjoint, hwhole, hsent, honce, hrequests, hresponses⟩ := h
  have hagreeing := hjoint.agreeing
  cases j with
  | master i =>
    simp only [netStep, Option.bind_eq_bind, Option.bind_eq_some_iff, Prod.exists, Option.pure_def, Option.some.injEq,
      Prod.mk.injEq] at hs
    obtain ⟨y, htake, m, o, hm, rfl, rfl⟩ := hs
    obtain ⟨a', hrel', hmove, hlate⟩ := hjoint.master.move (r := b.load + b.due + channelLoad net.air net.inbuf) hm (by
      rintro now rfl - hst hrecv hexp
      exact Net.quiet_load (hj.1 hst hrecv hexp) hjoint.master hjoint.slave)
    obtain ⟨c', n', hagree, hcompleted⟩ := hagreeing.master hmove htake hlate
    obtain ⟨hwhole', hsent', honce'⟩ := hwhole.master hagreeing hmove htake hlate hagree hcompleted
    refine ⟨c', n', k, a', b,
      ⟨hrel', hjoint.slave, hagree, by simp [hjoint.completed, hcompleted], by simp [hjoint.accepted]⟩, hwhole',
      by simp [hsent, hsent'], by simp [honce, honce'], ?_, by simpa using hresponses⟩
    have hhands := hmove.hands hwhole.once.1
    rw [masterEvents_append, masterEvents_map, transmitted_append, List.append_assoc, hhands, ← List.append_assoc,
      hrequests, frames, frames, hsent', List.map_append]
  | slave i =>
    simp only [netStep, Option.bind_eq_bind, Option.bind_eq_some_iff, Prod.exists, Option.pure_def, Option.some.injEq,
      Prod.mk.injEq] at hs
    obtain ⟨y, htake, m, o, hm, rfl, rfl⟩ := hs
    obtain ⟨b', hrel', hmove⟩ := hjoint.slave.move hm
    obtain ⟨k', hagree, haccepted⟩ := hagreeing.slave hmove htake
    obtain ⟨hwhole', honce'⟩ := hwhole.slave hagreeing hmove htake haccepted
    refine ⟨c, n, k', a, b',
      ⟨hjoint.master, hrel', hagree, by simp [hjoint.completed], by simp [hjoint.accepted, haccepted]⟩, hwhole',
      by simp [hsent], by simp [honce, honce'], by simpa using hrequests, ?_⟩
    have hhands := hmove.hands hwhole.once.2
    rw [slaveEvents_append, slaveEvents_map, transmitted_append, List.append_assoc, hhands, ← List.append_assoc,
      hresponses, frames, frames, haccepted, List.map_append]
  | lose x => exact hj.2.elim
  | spoil x d => exact hj.2.elim
  | deliver x =>
    simp only [netStep] at hs
    split_ifs at hs with hair
    cases hs
    refine ⟨c, n, k, a, b, ⟨hjoint.master, hjoint.slave, hagreeing.deliver x, by simp [hjoint.completed],
      by simp [hjoint.accepted]⟩, ?_, by simp [hsent], by simp [honce], by simpa using hrequests,
      by simpa using hresponses⟩
    exact hwhole.deliver hagreeing hair

theorem netRun_reliable {tm ts : Tsm} {net₀ net : Net} (h₀ : netStart tm ts = some net₀) {js : List NetInput}
    {os : List NetEvent} (hr : run netStep net₀ js = some (net, os))
    (halong : Along netStep (fun net j => QuietTimeout net j ∧ j.Reliable) net₀ js) :
    ∃ c n k a b, Reliably os net c n k a b := by
  obtain ⟨m, hm, hmrel⟩ := mStart_rel tm
  obtain ⟨s, hs, hsrel⟩ := sStart_rel ts
  simp only [netStart, hm, hs, Option.bind_eq_bind, Option.bind_some, Option.pure_def, Option.some.injEq] at h₀
  subst h₀
  have hstart : Reliably [] ⟨m, s, fun _ => none, fun _ => none⟩ 0 0 0 (mStationStart tm) (sStationStart ts) := by
    refine ⟨Joint.start hmrel hsrel, ⟨fun z d hd => ?_, (fun hs => by cases hs), (fun hs => by cases hs),
      (fun hr => by cases hr), (fun hr => by cases hr)⟩, rfl, ⟨rfl, rfl⟩, rfl, rfl⟩
    rcases hd with hd | hd <;> cases hd
  refine run_induct_along (P := fun _ os net => ∃ c n k a b, Reliably os net c n k a b) ⟨0, 0, 0, _, _, hstart⟩ ?_ hr
    halong
  rintro _ os net j net' o ⟨c, n, k, a, b, h⟩ hj hs
  exact h.step hj hs

end LoraBridge
