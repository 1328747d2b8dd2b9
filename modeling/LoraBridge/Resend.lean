import LoraBridge.Slave

/-!
# The slave's resend list

Packets of any type. The branch for a new transaction clears the resend list before it looks at the type, and changes
`trans_id` only for a single packet: a foreign packet of another type leaves the old id with an empty list. As long as
that does not come between two packets of one transaction (`Undisturbed`), the slave only ever sends responses of its
own (`sRun_answers`); otherwise it sends the received packet back (`sRun_echoes`).
-/

set_option autoImplicit false

namespace LoraBridge

open Transducer

/-- Between two single packets with the same id, and no single packet between them, every packet is a reset packet or
carries that id too. -/
def Undisturbed (ds : List PackData) : Prop :=
  ∀ pre s mid r post, ds = pre ++ s :: (mid ++ r :: post) →
    stkGetPackType s = .typeSingle → stkGetPackType r = .typeSingle → stkGetTransId s = stkGetTransId r →
    (∀ m ∈ mid, stkGetPackType m ≠ .typeSingle) →
    ∀ m ∈ mid, stkIsResetPack m = true ∨ stkGetTransId m = stkGetTransId s

theorem Undisturbed.front {ds ds' : List PackData} (h : Undisturbed (ds ++ ds')) : Undisturbed ds := by
  rintro pre s mid r post rfl
  exact h pre s mid r (post ++ ds') (by simp)

/-- What consumed packets leave in the resend list: nothing before the first single packet; after it the response of
the current transaction, until a packet of another transaction and type clears it. -/
inductive Kept (ds : List PackData) (a : Station LlcStateS) : Prop
  | fresh : (∀ d ∈ ds, stkGetPackType d ≠ .typeSingle) → a.transId = transIdNone → a.st = .idle → Kept ds a
  | opened (pre mid : List PackData) (s : PackData) : ds = pre ++ s :: mid → stkGetPackType s = .typeSingle →
      (∀ m ∈ mid, stkGetPackType m ≠ .typeSingle) → a.transId = stkGetTransId s →
      (a.st = .receivedAll ∨ a.resend = some (singleFrame a.transId) ∨
        a.st = .idle ∧ ∃ m ∈ mid, stkIsResetPack m = false ∧ stkGetTransId m ≠ stkGetTransId s) → Kept ds a

/-- The slave after consuming `ds`: it has sent, and is going to send, responses of its own only. -/
structure Answering (ds : List PackData) (os : List (Event LlcStateS)) (a : Station LlcStateS) : Prop where
  kept : Kept ds a
  queued : ∀ d, a.send = some d → a.echo = false ∧ ∃ t ≤ transIdMax, d = singleFrame t
  sent : ∀ d ∈ transmitted os, ∃ t ≤ transIdMax, d = singleFrame t

theorem Kept.transId_le {ds : List PackData} {a : Station LlcStateS} (h : Kept ds a) (hst : a.st ≠ .idle) :
    a.transId ≤ transIdMax := by
  cases h with
  | fresh _ _ hidle => exact absurd hidle hst
  | opened _ _ _ _ _ _ htid _ =>
    rw [htid]
    exact stkGetTransId_le _

/-- When the slave is to send again, the response is there. -/
theorem Kept.resend {ds : List PackData} {a : Station LlcStateS} (h : Kept ds a) (hst : a.st = .resend) :
    a.resend = some (singleFrame a.transId) := by
  cases h with
  | fresh _ _ hidle => rw [hst] at hidle; cases hidle
  | opened _ _ _ _ _ _ _ hkept =>
    rcases hkept with hall | hresend | ⟨hidle, -⟩
    · rw [hst] at hall; cases hall
    · exact hresend
    · rw [hst] at hidle; cases hidle

theorem Kept.congr {ds : List PackData} {a a' : Station LlcStateS} (h : Kept ds a) (hst : a'.st = a.st)
    (htid : a'.transId = a.transId) (hresend : a'.resend = a.resend) : Kept ds a' := by
  cases h with
  | fresh hds htid' hidle => exact .fresh hds (by rw [htid, htid']) (by rw [hst, hidle])
  | opened pre mid s hds hs hmid htid' hkept =>
    exact .opened pre mid s hds hs hmid (by rw [htid, htid']) (by rwa [hst, htid, hresend])

/-- With the response in the resend list the state may change. -/
theorem Kept.of_resend {ds : List PackData} {a a' : Station LlcStateS} (h : Kept ds a) (hst : a.st ≠ .idle)
    (htid : a'.transId = a.transId) (hresend : a'.resend = some (singleFrame a'.transId)) : Kept ds a' := by
  cases h with
  | fresh _ _ hidle => exact absurd hidle hst
  | opened pre mid s hds hs hmid htid' _ =>
    exact .opened pre mid s hds hs hmid (by rw [htid, htid']) (Or.inr (Or.inl hresend))

/-- A packet of another type: the list is kept, or cleared for good. -/
theorem Kept.discard {ds : List PackData} {a a' : Station LlcStateS} {d : PackData} (h : Kept ds a)
    (hst : a.st = .idle) (htype : stkGetPackType d ≠ .typeSingle)
    (hkeep : a'.resend = a.resend ∨ stkIsResetPack d = false ∧ stkGetTransId d ≠ a.transId)
    (hst' : a'.st = .idle) (htid : a'.transId = a.transId) : Kept (ds ++ [d]) a' := by
  have hsnoc : ∀ {ms : List PackData}, (∀ m ∈ ms, stkGetPackType m ≠ .typeSingle) →
      ∀ m ∈ ms ++ [d], stkGetPackType m ≠ .typeSingle := by
    intro ms hms m hm
    rcases List.mem_append.mp hm with hm | hm
    · exact hms m hm
    · rw [List.mem_singleton.mp hm]
      exact htype
  cases h with
  | fresh hds htid' _ => exact .fresh (hsnoc hds) (by rw [htid, htid']) hst'
  | opened pre mid s hds hs hmid htid' hkept =>
    refine .opened pre (mid ++ [d]) s (by rw [hds]; simp) hs (hsnoc hmid)
      (by rw [htid, htid']) ?_
    rcases hkeep with hsame | ⟨hreset, hid⟩
    · rcases hkept with hall | hresend | ⟨-, m, hm, hreset, hid⟩
      · rw [hst] at hall; cases hall
      · exact Or.inr (Or.inl (by rw [hsame, hresend, htid]))
      · exact Or.inr (Or.inr ⟨hst', m, List.mem_append_left _ hm, hreset, hid⟩)
    · exact Or.inr (Or.inr ⟨hst', d, by simp, hreset, by rwa [← htid']⟩)

/-- A single packet of the current transaction, when nothing came between: the response is there. -/
theorem Kept.again {ds : List PackData} {a : Station LlcStateS} {d : PackData} (h : Kept ds a) (hst : a.st = .idle)
    (htype : stkGetPackType d = .typeSingle) (hid : stkGetTransId d = a.transId) (hund : Undisturbed (ds ++ [d])) :
    a.resend = some (singleFrame a.transId) := by
  cases h with
  | fresh _ htid _ =>
    have hle := stkGetTransId_le d
    rw [hid, htid] at hle
    exact absurd hle (by decide)
  | opened pre mid s hds hs hmid htid hkept =>
    rcases hkept with hall | hresend | ⟨-, m, hm, hreset, hne⟩
    · rw [hst] at hall; cases hall
    · exact hresend
    · have hbetween := hund pre s mid d [] (by rw [hds]; simp) hs htype (by rw [hid, htid]) hmid m hm
      rcases hbetween with hr | he
      · rw [hreset] at hr; cases hr
      · exact absurd he hne

theorem Answering.step {ds : List PackData} {os o : List (Event LlcStateS)} {a a' : Station LlcStateS} {i : Input}
    (h : Answering ds os a) (hmove : SMove a i a' o) (hund : Undisturbed (ds ++ a.recv.toList)) :
    ∃ ds', Answering ds' (os ++ o) a' ∧ ds' ++ a'.recv.toList = ds ++ a.recv.toList ++ i.packet.toList := by
  obtain ⟨hkept, hqueued, hsent⟩ := h
  cases hmove with
  | rest hp hst hrecv =>
    exact ⟨ds, ⟨hkept.congr rfl rfl rfl, hqueued, by simpa using hsent⟩, by simp [Input.packet]⟩
  | @discard now d _ _ _ hp hst hrecv hsend htype hx hkeep =>
    refine ⟨ds ++ [d], ⟨?_, hqueued, by simpa using hsent⟩, by simp [hrecv, Input.packet]⟩
    refine hkept.discard hst htype ?_ hst rfl
    rcases hkeep with ⟨hsame, -⟩ | ⟨-, hreset, hid⟩
    · exact Or.inl hsame
    · exact Or.inr ⟨hreset, hid⟩
  | @again now d hp hst hrecv hsend htype hid =>
    rw [hrecv] at hund
    have hresend := hkept.again hst htype hid hund
    refine ⟨ds ++ [d], ⟨?_, hqueued, by simpa using hsent⟩, by simp [hrecv, Input.packet]⟩
    exact .opened ds [] d rfl htype (by simp) hid.symm (Or.inr (Or.inl hresend))
  | @accept now d hp hst hrecv hsend htype hid =>
    refine ⟨ds ++ [d], ⟨?_, hqueued, by simpa using hsent⟩, by simp [hrecv, Input.packet]⟩
    exact .opened ds [] d rfl htype (by simp) rfl (Or.inl rfl)
  | respond hp hst hsend hrecv hle =>
    refine ⟨ds, ⟨hkept.of_resend (by rw [hst]; decide) rfl rfl, ?_, by simpa using hsent⟩,
      by simp [hrecv, Input.packet]⟩
    exact fun d hd => ⟨rfl, a.transId, hle, (Option.some.inj hd).symm⟩
  | finish hp hst hrecv =>
    refine ⟨ds, ⟨?_, hqueued, by simpa using hsent⟩, by simp [hrecv, Input.packet]⟩
    cases hkept with
    | fresh _ _ hidle => rw [hst] at hidle; cases hidle
    | opened pre mid s hds hs hmid htid hkept =>
      rcases hkept with hall | hresend | ⟨hidle, -⟩
      · rw [hst] at hall; cases hall
      · exact .opened pre mid s hds hs hmid htid (Or.inr (Or.inl hresend))
      · rw [hst] at hidle; cases hidle
  | @repeatLast now d hp hst hsend hrecv hresend =>
    have hd := hkept.resend hst
    have hne : a.st ≠ .idle := by rw [hst]; decide
    refine ⟨ds, ⟨hkept.of_resend hne rfl hd, ?_, by simpa using hsent⟩, by simp [hrecv, Input.packet]⟩
    rw [hresend, Option.some.injEq] at hd
    exact fun d' hd' => ⟨rfl, a.transId, hkept.transId_le hne, (Option.some.inj hd').symm.trans hd⟩
  | echo hp hst hsend hrecv hresend hlast =>
    have hd := hkept.resend hst
    rw [hresend] at hd
    cases hd
  | call hp hst hrecv hsend =>
    refine ⟨ds, ⟨hkept.congr rfl rfl rfl, hqueued, ?_⟩, by simp [hrecv, Input.packet]⟩
    intro d hd
    rw [transmitted_append, transmitted_tx] at hd
    rcases List.mem_append.mp hd with hd | hd
    · exact hsent d hd
    · rw [List.mem_singleton.mp hd]
      exact (hqueued _ hsend).2
  | listen hp hst hrecv hsend =>
    exact ⟨ds, ⟨hkept.congr rfl rfl rfl, hqueued, by simpa using hsent⟩, by simp [hrecv, Input.packet]⟩
  | sent hp hst hrecv =>
    exact ⟨ds, ⟨hkept.congr rfl rfl rfl, (by simp), by simpa using hsent⟩, by simp [hrecv, Input.packet]⟩
  | fail hp hst hrecv hsend hpacket =>
    exact ⟨ds, ⟨hkept.congr rfl rfl rfl, hqueued, by simpa using hsent⟩, by simp [hrecv, hpacket]⟩
  | arrive hp hst hrecv hsend hpacket =>
    exact ⟨ds, ⟨hkept.congr rfl rfl rfl, hqueued, by simpa using hsent⟩, by simp [hrecv, hpacket]⟩

/-- The run lemma. -/
theorem sStation_answering {t : Tsm} {is : List Input} {os : List (Event LlcStateS)} {a : Station LlcStateS}
    (hr : run sStation (sStationStart t) is = some (a, os)) (hund : Undisturbed (received is)) :
    SInv a ∧ ∃ ds, Answering ds os a ∧ ds ++ a.recv.toList = received is := by
  let P : List Input → List (Event LlcStateS) → Station LlcStateS → Prop := fun is os a =>
    SInv a ∧ (Undisturbed (received is) → ∃ ds, Answering ds os a ∧ ds ++ a.recv.toList = received is)
  have hstart : P [] [] (sStationStart t) :=
    ⟨Or.inl rfl, fun _ => ⟨[], ⟨.fresh (by simp) rfl rfl, nofun, by simp⟩, rfl⟩⟩
  have hstep : ∀ is os a i a' o, P is os a → sStation a i = some (a', o) → P (is ++ [i]) (os ++ o) a' := by
    rintro is os a i a' o ⟨hinv, h⟩ hs
    refine ⟨sStation_inv hinv hs, fun hund => ?_⟩
    rw [received_append] at hund
    obtain ⟨ds, ha, hds⟩ := h hund.front
    obtain ⟨ds', ha', hds'⟩ := ha.step (sStation_move hinv hs) (hds ▸ hund.front)
    exact ⟨ds', ha', by rw [hds', hds, received_append, received_singleton]⟩
  obtain ⟨hinv, h⟩ := run_induct hstart hstep hr
  exact ⟨hinv, h hund⟩

/-- **The slave answers from its resend list.** While no foreign packet comes between two packets of one transaction,
the resend list holds the response of the current transaction whenever `S_LLC_RESEND` is entered, only send packs are
ever queued, and only responses go on the air. -/
theorem sRun_answers (t : Tsm) : ∃ l₀, sStart t = some l₀ ∧
    ∀ (is : List Input) (l : Loop LlcStateS) (os : List (Event LlcStateS)), run sStep l₀ is = some (l, os) →
    Undisturbed (received is) →
    (l.llcState = .resend → ∃ p, stkLlcResendGet l.tsm = some p ∧ l.tsm.sealed p = singleFrame l.tsm.transId) ∧
    (∃ c, Linked l.tsm c ∧ ∀ p ∈ c.sendList, ∃ i, p = .sendBuff i) ∧
    ∀ d ∈ transmitted os, ∃ id ≤ transIdMax, d = singleFrame id := by
  obtain ⟨l₀, h₀, -⟩ := sStart_rel t
  refine ⟨l₀, h₀, fun is l os hr hund => ?_⟩
  obtain ⟨a, ha, hrel⟩ := sRun_station h₀ hr
  obtain ⟨c, hr'⟩ := hrel.rel
  obtain ⟨hinv, ds, hans, -⟩ := sStation_answering ha hund
  refine ⟨fun hst => ?_, ⟨c, hr'.linked, fun p hp => ?_⟩, hans.sent⟩
  · have hresend := hans.kept.resend (by rw [← hr'.st, hst])
    obtain ⟨p, hp, hd⟩ := map_toList_some hr'.resend hresend
    exact ⟨p, by rw [stkLlcResendGet_eq hr'.linked.owner, hp]; rfl, by rw [hd, hr'.transId]⟩
  · have hsend : ∃ d, a.send = some d := by
      cases hsend : a.send with
      | some d => exact ⟨d, rfl⟩
      | none =>
        rw [map_toList_none hr'.send hsend] at hp
        cases hp
    obtain ⟨d, hd⟩ := hsend
    have hfrom := hr'.sendFrom p hp
    rw [(hans.queued d hd).1] at hfrom
    exact hr'.mem_sendPacks (Or.inr hfrom)

/-- Nothing comes between single packets. -/
theorem undisturbed_of_single {ds : List PackData} (h : ∀ d ∈ ds, stkGetPackType d = .typeSingle) :
    Undisturbed ds := by
  rintro pre s mid r post rfl - - - hmid m hm
  exact absurd (h m (by simp [hm])) (hmid m hm)

/-- A single packet with id 1, answered; then the same packet again. -/
def repeatInputs : List Input :=
  .pass ⟨0, 0⟩ :: receiveRound (singleFrame 1) 4 ++ sendRound ++ receiveRound (singleFrame 1) 1

theorem sRun_answers_repeat : ∃ l₀ l os p, sStart Tsm.zeroed = some l₀ ∧ run sStep l₀ repeatInputs = some (l, os) ∧
    l.llcState = .resend ∧ stkLlcResendGet l.tsm = some p ∧ l.tsm.sealed p = singleFrame l.tsm.transId := by
  have hst : (run sStation (sStationStart Tsm.zeroed) repeatInputs).map (fun r => r.1.st) = some .resend := by
    decide +kernel
  have hreceived : received repeatInputs = [singleFrame 1, singleFrame 1] := by decide +kernel
  have hsingle : ∀ d ∈ received repeatInputs, stkGetPackType d = .typeSingle := by
    simp [hreceived]
  obtain ⟨⟨a, os⟩, hr, ha⟩ := Option.map_eq_some_iff.mp hst
  obtain ⟨l₀, l, h₀, hl, hrel⟩ := sRun_of_station hr
  obtain ⟨c, hc⟩ := hrel.rel
  have hresend : l.llcState = .resend := hc.st.trans ha
  obtain ⟨l₁, h₁, hall⟩ := sRun_answers Tsm.zeroed
  cases h₀.symm.trans h₁
  obtain ⟨p, hp, hd⟩ := (hall _ _ _ hl (undisturbed_of_single hsingle)).1 hresend
  exact ⟨l₀, l, os, p, h₀, hl, hresend, hp, hd⟩

/-- A packet of several parts, with id 2. -/
def multFrame : PackData := stkSetPackChecksumm ((Vector.replicate 19 0).set 0 0x0A)

/-- A single packet with id 1, answered; a packet of several parts with id 2; then the single packet again. -/
def foreignInputs : List Input :=
  .pass ⟨0, 0⟩ :: receiveRound (singleFrame 1) 4 ++ sendRound ++ receiveRound multFrame 1 ++
    receiveRound (singleFrame 1) 1

/-- The foreign packet in between empties the list, and the packet received last is queued in its place. -/
theorem sRun_echoes : ∃ l₀ l os l' os', sStart Tsm.zeroed = some l₀ ∧
    received foreignInputs = [singleFrame 1, multFrame, singleFrame 1] ∧
    run sStep l₀ foreignInputs = some (l, os) ∧ l.llcState = .resend ∧ stkLlcResendGet l.tsm = none ∧
    run sStep l₀ (foreignInputs ++ [.pass ⟨0, 0⟩]) = some (l', os') ∧
    ∃ i, (stkMacGetFirstToSend l'.tsm).map Prod.snd = some (.recvBuff i) := by
  have hempty : (run sStation (sStationStart Tsm.zeroed) foreignInputs).map (fun r => (r.1.st, r.1.resend)) =
      some (.resend, none) := by decide +kernel
  have hechoed : (run sStation (sStationStart Tsm.zeroed) (foreignInputs ++ [.pass ⟨0, 0⟩])).map
      (fun r => (r.1.send.isSome, r.1.echo)) = some (true, true) := by decide +kernel
  obtain ⟨⟨a, os⟩, hr, ha⟩ := Option.map_eq_some_iff.mp hempty
  obtain ⟨⟨a', os'⟩, hr', ha'⟩ := Option.map_eq_some_iff.mp hechoed
  simp only [Prod.mk.injEq] at ha ha'
  obtain ⟨l₀, l, h₀, hl, hrel⟩ := sRun_of_station hr
  obtain ⟨l₁, l', h₁, hl', hrel'⟩ := sRun_of_station hr'
  cases h₀.symm.trans h₁
  obtain ⟨c, hc⟩ := hrel.rel
  obtain ⟨c', hc'⟩ := hrel'.rel
  refine ⟨l₀, l, os, l', os', h₀, by decide +kernel, hl, by rw [hc.st, ha.1], ?_, hl', ?_⟩
  · rw [stkLlcResendGet_eq hc.linked.owner, map_toList_none hc.resend ha.2]
    rfl
  · obtain ⟨d, hd⟩ := Option.isSome_iff_exists.mp ha'.1
    obtain ⟨p, hp, -⟩ := map_toList_some hc'.send hd
    have hfrom := hc'.sendFrom p (by rw [hp]; simp)
    rw [ha'.2] at hfrom
    obtain ⟨i, rfl⟩ := hc'.mem_recvPacks (Or.inl hfrom)
    exact ⟨i, by rw [stkMacGetFirstToSend_eq hc'.linked hp]; rfl⟩

end LoraBridge
