import LoraBridge.Station

/-!
# What one step of a station can do

`SMove` and `MMove` list the steps of the two stations, each with the branch of the source it takes and the whole state
it leaves. Invariants of runs are proved move by move and never unfold a pass.
-/

set_option autoImplicit false

namespace LoraBridge

variable {σ : Type}

theorem stationCall_some {a : Station σ} {d : PackData} (h : a.send = some d) :
    stationCall a = ({ a with place := .sending }, [.tx d]) := by
  unfold stationCall
  split <;> simp_all

theorem stationCall_none {a : Station σ} (h : a.send = none) :
    stationCall a = ({ a with place := .receiving }, []) := by
  unfold stationCall
  split <;> simp_all

/-- No pool has been found empty. -/
def Station.Supplied (a : Station σ) : Prop := .sendListPoolEmpty ∉ a.stderr ∧ .recvListPoolEmpty ∉ a.stderr

/-- The other assertions leave that as it is. -/
theorem Station.Supplied.check {a : Station σ} (h : a.Supplied) {b : Bool} {x : Assert} (hs : x ≠ .sendListPoolEmpty)
    (hr : x ≠ .recvListPoolEmpty) : (a.check b x).Supplied := by
  cases b with
  | true => exact h
  | false =>
    simp only [Station.Supplied, Station.check, Bool.false_eq_true, if_false, List.mem_append, List.mem_singleton,
      not_or]
    exact ⟨⟨h.1, Ne.symm hs⟩, h.2, Ne.symm hr⟩

/-! ## The moves of the slave -/

inductive SMove (a : Station LlcStateS) : Input → Station LlcStateS → List (Event LlcStateS) → Prop
  /-- idle, nothing received -/
  | rest {now : Timeval} : a.place = .llc → a.st = .idle → a.recv = none →
      SMove a (.pass now) { a with place := .mac, last := none } []
  /-- a packet that is not single: a reset packet, one of the current transaction, or of another one -/
  | discard {now : Timeval} {d : PackData} {x : Assert} {resend : Option PackData} {retriesNum : Byte} :
      a.place = .llc → a.st = .idle → a.recv = some d → a.send = none → stkGetPackType d ≠ .typeSingle →
      x ∈ [Assert.sReset, .sRepeatType, .sNewType] →
      (resend = a.resend ∧ (stkIsResetPack d = true ∨ stkGetTransId d = a.transId) ∨
        resend = none ∧ stkIsResetPack d = false ∧ stkGetTransId d ≠ a.transId) →
      SMove a (.pass now) { a with
        recv := none, last := none, resend := resend, retriesNum := retriesNum, stderr := a.stderr ++ [x]
        place := .mac } []
  /-- a single packet of the current transaction -/
  | again {now : Timeval} {d : PackData} :
      a.place = .llc → a.st = .idle → a.recv = some d → a.send = none → stkGetPackType d = .typeSingle →
      stkGetTransId d = a.transId →
      SMove a (.pass now) { a with recv := none, last := some d, st := .resend } [.enter .resend a.transId]
  /-- a single packet of another transaction -/
  | accept {now : Timeval} {d : PackData} :
      a.place = .llc → a.st = .idle → a.recv = some d → a.send = none → stkGetPackType d = .typeSingle →
      stkGetTransId d ≠ a.transId →
      SMove a (.pass now) { a with
        recv := none, last := some d, resend := none, retriesNum := 0, transId := stkGetTransId d
        st := .receivedAll } [.enter .receivedAll (stkGetTransId d)]
  | respond {now : Timeval} :
      a.place = .llc → a.st = .receivedAll → a.send = none → a.recv = none → a.transId ≤ transIdMax →
      SMove a (.pass now) { a with
        resend := some (singleFrame a.transId), send := some (singleFrame a.transId), last := none
        echo := false, st := .sendAll } [.enter .sendAll a.transId]
  | finish {now : Timeval} : a.place = .llc → a.st = .sendAll → a.recv = none →
      SMove a (.pass now) { a with st := .idle } [.enter .idle a.transId]
  | repeatLast {now : Timeval} {d : PackData} :
      a.place = .llc → a.st = .resend → a.send = none → a.recv = none → a.resend = some d →
      SMove a (.pass now) { a with
        send := some d, last := none, echo := false, retriesNum := a.retriesNum + 1, st := .idle }
        [.enter .idle a.transId]
  /-- the resend list is empty: the packet just received goes back -/
  | echo {now : Timeval} {d : PackData} :
      a.place = .llc → a.st = .resend → a.send = none → a.recv = none → a.resend = none → a.last = some d →
      SMove a (.pass now) { a with
        send := some (stkSetPackChecksumm d), last := none, echo := true, retriesNum := a.retriesNum + 1
        stderr := a.stderr ++ [.sResendEmpty], st := .idle } [.enter .idle a.transId]
  | call {d : PackData} : a.place = .mac → a.st = .idle → a.recv = none → a.send = some d →
      SMove a .call { a with place := .sending } [.tx d]
  | listen : a.place = .mac → a.st = .idle → a.recv = none → a.send = none →
      SMove a .call { a with place := .receiving } []
  | sent : a.place = .sending → a.st = .idle → a.recv = none →
      SMove a .sent { a with send := none, place := .llc } []
  | fail {res : Option PackData} : a.place = .receiving → a.st = .idle → a.recv = none → a.send = none →
      (Input.received res).packet = none →
      SMove a (.received res) { a with place := .llc } []
  | arrive {res : Option PackData} {d : PackData} : a.place = .receiving → a.st = .idle → a.recv = none →
      a.send = none → (Input.received res).packet = some d →
      SMove a (.received res) { a with recv := some d, place := .llc } []

theorem SMove.supplied {a a' : Station LlcStateS} {i : Input} {o : List (Event LlcStateS)} (h : SMove a i a' o)
    (hs : a.Supplied) : a'.Supplied := by
  cases h with
  | discard _ _ _ _ _ hx _ =>
    obtain ⟨hsend, hrecv⟩ := hs
    simp only [List.mem_cons, List.not_mem_nil, or_false] at hx
    rcases hx with rfl | rfl | rfl <;> simp [Station.Supplied, hsend, hrecv]
  | echo => exact hs.check (b := false) (x := .sResendEmpty) nofun nofun
  | _ => exact hs

theorem sStationPass_move {a : Station LlcStateS} (now : Timeval) (h : SInv a) (hp : a.place = .llc) :
    ∃ a', sStationPass a = some a' ∧ SMove a (.pass now) (stationPassDone a a').1 (stationPassDone a a').2 := by
  obtain ⟨id, macRecvTimeout, st, place, transId, testTransId, retriesNum, recv, last, resend, send, echo, llcTimer,
    stderr⟩ := a
  subst hp
  cases st with
  | idle =>
    cases recv with
    | none => exact ⟨_, rfl, .rest rfl rfl rfl⟩
    | some d =>
      have hsend : send = none := by simpa [SInv] using h
      simp only [sStationPass]
      split_ifs with hreset hid htype htype
      · refine ⟨_, rfl, .discard rfl rfl rfl hsend ?_ (by simp) (Or.inl ⟨rfl, Or.inl hreset⟩)⟩
        intro htype
        rw [stkIsResetPack_single htype] at hreset
        cases hreset
      · exact ⟨_, rfl, .again rfl rfl rfl hsend htype hid⟩
      · exact ⟨_, rfl, .discard rfl rfl rfl hsend htype (by simp) (Or.inl ⟨rfl, Or.inr hid⟩)⟩
      · exact ⟨_, rfl, .accept rfl rfl rfl hsend htype hid⟩
      · exact ⟨_, rfl, .discard rfl rfl rfl hsend htype (by simp) (Or.inr ⟨rfl, by simpa using hreset, hid⟩)⟩
  | receivedAll => exact ⟨_, rfl, .respond rfl rfl h.1 h.2.1 h.2.2.2⟩
  | sendAll => exact ⟨_, rfl, .finish rfl rfl h⟩
  | resend =>
    obtain ⟨hsend, hrecv, hsome⟩ := h
    cases resend with
    | some d => exact ⟨_, rfl, .repeatLast rfl rfl hsend hrecv rfl⟩
    | none =>
      cases last with
      | some d => exact ⟨_, rfl, .echo rfl rfl hsend hrecv rfl rfl⟩
      | none => simp at hsome

/-- **Every step of the slave is one of its moves.** -/
theorem sStation_move {a a' : Station LlcStateS} {i : Input} {o : List (Event LlcStateS)} (h : SInv a)
    (hs : sStation a i = some (a', o)) : SMove a i a' o := by
  cases i with
  | pass now =>
    simp only [sStation, stationStep] at hs
    split_ifs at hs with hp
    obtain ⟨b, hb, hmove⟩ := sStationPass_move now h hp
    rw [hb, Option.map_some, Option.some.injEq] at hs
    rw [hs] at hmove
    exact hmove
  | call =>
    simp only [sStation, stationStep] at hs
    split_ifs at hs with hp
    cases hst : a.st <;> simp only [SInv, hp, hst] at h
    rw [Option.some.injEq] at hs
    cases hsend : a.send with
    | some d =>
      rw [stationCall_some hsend] at hs
      cases hs
      exact .call hp hst h hsend
    | none =>
      rw [stationCall_none hsend] at hs
      cases hs
      exact .listen hp hst h hsend
  | sent =>
    simp only [sStation, stationStep, stationSent] at hs
    split_ifs at hs with hp
    cases hst : a.st <;> simp only [SInv, hp, hst] at h
    cases hs
    exact .sent hp hst h.2
  | received res =>
    simp only [sStation, stationStep, stationReceived] at hs
    split_ifs at hs with hp
    cases hst : a.st <;> simp only [SInv, hp, hst] at h
    cases hpacket : (Input.received res).packet with
    | none =>
      rw [hpacket, Option.none_or, h.2] at hs
      cases hs
      have hmove := SMove.fail hp hst h.2 h.1 hpacket
      rw [h.2] at hmove
      exact hmove
    | some d =>
      rw [hpacket, Option.some_or] at hs
      cases hs
      exact .arrive hp hst h.2 h.1 hpacket

/-! ## The moves of the master -/

inductive MMove (a : Station LlcStateM) : Input → Station LlcStateM → List (Event LlcStateM) → Prop
  /-- a new transaction -/
  | start {now : Timeval} : a.place = .llc → a.st = .idle → a.send = none → a.recv = none →
      MMove a (.pass now) { a with
        resend := some (singleFrame (nextTransId a.transId)), send := some (singleFrame (nextTransId a.transId))
        transId := nextTransId a.transId, retriesNum := 0, llcTimer := ttTimerStart now llcTimeoutMs, last := none
        echo := false, st := .sendAll } [.enter .sendAll (nextTransId a.transId)]
  /-- any packet is taken for the response -/
  | response {now : Timeval} {d : PackData} :
      a.place = .llc → a.st = .sendAll → a.recv = some d → a.send = none → a.resend.isSome = true →
      MMove a (.pass now) { (a.check (stkGetPackType d = .typeSingle) .mType).check
          (stkGetTransId d = a.transId) .mTransId with
        testTransId := stkGetTransId d, recv := none, last := some d, st := .receivedAll }
        [.enter .receivedAll a.transId]
  | timeout {now : Timeval} : a.place = .llc → a.st = .sendAll → a.recv = none → a.send = none →
      a.resend.isSome = true → ttTimerIsTimeouted a.llcTimer now = true →
      MMove a (.pass now) { a with st := .resend } [.enter .resend a.transId]
  | wait {now : Timeval} : a.place = .llc → a.st = .sendAll → a.recv = none → a.resend.isSome = true →
      ttTimerIsTimeouted a.llcTimer now = false →
      MMove a (.pass now) { a with place := .mac, last := none } []
  | complete {now : Timeval} : a.place = .llc → a.st = .receivedAll → a.send = none → a.recv = none →
      MMove a (.pass now) { a.check (a.transId = a.testTransId) .mTestTransId with st := .idle }
        [.enter .idle a.transId]
  | retry {now : Timeval} {d : PackData} : a.place = .llc → a.st = .resend → a.send = none → a.recv = none →
      a.resend = some d →
      MMove a (.pass now) { a with
        send := some d, llcTimer := ttTimerStart now llcTimeoutMs, retriesNum := a.retriesNum + 1, last := none
        echo := false, st := .sendAll } [.enter .sendAll a.transId]
  | call {d : PackData} : a.place = .mac → a.st = .sendAll → a.recv = none → a.resend.isSome = true →
      a.send = some d →
      MMove a .call { a with place := .sending } [.tx d]
  | listen : a.place = .mac → a.st = .sendAll → a.recv = none → a.resend.isSome = true → a.send = none →
      MMove a .call { a with place := .receiving } []
  | sent : a.place = .sending → a.st = .sendAll → a.recv = none → a.resend.isSome = true →
      MMove a .sent { a with send := none, place := .llc } []
  | fail {res : Option PackData} : a.place = .receiving → a.st = .sendAll → a.recv = none → a.send = none →
      a.resend.isSome = true → (Input.received res).packet = none →
      MMove a (.received res) { a with place := .llc } []
  | arrive {res : Option PackData} {d : PackData} : a.place = .receiving → a.st = .sendAll → a.recv = none →
      a.send = none → a.resend.isSome = true → (Input.received res).packet = some d →
      MMove a (.received res) { a with recv := some d, place := .llc } []

theorem MMove.own {a a' : Station LlcStateM} {i : Input} {o : List (Event LlcStateM)} (h : MMove a i a' o)
    (hown : a.echo = false) : a'.echo = false := by
  cases h <;> simp [hown]

theorem MMove.supplied {a a' : Station LlcStateM} {i : Input} {o : List (Event LlcStateM)} (h : MMove a i a' o)
    (hs : a.Supplied) : a'.Supplied := by
  cases h with
  | response => exact (hs.check (x := .mType) nofun nofun).check (x := .mTransId) nofun nofun
  | complete => exact hs.check (x := .mTestTransId) nofun nofun
  | _ => exact hs

theorem mStationPass_move {a : Station LlcStateM} {now : Timeval} (h : MInv a) (hp : a.place = .llc)
    (hpatient : Patient a (.pass now)) :
    ∃ a', mStationPass a now = some a' ∧ MMove a (.pass now) (stationPassDone a a').1 (stationPassDone a a').2 := by
  obtain ⟨id, macRecvTimeout, st, place, transId, testTransId, retriesNum, recv, last, resend, send, echo, llcTimer,
    stderr⟩ := a
  subst hp
  cases st with
  | idle => exact ⟨_, rfl, .start rfl rfl h.1 h.2⟩
  | sendAll =>
    obtain ⟨hresend, hqueue⟩ := h
    cases recv with
    | some d =>
      have hsend : send = none := by simpa using hqueue
      have hmove := @MMove.response _ now _ rfl rfl rfl hsend hresend
      refine ⟨_, rfl, ?_⟩
      rw [stationPassDone, if_pos (by simp)]
      convert hmove using 3
      simp
    | none =>
      cases hexp : ttTimerIsTimeouted llcTimer now with
      | true => exact ⟨_, if_pos hexp, .timeout rfl rfl rfl (hpatient rfl rfl hexp) hresend hexp⟩
      | false => exact ⟨_, if_neg (by simp [hexp]), .wait rfl rfl rfl hresend hexp⟩
  | receivedAll =>
    have hmove := @MMove.complete _ now rfl rfl h.1 h.2
    refine ⟨_, rfl, ?_⟩
    rw [stationPassDone, if_pos (by simp)]
    convert hmove using 3
    simp
  | resend =>
    obtain ⟨hsend, hrecv, hresend⟩ := h
    cases resend with
    | none => cases hresend
    | some d => exact ⟨_, rfl, .retry rfl rfl hsend hrecv rfl⟩

/-- **Every step of the master is one of its moves**, while its timer is not read too early. -/
theorem mStation_move {a a' : Station LlcStateM} {i : Input} {o : List (Event LlcStateM)} (h : MInv a)
    (hi : Patient a i) (hs : mStation a i = some (a', o)) : MMove a i a' o := by
  cases i with
  | pass now =>
    simp only [mStation, stationStep] at hs
    split_ifs at hs with hp
    obtain ⟨b, hb, hmove⟩ := mStationPass_move h hp hi
    rw [hb, Option.map_some, Option.some.injEq] at hs
    rw [hs] at hmove
    exact hmove
  | call =>
    simp only [mStation, stationStep] at hs
    split_ifs at hs with hp
    cases hst : a.st <;> simp only [MInv, hp, hst] at h
    rw [Option.some.injEq] at hs
    cases hsend : a.send with
    | some d =>
      rw [stationCall_some hsend] at hs
      cases hs
      exact .call hp hst h.1 h.2 hsend
    | none =>
      rw [stationCall_none hsend] at hs
      cases hs
      exact .listen hp hst h.1 h.2 hsend
  | sent =>
    simp only [mStation, stationStep, stationSent] at hs
    split_ifs at hs with hp
    cases hst : a.st <;> simp only [MInv, hp, hst] at h
    cases hs
    exact .sent hp hst h.2.1 h.2.2
  | received res =>
    simp only [mStation, stationStep, stationReceived] at hs
    split_ifs at hs with hp
    cases hst : a.st <;> simp only [MInv, hp, hst] at h
    cases hpacket : (Input.received res).packet with
    | none =>
      rw [hpacket, Option.none_or, h.2.1] at hs
      cases hs
      have hmove := MMove.fail hp hst h.2.1 h.1 h.2.2 hpacket
      rw [h.2.1] at hmove
      exact hmove
    | some d =>
      rw [hpacket, Option.some_or] at hs
      cases hs
      exact .arrive hp hst h.2.1 h.1 h.2.2 hpacket

end LoraBridge
