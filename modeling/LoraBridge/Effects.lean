import LoraBridge.Emulator

/-!
# What a step of the emulator can do

`WlArrive` lists what `wl_shadow_worker_targ` makes of a packet in the air, `WlMove` the steps of a side. Every step of
the emulator is one of these (`emulStep_move`).
-/

set_option autoImplicit false

namespace LoraBridge

section Set

variable (g : WlEmulGlobal) (id : ConnId) {j : ConnId} (o : WlEmulBuffO) (b : WlEmulBuffI)

@[simp] theorem ConnId.other_other : id.other.other = id := by cases id <;> rfl
@[simp] theorem ConnId.other_ne : id.other ≠ id := by cases id <;> nofun
@[simp] theorem ConnId.ne_other : id ≠ id.other := by cases id <;> nofun

theorem ConnId.eq_or_other (i : ConnId) : i = id ∨ i = id.other := by cases i <;> cases id <;> simp [ConnId.other]

@[simp] theorem setOut_out : ((g.setOut id o).dev id).outputBuff = o := by simp [WlEmulGlobal.setOut]
@[simp] theorem setOut_inp : ((g.setOut id o).dev j).inputBuff = (g.dev j).inputBuff := by
  by_cases h : j = id
  · subst h
    simp [WlEmulGlobal.setOut]
  · simp [WlEmulGlobal.setOut, h]
@[simp] theorem setOut_err : (g.setOut id o).err = g.err := rfl
@[simp] theorem setOut_puts : (g.setOut id o).puts = g.puts := rfl
@[simp] theorem setIn_inp : ((g.setIn id b).dev id).inputBuff = b := by simp [WlEmulGlobal.setIn]
@[simp] theorem setIn_out : ((g.setIn id b).dev j).outputBuff = (g.dev j).outputBuff := by
  by_cases h : j = id
  · subst h
    simp [WlEmulGlobal.setIn]
  · simp [WlEmulGlobal.setIn, h]
@[simp] theorem setIn_err : (g.setIn id b).err = g.err := rfl
@[simp] theorem setIn_puts : (g.setIn id b).puts = g.puts := rfl
@[simp] theorem incErr_dev : g.incErr.dev = g.dev := rfl
@[simp] theorem incErr_err : g.incErr.err = g.err + 1 := rfl
@[simp] theorem incErr_puts : g.incErr.puts = g.puts := rfl

theorem setOut_out_of_ne (h : j ≠ id) : ((g.setOut id o).dev j).outputBuff = (g.dev j).outputBuff := by
  simp [WlEmulGlobal.setOut, h]

theorem setIn_inp_of_ne (h : j ≠ id) : ((g.setIn id b).dev j).inputBuff = (g.dev j).inputBuff := by
  simp [WlEmulGlobal.setIn, h]

end Set

section Goto

variable (e : Emul) (id : ConnId) {j : ConnId} (g : WlEmulGlobal) (pc : WlPc)

@[simp] theorem goto_devs : (e.goto id g pc).devs = g := rfl
@[simp] theorem goto_pc : (e.goto id g pc).pc id = pc := by simp [Emul.goto]
theorem goto_pc_of_ne (h : j ≠ id) : (e.goto id g pc).pc j = e.pc j := by simp [Emul.goto, h]

end Goto

/-! ## Arrivals -/

/-- What becomes of the packet that `src` has in the air when the clock reads `now`. -/
inductive WlArrive (cfg : WlConfig) (now : Timeval) (src : ConnId) (g : WlEmulGlobal) :
    WlEmulGlobal → List WlEvent → Prop
  /-- there is none -/
  | none : (g.dev src).outputBuff.isSend = true → WlArrive cfg now src g g []
  /-- not yet -/
  | flying : (g.dev src).outputBuff.isSend = false → wlAirDone (g.dev src).outputBuff.sendTime now = false →
      WlArrive cfg now src g g []
  | lost : (g.dev src).outputBuff.isSend = false → wlAirDone (g.dev src).outputBuff.sendTime now = true →
      cfg.losePackets = true →
      WlArrive cfg now src g (g.setOut src { (g.dev src).outputBuff with isSend := true })
        [.lost src (g.dev src).outputBuff.num]
  /-- the input buffer is full -/
  | dropped {data : WlData} {draws : List Draw} {ret : BitVec 32} :
      (g.dev src).outputBuff.isSend = false → wlAirDone (g.dev src).outputBuff.sendTime now = true →
      wlPackBreak cfg draws (g.dev src).outputBuff.sendData = some (data, ret) →
      (g.dev src.other).inputBuff.isRecieved = true →
      WlArrive cfg now src g (g.setOut src { (g.dev src).outputBuff with sendData := data, isSend := true }).incErr
        [.dropped src (g.dev src).outputBuff.num]
  | delivered {data : WlData} {draws : List Draw} {ret : BitVec 32} :
      (g.dev src).outputBuff.isSend = false → wlAirDone (g.dev src).outputBuff.sendTime now = true →
      wlPackBreak cfg draws (g.dev src).outputBuff.sendData = some (data, ret) →
      (g.dev src.other).inputBuff.isRecieved = false →
      WlArrive cfg now src g ((g.setOut src { (g.dev src).outputBuff with sendData := data, isSend := true }).setIn
        src.other { recvData := data, isRecieved := true, num := (g.dev src).outputBuff.num }) []

variable {cfg : WlConfig} {g g' : WlEmulGlobal} {o : List WlEvent} {e e' : Emul}

theorem wlPackCopy_all (dst src : WlData) : wlPackCopy 256 dst src = src := by
  funext i
  exact if_pos i.isLt

theorem wlShadowWorkerTarg_arrive {now : Timeval} {draws : List Draw} {src : ConnId}
    (h : wlShadowWorkerTarg cfg now draws src src.other g = some (g', o)) : WlArrive cfg now src g g' o := by
  simp only [wlShadowWorkerTarg] at h
  cases hsend : (g.dev src).outputBuff.isSend with
  | true =>
    rw [if_pos hsend] at h
    cases h
    exact .none hsend
  | false =>
    rw [if_neg (by simp [hsend])] at h
    cases hair : wlAirDone (g.dev src).outputBuff.sendTime now with
    | false =>
      rw [if_neg (by simp [hair])] at h
      cases h
      exact .flying hsend hair
    | true =>
      rw [if_pos hair] at h
      simp only [Option.bind_eq_bind, Option.bind_eq_some_iff, Prod.exists, Option.pure_def] at h
      obtain ⟨lost, draws', hlost, h⟩ := h
      split_ifs at h with hl
      · cases h
        refine .lost hsend hair ?_
        by_contra hcfg
        simp only [wlIsPacketLost, if_neg hcfg, Option.some.injEq, Prod.mk.injEq] at hlost
        rw [← hlost.1] at hl
        cases hl
      · simp only [Option.bind_eq_some_iff, Prod.exists, setOut_inp] at h
        obtain ⟨data, ret, hbreak, h⟩ := h
        split_ifs at h with hfull
        · cases h
          exact .dropped hsend hair hbreak hfull
        · cases h
          rw [wlPackCopy_all]
          exact .delivered hsend hair hbreak (by simpa using hfull)

section Frame

variable {now : Timeval} {draws : List Draw} {src j : ConnId}

theorem WlArrive.out_of_ne (h : WlArrive cfg now src g g' o) (hj : j ≠ src) :
    (g'.dev j).outputBuff = (g.dev j).outputBuff := by
  cases h with
  | none hsend => rfl
  | flying hsend hair => rfl
  | lost hsend hair hcfg => rw [setOut_out_of_ne _ _ _ hj]
  | dropped hsend hair hbreak hfull => rw [incErr_dev, setOut_out_of_ne _ _ _ hj]
  | delivered hsend hair hbreak hempty => rw [setIn_out, setOut_out_of_ne _ _ _ hj]

theorem WlArrive.inp_of_ne (h : WlArrive cfg now src g g' o) (hj : j ≠ src.other) :
    (g'.dev j).inputBuff = (g.dev j).inputBuff := by
  cases h with
  | none | flying => rfl
  | lost => simp
  | dropped => simp
  | delivered => simp [setIn_inp_of_ne _ _ _ hj]

/-- A delivery copies the whole buffer that `wl_pack_break` leaves. -/
theorem wlShadowWorkerTarg_delivers (h : wlShadowWorkerTarg cfg now draws src src.other g = some (g', o))
    (hfree : (g.dev src.other).inputBuff.isRecieved = false)
    (hfull : (g'.dev src.other).inputBuff.isRecieved = true) :
    ∃ draws' data ret, wlIsPacketLost cfg draws = some (false, draws') ∧
      wlPackBreak cfg draws' (g.dev src).outputBuff.sendData = some (data, ret) ∧
      (g'.dev src.other).inputBuff.recvData = wlPackCopy 256 (g.dev src.other).inputBuff.recvData data := by
  simp only [wlShadowWorkerTarg] at h
  split_ifs at h with hsend hair
  · cases h
    rw [hfree] at hfull
    cases hfull
  · simp only [Option.bind_eq_bind, Option.bind_eq_some_iff, Prod.exists] at h
    obtain ⟨lost, draws', hlost, h⟩ := h
    cases lost with
    | true =>
      cases h
      simp [hfree] at hfull
    | false =>
      simp only [Bool.false_eq_true, if_false, Option.bind_eq_some_iff, Prod.exists, setOut_inp, hfree] at h
      obtain ⟨data, ret, hbreak, h⟩ := h
      cases h
      exact ⟨draws', data, ret, hlost, hbreak, by simp⟩
  · cases h
    rw [hfree] at hfull
    cases hfull

end Frame

/-- The channel check counts an error just when both sides have a packet in the air. -/
theorem chanelCheck_cases (g : WlEmulGlobal) :
    ((g.dev .id0).outputBuff.isSend = false ∧ (g.dev .id1).outputBuff.isSend = false ∧
      wlShadowWorkerChanelCheck g =
        (g.incErr, [.simultaneous (g.dev .id0).outputBuff.num (g.dev .id1).outputBuff.num])) ∨
    (((g.dev .id0).outputBuff.isSend = true ∨ (g.dev .id1).outputBuff.isSend = true) ∧
      wlShadowWorkerChanelCheck g = (g, [])) := by
  cases h₀ : (g.dev .id0).outputBuff.isSend <;> cases h₁ : (g.dev .id1).outputBuff.isSend <;>
    simp [wlShadowWorkerChanelCheck, h₀, h₁]

theorem chanelCheck_dev (g : WlEmulGlobal) : (wlShadowWorkerChanelCheck g).1.dev = g.dev := by
  rcases chanelCheck_cases g with ⟨-, -, hc⟩ | ⟨-, hc⟩
  · rw [hc]
    rfl
  · rw [hc]

/-- The shadow worker: both directions, then the channel check. -/
theorem wlShadowWorker_arrive {t : WlTick} (h : wlShadowWorker cfg t g = some (g', o)) :
    ∃ g₀ g₁ o₀ o₁, WlArrive cfg t.now₀ .id0 g g₀ o₀ ∧ WlArrive cfg t.now₁ .id1 g₀ g₁ o₁ ∧
      g' = (wlShadowWorkerChanelCheck g₁).1 ∧ o = o₀ ++ o₁ ++ (wlShadowWorkerChanelCheck g₁).2 := by
  simp only [wlShadowWorker, Option.bind_eq_bind, Option.bind_eq_some_iff, Prod.exists, Option.pure_def,
    Option.some.injEq, Prod.mk.injEq] at h
  obtain ⟨g₀, o₀, h₀, g₁, o₁, h₁, rfl, rfl⟩ := h
  exact ⟨g₀, g₁, o₀, o₁, wlShadowWorkerTarg_arrive h₀, wlShadowWorkerTarg_arrive h₁, rfl, rfl⟩

/-! ## Steps -/

/-- Where a side goes after `wl_shadow_worker`. -/
def WlPc.worked : WlPc → Option WlPc
  | .sendBegin payload timeout => some (.sendTest payload timeout)
  | .sendFlush => some .sendCheck
  | .recvBegin timeout => some (.dataWorker ⟨true, timeout, 0⟩)
  | .dataWorker w => some (.dataRead w)
  | _ => none

/-- Where a side goes after `wl_shadow_checker`. -/
def WlPc.checked : WlPc → Option (WlPc × Option WlRet)
  | .sendCheck => some (.out, some .send)
  | .dataCheck w ret => some (wlWaitNext w ret)
  | .recvCheck data => some (.out, some (.recv (some data)))
  | _ => none

/-- `wl_sendPacketTimeout` writes the output buffer. -/
def WlEmulGlobal.put (g : WlEmulGlobal) (id : ConnId) (payload : PackData) (now : Timeval) : WlEmulGlobal :=
  { g.setOut id
      { sendTime := now, isSend := false, num := g.puts id
        sendData := wlPackCopy configWlPackConstLen (g.dev id).outputBuff.sendData (payloadData payload) } with
    puts := Function.update g.puts id (g.puts id + 1) }

/-- `wl_receivePacketTimeout` empties the input buffer. -/
def WlEmulGlobal.take (g : WlEmulGlobal) (id : ConnId) : WlEmulGlobal :=
  g.setIn id { (g.dev id).inputBuff with isRecieved := false }

inductive WlMove (cfg : WlConfig) (e : Emul) : WlInput → Emul → List WlEvent → Prop
  | call {id : ConnId} {c : WlCall} : e.pc id = .out → WlMove cfg e (.call id c) (e.goto id e.devs c.enter) []
  | work {id : ConnId} {t : WlTick} {pc : WlPc} {g : WlEmulGlobal} {o : List WlEvent} :
      (e.pc id).worked = some pc → wlShadowWorker cfg t e.devs = some (g, o) →
      WlMove cfg e (.tick id t) (e.goto id g pc) o
  | check {id : ConnId} {t : WlTick} {pc : WlPc} {r : Option WlRet} : (e.pc id).checked = some (pc, r) →
      WlMove cfg e (.tick id t) (e.goto id (wlShadowWorkerChanelCheck e.devs).1 pc)
        ((wlShadowWorkerChanelCheck e.devs).2 ++ (r.map (WlEvent.ret id)).toList)
  | test {id : ConnId} {t : WlTick} {payload : PackData} {timeout : BitVec 32} :
      e.pc id = .sendTest payload timeout →
      WlMove cfg e (.tick id t) (e.goto id e.devs
        (if (e.devs.dev id).outputBuff.isSend then .sendPut payload timeout else .sendBusy payload timeout)) []
  | busy {id : ConnId} {t : WlTick} {payload : PackData} {timeout : BitVec 32} : e.pc id = .sendBusy payload timeout →
      WlMove cfg e (.tick id t) (e.goto id e.devs.incErr (.sendPut payload timeout)) [.busy id]
  | put {id : ConnId} {t : WlTick} {payload : PackData} {timeout : BitVec 32} : e.pc id = .sendPut payload timeout →
      WlMove cfg e (.tick id t)
        (e.goto id (e.devs.put id payload t.now₀) (if timeout ≠ 0 then .sendFlush else .sendCheck))
        ((if (e.devs.dev id).outputBuff.isSend then [] else [.overwritten id (e.devs.dev id).outputBuff.num]) ++
          [.put id (e.devs.puts id) payload])
  | read {id : ConnId} {t : WlTick} {w : WlWait} : e.pc id = .dataRead w →
      WlMove cfg e (.tick id t) (e.goto id e.devs (.dataCheck w (e.devs.dev id).inputBuff.isRecieved)) []
  | empty {id : ConnId} {t : WlTick} : e.pc id = .recvEmpty →
      WlMove cfg e (.tick id t) (e.goto id e.devs.incErr .out) [.empty id, .ret id (.recv none)]
  | copy {id : ConnId} {t : WlTick} : e.pc id = .recvCopy →
      WlMove cfg e (.tick id t)
        (e.goto id (e.devs.take id) (.recvCheck (packOfData (e.devs.dev id).inputBuff.recvData)))
        [.returned id.other (e.devs.dev id).inputBuff.num (packOfData (e.devs.dev id).inputBuff.recvData)]

theorem wlStep_work {id : ConnId} {t : WlTick} {pc : WlPc}
    (h : ((wlShadowWorker cfg t e.devs).bind fun r => some (e.goto id r.1 pc, r.2)) = some (e', o))
    (hpc : (e.pc id).worked = some pc) : WlMove cfg e (.tick id t) e' o := by
  simp only [Option.bind_eq_some_iff, Prod.exists, Option.some.injEq, Prod.mk.injEq] at h
  obtain ⟨g, o, hw, rfl, rfl⟩ := h
  exact .work hpc hw

/-- **Every step of the emulator is one of the moves.** -/
theorem emulStep_move {i : WlInput} (h : emulStep cfg e i = some (e', o)) : WlMove cfg e i e' o := by
  cases i with
  | call id c =>
    simp only [emulStep] at h
    split_ifs at h with hpc
    cases h
    exact .call hpc
  | tick id t =>
    simp only [emulStep, wlStep] at h
    cases hpc : e.pc id with
    | out =>
      rw [hpc] at h
      cases h
    | sendBegin payload timeout =>
      rw [hpc] at h
      exact wlStep_work h (by rw [hpc]; rfl)
    | sendTest payload timeout =>
      rw [hpc] at h
      cases h
      exact .test hpc
    | sendBusy payload timeout =>
      rw [hpc] at h
      cases h
      exact .busy hpc
    | sendPut payload timeout =>
      rw [hpc] at h
      cases h
      exact .put hpc
    | sendFlush =>
      rw [hpc] at h
      exact wlStep_work h (by rw [hpc]; rfl)
    | sendCheck =>
      rw [hpc] at h
      cases h
      exact .check (by rw [hpc]; rfl)
    | recvBegin timeout =>
      rw [hpc] at h
      exact wlStep_work h (by rw [hpc]; rfl)
    | dataWorker w =>
      rw [hpc] at h
      exact wlStep_work h (by rw [hpc]; rfl)
    | dataRead w =>
      rw [hpc] at h
      cases h
      exact .read hpc
    | dataCheck w ret =>
      rw [hpc] at h
      cases h
      exact .check (by rw [hpc]; rfl)
    | recvEmpty =>
      rw [hpc] at h
      cases h
      exact .empty hpc
    | recvCopy =>
      rw [hpc] at h
      cases h
      exact .copy hpc
    | recvCheck data =>
      rw [hpc] at h
      cases h
      exact .check (by rw [hpc]; rfl)

end LoraBridge
