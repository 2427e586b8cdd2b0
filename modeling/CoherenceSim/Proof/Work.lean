import CoherenceSim.Lib.Ranking
import CoherenceSim.Proof.InstructionOrder
import CoherenceSim.Proof.MemoryBursts
import CoherenceSim.Proof.MemoryOrder

/-!
# The work that is left

Whatever a system still has to do is priced: instructions that wait, the stages of a miss,
queued requests, the reads and the burst of the memory. The prices are such that each step pays
for what comes of it. A read is dear, since every other node may answer it with a burst, and an
instruction costs more than the read and the write-back it may lead to.

Here are the prices, and what a tick and the bus do to the work of one controller, of one
processor and of the memory.
-/

namespace CoherenceSim

open BusNode

/-! ## Prices -/

/-- A read that memory tracks will be a burst. -/
def trackPrice (ps : Params) : Nat := 2 * ps.burstLength + 2

/-- What another node may have to do because of this command. -/
def CommandCode.disturbance (ps : Params) : CommandCode → Nat
  | .busRead | .busReadX => trackPrice ps
  | .invalidate => ps.burstLength
  | _ => 0

/-- What a command costs all others, and itself. -/
def CommandCode.effect (ps : Params) (code : CommandCode) : Nat :=
  (ps.numProcessors + 1) * code.disturbance ps + 1

/-- A queued request. A transfer is on the bus for a whole burst. -/
def BusRequest.price (ps : Params) (r : BusRequest) : Nat :=
  if Controller.burstsFor r then ps.burstLength else r.commandCode.effect ps

/-- A miss may end with a write-back. -/
def ControllerState.price (ps : Params) : ControllerState → Nat
  | .idleState => 0
  | .issueReadState | .issueReadXState => ps.burstLength + 2
  | .issueInvalidateState => 2
  | _ => 1

/-- An instruction that the controller has not looked up: a read, a miss, and one to spare. -/
def lookupPrice (ps : Params) : Nat := CommandCode.busRead.effect ps + ps.burstLength + 3

def queuePrice (ps : Params) (q : List BusRequest) : Nat := (q.map (·.price ps)).sum

def Controller.work (ps : Params) (c : Controller) : Nat :=
  c.waiting * lookupPrice ps + c.currentState.price ps + queuePrice ps c.busReqQueue
    + queuePrice ps c.maxPriorityQueue + (ps.burstLength - c.burstCounter)

def Processor.work (ps : Params) (p : Processor) : Nat :=
  p.instrQueue.length * (lookupPrice ps + 1) + p.cacheController.work ps

/-- Two for each unit of the burst, and one for the lock. -/
def Memory.burstWork (ps : Params) (m : Memory) : Nat :=
  if m.bursting then 2 * (ps.burstLength - m.burstCounter) + (if m.nodeIsLocked then 0 else 1)
  else 0

def Memory.work (ps : Params) (m : Memory) : Nat :=
  m.memTracker.length * trackPrice ps + m.burstWork ps + m.busReqQueue.length

/-- How long memory may still leave its first read alone. -/
def Memory.patience (m : Memory) : Nat :=
  match m.memTracker with
  | [] => 0
  | p :: _ => m.readLatency + 2 - (p.age + 1) % 2 ^ 32

variable {ps : Params}

theorem queuePrice_cons (r : BusRequest) (q : List BusRequest) :
    queuePrice ps (r :: q) = r.price ps + queuePrice ps q := by
  simp [queuePrice]

theorem queuePrice_sublist {q q' : List BusRequest} (h : q.Sublist q') :
    queuePrice ps q ≤ queuePrice ps q' :=
  (h.map _).sum_le_sum fun _ _ => Nat.zero_le _

variable (ps) in
theorem queuePrice_dropLast {q : List BusRequest} {r : BusRequest} (h : q.getLast? = some r) :
    queuePrice ps q.dropLast + r.price ps = queuePrice ps q := by
  obtain ⟨q, rfl⟩ := List.getLast?_eq_some_iff.mp h
  simp [queuePrice]

theorem price_of_transfer {r : BusRequest} (h : Controller.burstsFor r = true) :
    r.price ps = ps.burstLength := if_pos h

theorem price_of_command {r : BusRequest} (h : Controller.burstsFor r = false) :
    r.price ps = r.commandCode.effect ps := if_neg (by simp [h])

/-- Whatever disturbs nobody is paid for by the one who sends it. -/
theorem effect_of_quiet {code : CommandCode} (h : code.disturbance ps = 0) :
    code.effect ps = 1 := by
  rw [CommandCode.effect, h, Nat.mul_zero]

theorem disturbance_le_busRead (code : CommandCode) :
    code.disturbance ps ≤ CommandCode.busRead.disturbance ps := by
  have h : ps.burstLength ≤ trackPrice ps := by rw [trackPrice]; omega
  cases code <;> simp [CommandCode.disturbance, h]

variable (ps) in
/-- No command is dearer than a read. -/
theorem effect_le_busRead (code : CommandCode) :
    code.effect ps ≤ CommandCode.busRead.effect ps :=
  Nat.add_le_add_right (Nat.mul_le_mul_left _ (disturbance_le_busRead code)) 1

namespace Controller

variable {c c' : Controller} {d : BusRequest}

theorem settle_work (c : Controller) : c.settle.work ps = c.work ps := rfl

theorem polled_work (c : Controller) : c.polled.work ps = c.work ps := rfl

/-! ## Controllers: a tick -/

/-- The step of an instruction that was waiting pays for all that it queues. -/
theorem work_of_lookup (hs : c.currentState = .idleState) (hp : c.pendingInstructionFlag = true)
    (hbusy : c'.currentState ≠ .idleState) (hk : c'.burstCounter = c.burstCounter)
    (hprice : c'.currentState.price ps + queuePrice ps c'.busReqQueue
        + queuePrice ps c'.maxPriorityQueue
      < lookupPrice ps + queuePrice ps c.busReqQueue + queuePrice ps c.maxPriorityQueue) :
    c'.work ps < c.work ps := by
  have hidle : c.currentState.price ps = 0 := by rw [hs]; rfl
  rw [Controller.work, Controller.work, waiting_of_pending hs hp, waiting_of_busy hbusy, hk, hidle]
  omega

/-- A step between two states that wait for nothing. -/
theorem work_of_step (hw : c.waiting = 0) (hw' : c'.waiting = 0)
    (hk : c'.burstCounter = c.burstCounter) (hq : c'.busReqQueue = c.busReqQueue)
    (hprice : c'.currentState.price ps + queuePrice ps c'.maxPriorityQueue
      < c.currentState.price ps + queuePrice ps c.maxPriorityQueue) :
    c'.work ps < c.work ps := by
  rw [Controller.work, Controller.work, hw, hw', hk, hq]
  omega

theorem price_makeRequest_command {code : CommandCode} (adx : Nat)
    (h : code ≠ .busWrite ∧ code ≠ .dataReturnProcessor) :
    (c.makeRequest code adx).price ps = code.effect ps :=
  price_of_command (by simp [burstsFor, makeRequest, h.1, h.2])

theorem price_makeRequest_transfer {code : CommandCode} (adx : Nat)
    (h : code = .busWrite ∨ code = .dataReturnProcessor) :
    (c.makeRequest code adx).price ps = ps.burstLength :=
  price_of_transfer (by rcases h with h | h <;> simp [burstsFor, makeRequest, h])

theorem loadCommand_command (t : ControllerType) :
    t.loadCommand ≠ .busWrite ∧ t.loadCommand ≠ .dataReturnProcessor := by
  cases t <;> simp [ControllerType.loadCommand]

/-- A controller that has nothing to do in this tick: it waits for data, or for an instruction. -/
inductive Still (c c' : Controller) : Prop
  | waits : c.Missing → c.awaitingDataLocal = true → c' = c → Still c c'
  | rests : c.currentState = .idleState → c.pendingInstructionFlag = false →
      c' = c.idleAction → Still c c'

variable (ps) in
/-- **Every step of a controller does some of its work**, unless there is nothing to do. -/
theorem Transitioned.work (hs : Transitioned c c') : c'.work ps < c.work ps ∨ Still c c' := by
  cases hs with
  | rest hs hp => exact Or.inr (.rests hs hp rfl)
  | wait hm hw => exact Or.inr (.waits hm hw rfl)
  | retire hs =>
      refine Or.inl (work_of_step (waiting_of_busy ?_) (waiting_of_not_pending rfl) rfl rfl ?_)
      · rcases hs with hs | hs | hs <;> simp [hs]
      · rcases hs with hs | hs | hs <;> simp [hs, idleAction, ControllerState.price]
  | invalidateQueued hs =>
      refine Or.inl (work_of_step (waiting_of_busy (by simp [hs])) (waiting_of_busy (by simp)) rfl
        rfl ?_)
      simp [hs, ControllerState.price]
  | loadHit hs hp | storeHit hs hp =>
      refine Or.inl (work_of_lookup hs hp (by simp) rfl ?_)
      simp only [ControllerState.price, lookupPrice]
      omega
  | loadMiss hs hp =>
      -- the read is queued, and the write-back that may follow is put aside
      have hread := effect_le_busRead ps c.controllerType.loadCommand
      refine Or.inl (work_of_lookup hs hp (by simp) rfl ?_)
      simp only [queueBusCommand, addNewBusRequest, queuePrice_cons, ControllerState.price,
        lookupPrice, price_makeRequest_command _ (loadCommand_command _)]
      omega
  | storeMiss hs hp =>
      have hread := effect_le_busRead ps .busReadX
      refine Or.inl (work_of_lookup hs hp (by simp) rfl ?_)
      simp only [queueBusCommand, addNewBusRequest, queuePrice_cons, ControllerState.price,
        lookupPrice, price_makeRequest_command _ (show CommandCode.busReadX ≠ .busWrite
          ∧ CommandCode.busReadX ≠ .dataReturnProcessor by simp)]
      omega
  | storeShared hs hp =>
      have hinv := effect_le_busRead ps .invalidate
      refine Or.inl (work_of_lookup hs hp (by simp) rfl ?_)
      simp only [queueMaxPriorityBusCommand, addNewMaxPriorityBusRequest, queuePrice_cons,
        ControllerState.price, lookupPrice, price_makeRequest_command _
          (show CommandCode.invalidate ≠ .busWrite ∧ CommandCode.invalidate ≠ .dataReturnProcessor
            by simp)]
      omega
  | loadDropped hs | loadFilled hs | storeFilled hs =>
      refine Or.inl (work_of_step (waiting_of_busy (by simp [hs])) (waiting_of_busy (by simp)) rfl
        rfl ?_)
      simp [hs, ControllerState.price]
  | storeDropped hs =>
      -- the write-back was put aside when the miss began
      refine Or.inl (work_of_step (waiting_of_busy (by simp [hs])) (waiting_of_busy (by simp)) rfl
        rfl ?_)
      simp only [hs, queueMaxPriorityBusCommand, addNewMaxPriorityBusRequest, queuePrice_cons,
        ControllerState.price, price_makeRequest_transfer _ (Or.inl rfl)]
      omega

/-- A controller that is still has as much to do as before, and goes on as before. -/
theorem Still.work (hs : Still c c') : c'.work ps = c.work ps := by
  cases hs with
  | waits _ _ h => rw [h]
  | rests hs hp h =>
      rw [h, Controller.work, Controller.work, waiting_of_not_pending hp,
        waiting_of_not_pending (c := c.idleAction) rfl]
      rfl

variable (ps) in
/-- An instruction that is handed over will have to be looked up. -/
theorem withInstruction_work {i : Instruction} (hi : c.Inv) (hp : c.pendingInstructionFlag = false) :
    (c.withInstruction i).work ps = c.work ps + lookupPrice ps := by
  have hs : c.currentState = .idleState := by
    by_contra hne
    rw [hi.busy hne] at hp; cases hp
  have hw : (c.withInstruction i).waiting = 1 := waiting_of_pending hs rfl
  rw [Controller.work, Controller.work, hw, waiting_of_not_pending hp]
  simp only [withInstruction]
  omega

/-! ## Controllers: the bus -/

/-- What a controller sends is paid for, along with all it does to the others. -/
theorem Sent.work (hs : Sent c d c') (hi : c.Inv) (hlen : c.burstLen = ps.burstLength)
    (hb : c.burstCounter < ps.burstLength) (hw : ps.burstLength < 2 ^ 32) :
    c'.work ps + d.commandCode.effect ps ≤ c.work ps := by
  have hsucc : (c.burstCounter + 1) % 2 ^ 32 = c.burstCounter + 1 := Nat.mod_eq_of_lt (by omega)
  have hsame := hs.sameState
  have hwait : c'.waiting = c.waiting := by rw [waiting, waiting, hsame.1, hsame.2.1]
  rw [Controller.work, Controller.work, hwait, hsame.1]
  cases hs with
  | nullBurst _ _ hne =>
      -- one unit of the burst
      have hone : CommandCode.nullBurst.effect ps = 1 := effect_of_quiet rfl
      rw [hsucc, hlen] at hne
      simp only [hsucc, hone]
      omega
  | @transfer r hq hburst hfull =>
      have hdrop := queuePrice_dropLast ps hq
      rw [price_of_transfer hburst] at hdrop
      have hone : d.commandCode.effect ps = 1 := by
        refine effect_of_quiet ?_
        have hcode : d.commandCode = .busWrite ∨ d.commandCode = .dataReturnProcessor := by
          simpa [burstsFor] using hburst
        rcases hcode with h0 | h0 <;> rw [h0] <;> rfl
      rw [hsucc, hlen] at hfull
      simp only [hone]
      omega
  | @command r hq hburst =>
      have hdrop := queuePrice_dropLast ps hq
      rw [price_of_command hburst] at hdrop
      dsimp only
      omega
  | read _ hm haway hb₀ =>
      have hqueue : c.busReqQueue = [c.missRequest] := by
        cases (hi.miss hm).stage with
        | queued _ _ hq _ => exact hq
        | out _ h0 => rw [hb₀] at h0; cases h0
        | answered h0 => rw [haway] at h0; cases h0
      have hprice : c.missRequest.price ps = c.missRequest.commandCode.effect ps :=
        price_of_command (by
          rcases c.missCommand_cases with h0 | ⟨h0, _⟩ <;> simp [burstsFor, missRequest, h0])
      have hnil : queuePrice ps [] = 0 := rfl
      rw [hqueue, queuePrice_cons, hprice, hnil]
      dsimp only
      omega

/-- Snooping costs no more than the command was said to. -/
theorem Snooped.work (hs : Snooped d c c') (hlen : 1 ≤ ps.burstLength) :
    c'.work ps ≤ c.work ps + d.commandCode.disturbance ps := by
  have hsame := hs.sameState
  have hwait : c'.waiting = c.waiting := by rw [waiting, waiting, hsame.1, hsame.2.1]
  have hbus : c'.busReqQueue = c.busReqQueue := by cases hs <;> rfl
  have answer (m : MESI) (hd : d.commandCode = .busRead ∨ d.commandCode = .busReadX) :
      (c.makeRequest (answerCode m) d.payload).price ps ≤ d.commandCode.disturbance ps := by
    have hprice : (c.makeRequest (answerCode m) d.payload).price ps = ps.burstLength :=
      price_makeRequest_transfer _ (by unfold answerCode; split <;> simp)
    rcases hd with hd | hd <;> rw [hprice, hd] <;> simp only [CommandCode.disturbance, trackPrice] <;>
      omega
  have hqueue : queuePrice ps c'.maxPriorityQueue
      ≤ queuePrice ps c.maxPriorityQueue + d.commandCode.disturbance ps := by
    cases hs with
    | @holdRead m _ hd =>
        have hprice := answer m (Or.inl hd)
        show queuePrice ps (_ :: c.maxPriorityQueue) ≤ _
        rw [queuePrice_cons]
        omega
    | @holdReadX m _ hd =>
        have hprice := answer m (Or.inr hd)
        show queuePrice ps (_ :: c.maxPriorityQueue) ≤ _
        rw [queuePrice_cons]
        omega
    | holdInvalidateModified hd =>
        show queuePrice ps (_ :: c.maxPriorityQueue) ≤ _
        rw [queuePrice_cons, price_makeRequest_transfer _ (Or.inl rfl), hd]
        simp only [CommandCode.disturbance]
        omega
    | waitRead hd =>
        have hone : CommandCode.shareMe.effect ps = 1 := effect_of_quiet rfl
        show queuePrice ps (_ :: c.maxPriorityQueue) ≤ _
        rw [queuePrice_cons, price_makeRequest_command _ (by simp), hone, hd]
        simp only [CommandCode.disturbance, trackPrice]
        omega
    | data | ignored =>
        exact Nat.le_add_right_of_le (queuePrice_sublist (uncancelled_sublist d _))
    | holdInvalidate | holdShareMe | waitReadX | waitInvalidate | waitShareMe =>
        exact Nat.le_add_right _ _
  rw [Controller.work, Controller.work, hwait, hsame.1, hbus, hsame.2.2.2]
  omega

end Controller

/-! ## Processors -/

namespace Processor

variable {Q : Instruction → Prop} {p p' : Processor}

/-- A processor waits for its controller only while the controller has an instruction. -/
def Awake (p : Processor) : Prop :=
  p.currentState = .memoryReturnWaitState → p.cacheController.pendingInstructionFlag = true

theorem pending_of_wait (h : p.getNextState = .ok .memoryReturnWaitState) :
    p.cacheController.pendingInstructionFlag = true := by
  by_contra hp
  have hp : p.cacheController.pendingInstructionFlag = false := by simpa using hp
  unfold getNextState at h
  split at h
  · simp [idleTransition] at h
    split at h <;> cases h
  · simp only [checkOpTypeTransition, Controller.hasPendingInstruction, hp, Bool.false_eq_true,
      if_false] at h
    split at h
    · obtain ⟨b, _, h⟩ := Outcome.bind_eq_ok.mp h
      cases b <;> cases h
    · cases h
  · simp [memoryReturnWaitTransition, Controller.hasPendingInstruction, hp] at h

/-- A processor goes idle when its controller is free and its queue is empty, unless it has
waited until now. -/
theorem Inv.queue_of_idle (h : p.Inv Q) (hnext : p.getNextState = .ok .idleState)
    (hp : p.cacheController.pendingInstructionFlag = false)
    (hs : p.currentState ≠ .memoryReturnWaitState) : p.instrQueue = [] := by
  cases hq : p.instrQueue with
  | nil => rfl
  | cons i rest =>
      have hop : isMemoryOp i = true :=
        isMemoryOp_iff.mpr (h.memoryOps i (by rw [hq]; exact List.mem_cons_self))
      have hpending : p.hasPendingInstructions = true := by simp [hasPendingInstructions, hq]
      cases hstate : p.currentState with
      | idleState => simp [getNextState, hstate, idleTransition, hpending] at hnext
      | checkOpTypeState =>
          simp [getNextState, hstate, checkOpTypeTransition, Controller.hasPendingInstruction, hp,
            hpending, nextInstIsMemoryOp, hq, hop] at hnext
      | memoryReturnWaitState => exact absurd hstate hs

/-- A processor that has nothing to do in this tick, like its controller. -/
structure Still (p p' : Processor) : Prop where
  controller : ∃ c₁, Controller.Still p.cacheController c₁ ∧ p'.cacheController = c₁.settle
  instrQueue : p'.instrQueue = p.instrQueue
  empty : p.cacheController.pendingInstructionFlag = false → p.instrQueue = []

variable (ps) in
/-- **Every tick of a processor does some of its work**, unless there is nothing to do. -/
theorem Inv.tick_work (h : p.Inv Q) (hawake : p.Awake) (htick : p.tick = .ok p') :
    p'.Awake ∧ (p'.work ps < p.work ps ∨ Still p p') := by
  obtain ⟨c₁, hs, hc₁⟩ := h.controller.tick
  have hwork := hs.work ps
  have hpending : p.cacheController.pendingInstructionFlag = false →
      c₁.settle.pendingInstructionFlag = false := hs.pending
  rw [Processor.tick, hc₁, Outcome.ok_bind, Processor.transitionState] at htick
  obtain ⟨next, hnext, htick⟩ := Outcome.bind_eq_ok.mp htick
  -- nothing is handed over, and the work is what the controller makes of it
  have quiet (hc : p'.cacheController = c₁.settle) (hq : p'.instrQueue = p.instrQueue)
      (hempty : p.cacheController.pendingInstructionFlag = false → p.instrQueue = []) :
      p'.work ps < p.work ps ∨ Still p p' := by
    rcases hwork with hlt | hstill
    · refine Or.inl ?_
      rw [Processor.work, Processor.work, hc, hq, Controller.settle_work]
      omega
    · exact Or.inr ⟨⟨c₁, hstill, hc⟩, hq, hempty⟩
  cases next with
  | idleState =>
      cases htick
      refine ⟨fun h0 => (by cases h0), quiet rfl rfl fun hp => ?_⟩
      have h₁ : Inv Q { p with cacheController := c₁.settle } :=
        ⟨(hs.inv h.controller).settle, fun h0 => hs.pending (h.idle h0), h.memoryOps, h.queue,
          fun i hi => h.current i (hs.currentInstruction ▸ hi)⟩
      refine h₁.queue_of_idle hnext (hpending hp) fun h0 => ?_
      rw [hawake h0] at hp; cases hp
  | memoryReturnWaitState =>
      cases htick
      have hwait := pending_of_wait hnext
      refine ⟨fun _ => hwait, quiet rfl rfl fun hp => ?_⟩
      rw [hpending hp] at hwait; cases hwait
  | checkOpTypeState =>
      cases hq : p.instrQueue with
      | nil => simp [callActionFunction, checkOpTypeAction, getNextInstruction, hq] at htick
      | cons i rest =>
          have hop : isMemoryOp i = true :=
            isMemoryOp_iff.mpr (h.memoryOps i (by rw [hq]; exact List.mem_cons_self))
          simp only [callActionFunction, checkOpTypeAction, getNextInstruction, hq,
            Outcome.pure_eq_ok, Outcome.ok_bind, hop, if_true] at htick
          obtain ⟨c₂, hc₂, htick⟩ := Outcome.bind_eq_ok.mp htick
          obtain ⟨_, hassert, hc₂⟩ := Outcome.bind_eq_ok.mp hc₂
          have hfree : c₁.settle.pendingInstructionFlag = false := by
            simpa [Controller.hasPendingInstruction] using assertThat_eq_ok.mp hassert
          cases hc₂
          cases htick
          refine ⟨fun h0 => (by cases h0), Or.inl ?_⟩
          have hle : c₁.work ps ≤ p.cacheController.work ps := by
            rcases hwork with hlt | hstill
            · exact Nat.le_of_lt hlt
            · exact Nat.le_of_eq hstill.work
          -- the instruction was worth one more than its lookup
          have hgiven := Controller.withInstruction_work ps (i := i)
            (hs.inv h.controller).settle hfree
          rw [Controller.settle_work] at hgiven
          show rest.length * (lookupPrice ps + 1) + (c₁.settle.withInstruction i).work ps < _
          rw [Processor.work, hq, List.length_cons, Nat.succ_mul, hgiven]
          omega

end Processor

/-! ## Memory -/

namespace Memory

variable {m m' : Memory} {req : Option BusRequest}

/-- Memory as the system has it between two cycles. -/
structure Paced (ps : Params) (m : Memory) : Prop where
  burstLen : m.burstLen = ps.burstLength
  readLatency : m.readLatency = ps.memoryLatency
  counter : m.burstCounter ≤ ps.burstLength - 1
  locked : m.nodeIsLocked = true → m.bursting = true

/-- Memory has nothing to do in this tick: it lets its reads grow old, or waits for the lock. -/
inductive Still (m : Memory) : Memory → Prop
  | ages : m.bursting = false →
      (∀ p, m.updateReadAges.memTracker[m.updateReadAges.getOldestOp]? = some p →
        p.age < m.readLatency) → Still m m.updateReadAges
  | holds : m.bursting = true → m.nodeIsLocked = false → Still m m

/-- **Every tick of memory does some of its work**, unless there is nothing to do. -/
theorem Ticked.work (ht : Ticked m m') (hp : m.Paced ps) (hlen : 2 ≤ ps.burstLength)
    (hw : ps.burstLength < 2 ^ 32) : m'.work ps < m.work ps ∨ Still m m' := by
  have hlast : tick.subOne m.burstLen = ps.burstLength - 1 := by
    rw [hp.burstLen, subOne_eq (by omega) hw]
  have hcounter := hp.counter
  cases ht with
  | age hb hyoung => exact Or.inr (.ages hb hyoung)
  | hold hb _ hl => exact Or.inr (.holds hb hl)
  | @start p hb hget =>
      -- a tracked read pays for the burst
      have hlt := (List.getElem?_eq_some_iff.mp hget).1
      obtain ⟨k, hk⟩ : ∃ k, m.updateReadAges.memTracker.length = k + 1 :=
        Nat.exists_eq_succ_of_ne_zero (Nat.ne_of_gt (Nat.zero_lt_of_lt hlt))
      have hsame : m.memTracker.length = k + 1 := (List.length_map _).symm.trans hk
      have hrest : (m.updateReadAges.memTracker.eraseIdx m.updateReadAges.getOldestOp).length = k := by
        rw [List.length_eraseIdx_of_lt hlt, hk]
        rfl
      refine Or.inl ?_
      simp only [Memory.work, burstWork, hb, hrest, hsame, if_true, Bool.false_eq_true, if_false,
        Nat.succ_mul, trackPrice]
      have hlocked : m.updateReadAges.nodeIsLocked = m.nodeIsLocked := rfl
      have hcount : m.updateReadAges.burstCounter = m.burstCounter := rfl
      have hqueue : m.updateReadAges.busReqQueue = m.busReqQueue := rfl
      rw [hlocked, hcount, hqueue]
      split <;> omega
  | finish hb _ hk =>
      rw [hlast] at hk
      refine Or.inl ?_
      simp only [Memory.work, burstWork, hb, hk, if_true, Bool.false_eq_true, if_false,
        List.length_append, List.length_singleton]
      split <;> omega
  | nullBurst hb _ hk hl =>
      rw [hlast] at hk
      have hsucc : (m.burstCounter + 1) % 2 ^ 32 = m.burstCounter + 1 :=
        Nat.mod_eq_of_lt (by omega)
      refine Or.inl ?_
      simp only [Memory.work, burstWork, hb, hl, hsucc, if_true, List.length_append,
        List.length_singleton]
      omega

/-- Memory that has the lock has just queued something. -/
theorem Ticked.queue_of_locked (ht : Ticked m m') (hp : m.Paced ps)
    (hl : m'.nodeIsLocked = true) : m'.busReqQueue ≠ [] := by
  have hb : m.bursting = true := hp.locked (ht.same.2.2 ▸ hl)
  cases ht with
  | age h0 | start h0 => rw [hb] at h0; cases h0
  | finish | nullBurst => simp
  | hold _ _ h0 => rw [show m.nodeIsLocked = true from hl] at h0; cases h0

/-- Getting the lock is work done. -/
theorem relock_work_lt (hb : m.bursting = true) (hl : m.nodeIsLocked = false) :
    Memory.work ps { m with nodeIsLocked := m.bursting } < m.work ps := by
  simp [Memory.work, burstWork, hb, hl]

variable (ps) in
theorem relock_work (m : Memory) :
    Memory.work ps { m with nodeIsLocked := m.bursting } ≤ m.work ps := by
  cases hb : m.bursting <;> simp [Memory.work, burstWork, hb]

/-- Hearing a command costs no more than the command was said to. -/
theorem acceptBusTransaction_work (m : Memory) (d : BusRequest) :
    (m.acceptBusTransaction d).work ps ≤ m.work ps + d.commandCode.disturbance ps := by
  refine acceptBusTransaction_elim m d (fun hread => ?_) (fun _ => ?_) fun _ => Nat.le_add_right _ _
  · have hcost : d.commandCode.disturbance ps = trackPrice ps := by
      rcases hread with h0 | h0 <;> rw [h0] <;> rfl
    rw [Memory.work, Memory.work, hcost]
    simp only [List.length_append, List.length_singleton, Nat.succ_mul, burstWork]
    omega
  · have hle : (cancelRead d.payload m.memTracker).length ≤ m.memTracker.length := by
      rw [cancelRead_eq]; exact List.length_eraseP_le
    have hmul := Nat.mul_le_mul_right (trackPrice ps) hle
    rw [Memory.work, Memory.work]
    simp only [burstWork]
    omega

/-- What memory sends is paid for. -/
theorem sent_work {r : BusRequest} {rest : List BusRequest} (hq : m.busReqQueue = r :: rest) :
    Memory.work ps { m with
      nodeIsLocked := m.bursting
      busReqQueue := rest
      memSendCounts := m.memSendCounts + 1 } + 1 ≤ m.work ps := by
  have hrelock := relock_work ps m
  rw [Memory.work, Memory.work, hq, List.length_cons] at hrelock
  rw [Memory.work, Memory.work, hq, List.length_cons]
  simp only [burstWork] at hrelock ⊢
  omega

/-! ### Patience -/

/-- The search of `getOldestOp` ends where it began, or at someone older. -/
theorem oldestLoop_older (l : List MemoryOperation) : ∀ i oldestAge index,
    oldestLoop i oldestAge index l = index
      ∨ ∃ j q, oldestLoop i oldestAge index l = i + j ∧ l[j]? = some q ∧ oldestAge < q.age := by
  induction l with
  | nil => intro i oldestAge index; exact Or.inl rfl
  | cons p l ih =>
      intro i oldestAge index
      rw [oldestLoop]
      split
      · rename_i hp
        rcases ih (i + 1) p.age i with h0 | ⟨j, q, h0, hq, hage⟩
        · exact Or.inr ⟨0, p, h0, rfl, hp⟩
        · exact Or.inr ⟨j + 1, q, by omega, hq, by omega⟩
      · rcases ih (i + 1) oldestAge index with h0 | ⟨j, q, h0, hq, hage⟩
        · exact Or.inl h0
        · exact Or.inr ⟨j + 1, q, by omega, hq, hage⟩

/-- The first read is not older than the one that is found. -/
theorem getOldestOp_older {p : MemoryOperation} {rest : List MemoryOperation}
    (hm : m.memTracker = p :: rest) :
    ∃ q, m.memTracker[m.getOldestOp]? = some q ∧ p.age ≤ q.age := by
  rw [getOldestOp, hm, oldestLoop]
  split
  · rcases oldestLoop_older rest 1 p.age 0 with h0 | ⟨j, q, h0, hq, hage⟩
    · exact ⟨p, by rw [h0]; rfl, Nat.le_refl _⟩
    · exact ⟨q, by rw [h0, Nat.add_comm]; exact hq, by omega⟩
  · rcases oldestLoop_older rest 1 0 0 with h0 | ⟨j, q, h0, hq, hage⟩
    · exact ⟨p, by rw [h0]; rfl, Nat.le_refl _⟩
    · exact ⟨q, by rw [h0, Nat.add_comm]; exact hq, by omega⟩

theorem patience_le (m : Memory) : m.patience ≤ m.readLatency + 2 := by
  unfold patience
  split
  · exact Nat.zero_le _
  · exact Nat.sub_le _ _

/-- **While memory only waits, its patience runs out.** -/
theorem patience_updateReadAges (hne : m.memTracker ≠ []) (hw : m.readLatency < 2 ^ 32)
    (hyoung : ∀ p, m.updateReadAges.memTracker[m.updateReadAges.getOldestOp]? = some p →
      p.age < m.readLatency) : m.updateReadAges.patience < m.patience := by
  cases hm : m.memTracker with
  | nil => exact absurd hm hne
  | cons p rest =>
      obtain ⟨q, hq, hle⟩ : ∃ q, _ ∧ _ := getOldestOp_older (m := m.updateReadAges)
        (by rw [updateReadAges, hm]; rfl)
      have hage := hyoung q hq
      have hsucc : ((p.age + 1) % 2 ^ 32 + 1) % 2 ^ 32 = (p.age + 1) % 2 ^ 32 + 1 := by
        refine Nat.mod_eq_of_lt ?_
        have hle : (p.age + 1) % 2 ^ 32 ≤ q.age := hle
        omega
      have hold : m.patience = m.readLatency + 2 - (p.age + 1) % 2 ^ 32 := by rw [patience, hm]
      have hnew : m.updateReadAges.patience
          = m.readLatency + 2 - ((p.age + 1) % 2 ^ 32 + 1) % 2 ^ 32 := by
        rw [patience, updateReadAges, hm]
        rfl
      have hle : (p.age + 1) % 2 ^ 32 ≤ q.age := hle
      rw [hold, hnew, hsucc]
      omega

end Memory

end CoherenceSim
