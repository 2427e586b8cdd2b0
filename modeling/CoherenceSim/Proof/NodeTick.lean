import CoherenceSim.Model.System
import CoherenceSim.Proof.ControllerSend

/-!
# What processors and memory do in a tick

A processor ticks its controller and may then hand it the next instruction; the handshake
between the two is one sentence of the processor's invariant. Memory ages its reads, and
turns one read at a time into a burst and then into a queued answer.
-/

namespace CoherenceSim

/-! ## Processors -/

namespace Controller

/-- What `tick` guarantees until the bus comes round: `bursting` is up to date, and no
answer has been left lying. -/
structure Fresh (c : Controller) : Prop where
  settled : c.Settled
  waiting : c.Missing → c.awaitingDataLocal = true

variable {c c' : Controller}

/-- A miss either goes on waiting or is over. -/
theorem Transitioned.waiting (hs : Transitioned c c') : c'.Missing → c'.awaitingDataLocal = true := by
  intro hm
  cases hs with
  | rest hs _ => exact absurd hm (not_missing_of hs)
  | retire _ => exact absurd hm (not_missing_of (s := .idleState) rfl)
  | wait _ hw => exact hw
  | invalidateQueued _ => exact absurd hm (not_missing_of (s := .invalidateWait) rfl)
  | loadHit => exact absurd hm (not_missing_of (s := .updateCacheLdState) rfl)
  | loadMiss => rfl
  | storeHit => exact absurd hm (not_missing_of (s := .updateCacheStState) rfl)
  | storeShared => exact absurd hm (not_missing_of (s := .issueInvalidateState) rfl)
  | storeMiss => rfl
  | loadDropped => exact absurd hm (not_missing_of (s := .updateCacheLdState) rfl)
  | loadFilled => exact absurd hm (not_missing_of (s := .updateCacheLdState) rfl)
  | storeDropped => exact absurd hm (not_missing_of (s := .updateCacheStState) rfl)
  | storeFilled => exact absurd hm (not_missing_of (s := .updateCacheStState) rfl)

/-- No step of the controller makes an instruction pending. -/
theorem Transitioned.pending (hs : Transitioned c c') (hp : c.pendingInstructionFlag = false) :
    c'.pendingInstructionFlag = false := by
  cases hs with
  | rest => rfl
  | retire => rfl
  | wait => exact hp
  | invalidateQueued => exact hp
  | loadHit => exact hp
  | loadMiss => exact hp
  | storeHit => exact hp
  | storeShared => exact hp
  | storeMiss => exact hp
  | loadDropped => exact hp
  | loadFilled => exact hp
  | storeDropped => exact hp
  | storeFilled => exact hp

/-- The controller with an instruction handed to it. -/
def withInstruction (c : Controller) (i : Instruction) : Controller :=
  { c with currentInstruction := some i, pendingInstructionFlag := true }

/-- An instruction is handed to a controller that has none. -/
theorem Inv.withInstruction (h : c.Inv) (hp : c.pendingInstructionFlag = false) {i : Instruction}
    (hi : i.opcode = .load ∨ i.opcode = .store) : (c.withInstruction i).Inv := by
  have hs : c.currentState = .idleState := by
    by_contra hne
    rw [h.busy hne] at hp; cases hp
  have hc := h.idle hs
  have hr := h.rest (not_missing_of hs)
  exact
    { cache := h.cache
      allows := h.allows
      urgent := h.urgent
      busy := fun _ => rfl
      serves := fun _ => ⟨i, rfl, by
        show c.currentState.Serves i.opcode
        rw [hs]; exact hi⟩
      dispatched := fun _ => rfl
      idle := fun _ => ⟨hc.noData, hc.queuedBusRead, hc.sawBusRead, hc.sawBusReadX,
        hc.sawInvalidate⟩
      rest := fun _ => ⟨hr.awaitingDataLocal, hr.awaitingBusRead, hr.busReqQueue⟩
      miss := fun hm => absurd hm (not_missing_of hs)
      mi := h.mi }

/-- What a processor does with its controller: nothing, or it hands over an instruction. -/
def Handed (c c' : Controller) : Prop :=
  c' = c ∨ ∃ i : Instruction, c.pendingInstructionFlag = false
    ∧ (i.opcode = .load ∨ i.opcode = .store) ∧ c' = c.withInstruction i

theorem Transitioned.sameNode (hs : Transitioned c c') : SameNode c c' := by
  cases hs <;> exact ⟨rfl, rfl, rfl, rfl⟩

theorem Transitioned.currentInstruction (hs : Transitioned c c') :
    c'.currentInstruction = c.currentInstruction := by
  cases hs <;> rfl

theorem Transitioned.burstCounter (hs : Transitioned c c') : c'.burstCounter = c.burstCounter := by
  cases hs <;> rfl

/-- A controller over one cycle of its processor. -/
inductive Ticked (c : Controller) : Controller → Prop
  | plain {c₁ : Controller} : Transitioned c c₁ → c.tick = .ok c₁.settle → Ticked c c₁.settle
  | handed {c₁ : Controller} {i : Instruction} : Transitioned c c₁ → c.tick = .ok c₁.settle →
      c₁.pendingInstructionFlag = false → i.opcode = .load ∨ i.opcode = .store →
      Ticked c (c₁.settle.withInstruction i)

/-- **Preserved by a cycle.** -/
theorem Ticked.inv (hs : Ticked c c') (h : c.Inv) : c'.Inv := by
  cases hs with
  | plain hs => exact (hs.inv h).settle
  | handed hs _ hp hi => exact (hs.inv h).settle.withInstruction hp hi

/-- What a cycle queues with maximum priority. -/
theorem Ticked.queue (hs : Ticked c c') : c'.maxPriorityQueue = c.maxPriorityQueue
    ∨ ∃ code adx, (code = .invalidate ∨ code = .busWrite)
      ∧ c'.maxPriorityQueue = c.makeRequest code adx :: c.maxPriorityQueue := by
  cases hs with
  | plain hs => exact hs.queue
  | handed hs => exact hs.queue

theorem Ticked.fresh (hs : Ticked c c') : c'.Fresh := by
  cases hs with
  | plain hs => exact ⟨rfl, hs.waiting⟩
  | handed hs => exact ⟨rfl, hs.waiting⟩

theorem Ticked.sameNode (hs : Ticked c c') : SameNode c c' := by
  cases hs with
  | plain hs => exact ⟨hs.sameNode.1, hs.sameNode.2, hs.sameNode.3, hs.sameNode.4⟩
  | handed hs => exact ⟨hs.sameNode.1, hs.sameNode.2, hs.sameNode.3, hs.sameNode.4⟩

theorem Ticked.burstCounter (hs : Ticked c c') : c'.burstCounter = c.burstCounter := by
  cases hs with
  | plain hs => exact hs.burstCounter
  | handed hs => exact hs.burstCounter

end Controller

namespace Processor

/-- The invariant of a processor that is only given instructions that satisfy `Q`: when it
is ready for the next instruction, its controller has none. -/
structure Inv (Q : Instruction → Prop) (p : Processor) : Prop where
  controller : p.cacheController.Inv
  idle : p.currentState = .idleState → p.cacheController.pendingInstructionFlag = false
  memoryOps : ∀ i ∈ p.instrQueue, i.opcode = .load ∨ i.opcode = .store
  queue : ∀ i ∈ p.instrQueue, Q i
  current : ∀ i, p.cacheController.currentInstruction = some i → Q i

variable {Q : Instruction → Prop} {p : Processor}

theorem isMemoryOp_iff {i : Instruction} :
    isMemoryOp i = true ↔ i.opcode = .load ∨ i.opcode = .store := by
  simp [isMemoryOp]

/-! ### Accepting an instruction -/

theorem processInstruction_of_memoryOp {i : Instruction} (hop : isMemoryOp i = true) :
    p.processInstruction i = p.insertInstruction i := if_pos hop

theorem processInstruction_of_not {i : Instruction} (hop : isMemoryOp i = false) :
    p.processInstruction i = p := if_neg (by simp [hop])

theorem processInstruction_cacheController (p : Processor) (i : Instruction) :
    (p.processInstruction i).cacheController = p.cacheController := by
  cases hop : isMemoryOp i with
  | true => rw [processInstruction_of_memoryOp hop]; rfl
  | false => rw [processInstruction_of_not hop]

/-- Only loads and stores get into the queue. -/
theorem Inv.processInstruction (h : p.Inv Q) {i : Instruction} (hi : Q i) :
    (p.processInstruction i).Inv Q := by
  cases hop : isMemoryOp i with
  | false =>
      rw [processInstruction_of_not hop]
      exact h
  | true =>
      rw [processInstruction_of_memoryOp hop]
      refine ⟨h.controller, h.idle, fun j hj => ?_, fun j hj => ?_, h.current⟩
      · rcases List.mem_append.mp hj with hj | hj
        · exact h.memoryOps j hj
        · rw [List.mem_singleton.mp hj]
          exact isMemoryOp_iff.mp hop
      · rcases List.mem_append.mp hj with hj | hj
        · exact h.queue j hj
        · rw [List.mem_singleton.mp hj]
          exact hi

/-! ### Transitions -/

/-- Handing over the next instruction. -/
theorem Inv.checkOpType (h : p.Inv Q) (hp : p.cacheController.pendingInstructionFlag = false)
    (hq : p.hasPendingInstructions = true) :
    ∃ i p', checkOpTypeAction { p with currentState := .checkOpTypeState } = .ok p' ∧ p'.Inv Q
      ∧ (i.opcode = .load ∨ i.opcode = .store)
      ∧ p'.cacheController = p.cacheController.withInstruction i := by
  cases hl : p.instrQueue with
  | nil => simp [hasPendingInstructions, hl] at hq
  | cons i rest =>
      have hi := h.memoryOps i (by rw [hl]; exact List.mem_cons_self)
      refine ⟨i, { p with
        cacheController := p.cacheController.withInstruction i
        instrQueue := rest
        processingInst := some i
        numberMemoryOperations := p.numberMemoryOperations + 1
        currentState := .checkOpTypeState }, ?_, ⟨h.controller.withInstruction hp hi,
        fun h0 => (by cases h0), fun j hj => ?_, fun j hj => ?_, fun j hj => ?_⟩, hi, rfl⟩
      · simp [checkOpTypeAction, getNextInstruction, isMemoryOp_iff.mpr hi,
          Controller.handleMemoryAccess, Controller.hasPendingInstruction, hp,
          Controller.withInstruction]
      · exact h.memoryOps j (by rw [hl]; exact List.mem_cons_of_mem _ hj)
      · exact h.queue j (by rw [hl]; exact List.mem_cons_of_mem _ hj)
      · cases hj
        exact h.queue i (by rw [hl]; exact List.mem_cons_self)

/-- **No fault in `transitionState`.** -/
theorem Inv.transitionState (h : p.Inv Q) : ∃ p', p.transitionState = .ok p' ∧ p'.Inv Q
    ∧ p.cacheController.Handed p'.cacheController := by
  have handed (hnext : p.getNextState = .ok .checkOpTypeState)
      (hp : p.cacheController.pendingInstructionFlag = false)
      (hq : p.hasPendingInstructions = true) : ∃ p', p.transitionState = .ok p' ∧ p'.Inv Q
        ∧ p.cacheController.Handed p'.cacheController := by
    obtain ⟨i, p', hact, hinv, hi, hc⟩ := h.checkOpType hp hq
    refine ⟨p', ?_, hinv, Or.inr ⟨i, hp, hi, hc⟩⟩
    rw [Processor.transitionState, hnext]
    exact hact
  have idle (hnext : p.getNextState = .ok .idleState)
      (hp : p.cacheController.pendingInstructionFlag = false) : ∃ p', p.transitionState = .ok p'
        ∧ p'.Inv Q ∧ p.cacheController.Handed p'.cacheController :=
    ⟨idleAction { p with currentState := .idleState }, by rw [Processor.transitionState, hnext]; rfl,
      ⟨h.controller, fun _ => hp, h.memoryOps, h.queue, h.current⟩, Or.inl rfl⟩
  have wait (hnext : p.getNextState = .ok .memoryReturnWaitState) : ∃ p', p.transitionState = .ok p'
      ∧ p'.Inv Q ∧ p.cacheController.Handed p'.cacheController :=
    ⟨memoryReturnWaitAction { p with currentState := .memoryReturnWaitState },
      by rw [Processor.transitionState, hnext]; rfl,
      ⟨h.controller, fun h0 => (by cases h0), h.memoryOps, h.queue, h.current⟩, Or.inl rfl⟩
  cases hs : p.currentState with
  | idleState =>
      have hp := h.idle hs
      cases hq : p.hasPendingInstructions with
      | true => exact handed (by simp [getNextState, hs, idleTransition, hq]) hp hq
      | false => exact idle (by simp [getNextState, hs, idleTransition, hq]) hp
  | checkOpTypeState =>
      cases hp : p.cacheController.pendingInstructionFlag with
      | true =>
          exact wait (by simp [getNextState, hs, checkOpTypeTransition,
            Controller.hasPendingInstruction, hp])
      | false =>
          cases hq : p.hasPendingInstructions with
          | true =>
              have hop : p.nextInstIsMemoryOp = .ok true := by
                cases hl : p.instrQueue with
                | nil => simp [hasPendingInstructions, hl] at hq
                | cons i rest =>
                    simp [nextInstIsMemoryOp, hl, isMemoryOp_iff.mpr
                      (h.memoryOps i (by rw [hl]; exact List.mem_cons_self))]
              exact handed (by simp [getNextState, hs, checkOpTypeTransition,
                Controller.hasPendingInstruction, hp, hq, hop]) hp hq
          | false =>
              exact idle (by simp [getNextState, hs, checkOpTypeTransition,
                Controller.hasPendingInstruction, hp, hq]) hp
  | memoryReturnWaitState =>
      cases hp : p.cacheController.pendingInstructionFlag with
      | true =>
          exact wait (by simp [getNextState, hs, memoryReturnWaitTransition,
            Controller.hasPendingInstruction, hp])
      | false =>
          exact idle (by simp [getNextState, hs, memoryReturnWaitTransition,
            Controller.hasPendingInstruction, hp]) hp

/-- **No fault in a processor's `Tick`**, which is a cycle of its controller. -/
theorem Inv.tick (h : p.Inv Q) : ∃ p', p.tick = .ok p' ∧ p'.Inv Q
    ∧ Controller.Ticked p.cacheController p'.cacheController := by
  obtain ⟨c₁, hs, hc₁⟩ := h.controller.tick
  have h₁ : Inv Q { p with cacheController := c₁.settle } :=
    ⟨(hs.inv h.controller).settle, fun h0 => hs.pending (h.idle h0), h.memoryOps, h.queue,
      fun i hi => h.current i (hs.currentInstruction ▸ hi)⟩
  obtain ⟨p', hp', hinv, hc | ⟨i, hp, hi, hc⟩⟩ := h₁.transitionState
  · exact ⟨p', by simp [Processor.tick, hc₁, hp'], hinv, by rw [hc]; exact .plain hs hc₁⟩
  · exact ⟨p', by simp [Processor.tick, hc₁, hp'], hinv, by rw [hc]; exact .handed hs hc₁ hp hi⟩

end Processor

end CoherenceSim
