import CoherenceSim.Proof.SystemTick

/-!
# What a processor does with its turn

In its `Tick` a processor ticks its controller and then does one of three things: it hands the next
instruction over, it counts a cycle of waiting, or it is idle. `Turn` says which, and all that it
changes. What is handed over is read off the controller, before and after, and not off the queue
that it comes from: that the two agree is what `Inv.turn` is about.
-/

namespace CoherenceSim

namespace Processor

/-- The instruction that `handleMemoryAccess` is called with in the `Tick` of this processor: its
controller, which has none pending after a `Tick` of its own, has this one when the processor is
done. -/
def handsOver (p : Processor) : Option Instruction :=
  match p.cacheController.tick, p.tick with
  | .ok c, .ok p' =>
      if c.pendingInstructionFlag = false ∧ p'.cacheController.pendingInstructionFlag = true then
        p'.cacheController.currentInstruction
      else none
  | _, _ => none

/-- What becomes of a processor whose controller has become `c`, with the instruction it hands
over. -/
inductive Turn (p : Processor) (c : Controller) : Option Instruction → Processor → Prop
  | rests : getNextState { p with cacheController := c } = .ok .idleState →
      Turn p c none { p with
        cacheController := c
        processingInst := none
        currentState := .idleState }
  | waits : getNextState { p with cacheController := c } = .ok .memoryReturnWaitState →
      Turn p c none { p with
        cacheController := c
        totalWaitCycles := p.totalWaitCycles + 1
        currentState := .memoryReturnWaitState }
  | handsOver {i : Instruction} {rest : List Instruction} :
      getNextState { p with cacheController := c } = .ok .checkOpTypeState →
      p.instrQueue = i :: rest → c.pendingInstructionFlag = false → c.currentState = .idleState →
      Turn p c (some i) { p with
        cacheController := c.withInstruction i
        instrQueue := rest
        processingInst := some i
        numberMemoryOperations := p.numberMemoryOperations + 1
        currentState := .checkOpTypeState }

variable {Q : Instruction → Prop} {p p' : Processor}

theorem handsOver_of_tick {c : Controller} (hc : p.cacheController.tick = .ok c)
    (htick : p.tick = .ok p') : p.handsOver
      = if c.pendingInstructionFlag = false ∧ p'.cacheController.pendingInstructionFlag = true then
          p'.cacheController.currentInstruction
        else none := by
  rw [handsOver, hc, htick]

/-- A controller that comes out as it went in was handed nothing. -/
theorem handsOver_eq_none (hc : p.cacheController.tick = .ok p'.cacheController)
    (htick : p.tick = .ok p') : p.handsOver = none := by
  rw [handsOver_of_tick hc htick]
  refine if_neg fun h => ?_
  rw [h.1] at h
  cases h.2

/-- A controller is handed what it has afterwards. -/
theorem handsOver_withInstruction {c : Controller} {i : Instruction}
    (hc : p.cacheController.tick = .ok c) (htick : p.tick = .ok p')
    (hpending : c.pendingInstructionFlag = false)
    (hp' : p'.cacheController = c.withInstruction i) : p.handsOver = some i := by
  rw [handsOver_of_tick hc htick, hp']
  exact if_pos ⟨hpending, rfl⟩

/-- **Every tick is a turn.** -/
theorem Inv.turn (h : p.Inv Q) (htick : p.tick = .ok p') :
    ∃ c₁, p.cacheController.transitionState = .ok c₁
      ∧ Controller.Transitioned p.cacheController c₁ ∧ p.Turn c₁.settle p.handsOver p' := by
  obtain ⟨c₁, hc₁, hs⟩ := h.controller.transitionState
  have hctick : p.cacheController.tick = .ok c₁.settle := by
    rw [Controller.tick, hc₁, Outcome.ok_bind, Outcome.pure_eq_ok,
      (hs.inv h.controller).updateBusBurstRequest]
  refine ⟨c₁, hc₁, hs, ?_⟩
  have hwhole := htick
  rw [Processor.tick, hctick, Outcome.ok_bind, Processor.transitionState] at htick
  obtain ⟨next, hnext, htick⟩ := Outcome.bind_eq_ok.mp htick
  cases next with
  | idleState =>
      cases htick
      rw [handsOver_eq_none hctick hwhole]
      exact .rests hnext
  | memoryReturnWaitState =>
      cases htick
      rw [handsOver_eq_none hctick hwhole]
      exact .waits hnext
  | checkOpTypeState =>
      cases hq : p.instrQueue with
      | nil => simp [callActionFunction, checkOpTypeAction, getNextInstruction, hq] at htick
      | cons i rest =>
          have hop : isMemoryOp i = true :=
            isMemoryOp_iff.mpr (h.memoryOps i (by rw [hq]; exact List.mem_cons_self))
          simp only [callActionFunction, checkOpTypeAction, getNextInstruction, hq,
            Outcome.pure_eq_ok, Outcome.ok_bind, hop, if_true] at htick
          obtain ⟨c₂, hc₂, htick⟩ := Outcome.bind_eq_ok.mp htick
          obtain ⟨_, hassert, hc₂⟩ := Outcome.bind_eq_ok.mp hc₂
          have hpending : c₁.settle.pendingInstructionFlag = false := by
            simpa [Controller.hasPendingInstruction] using assertThat_eq_ok.mp hassert
          -- a controller that has no instruction is idle
          have hidle : c₁.settle.currentState = .idleState := by
            by_contra hne
            have hbusy := (hs.inv h.controller).settle.busy hne
            rw [hpending] at hbusy; cases hbusy
          cases hc₂
          cases htick
          rw [handsOver_withInstruction hctick hwhole hpending rfl]
          exact .handsOver hnext hq hpending hidle

end Processor

/-! ## What a cycle does to a processor -/

/-- A node without its controller. -/
def Node.shell (c : Controller) : Node → Option Processor
  | .processor p => some { p with cacheController := c }
  | .memory _ => none

/-- The bus has nothing to do with a processor but for its controller. -/
theorem Interconnect.BusTick.shell {ic ic' : Interconnect Node} {req : Option BusRequest}
    (hb : BusTick ic req ic') (c : Controller) (a : Nat) :
    (ic'.nodeAt a).map (Node.shell c) = (ic.nodeAt a).map (Node.shell c) := by
  refine hb.map_eq (fun n => ?_) (fun n => ?_) (fun n r n' hn => ?_) (fun n r n' hn => ?_) a
  · cases n <;> rfl
  · cases n <;> rfl
  · cases n with
    | processor p =>
        obtain ⟨⟨_, _⟩, _, hn⟩ := Outcome.bind_eq_ok.mp hn
        cases hn; rfl
    | memory m =>
        obtain ⟨⟨_, _⟩, _, hn⟩ := Outcome.bind_eq_ok.mp hn
        cases hn; rfl
  · cases n with
    | processor p =>
        obtain ⟨_, _, hn⟩ := Outcome.bind_eq_ok.mp hn
        cases hn; rfl
    | memory m => cases hn; rfl

/-- A cycle, as the processor at `a` sees it: it ticks, and then its controller takes part in the
bus. -/
structure ProcessorCycle (ps : Params) (Q : Instruction → Prop) (a : Nat) (s mid : System)
    (req : Option BusRequest) (s' : System) (p p₁ : Processor) (c₂ : Controller) : Prop where
  before : s.interconnect.nodeAt a = some (.processor p)
  inv : p.Inv Q
  tick : p.tick = .ok p₁
  between : mid.interconnect.nodeAt a = some (.processor p₁)
  passed : Passed ps a p₁.cacheController req c₂
  after : s'.interconnect.nodeAt a = some (.processor { p₁ with cacheController := c₂ })

variable {ps : Params} {Q : Instruction → Prop} {s mid s' : System} {req : Option BusRequest}

theorem Cycle.processor (hcycle : Cycle ps Q s mid req s') (hok : s.Ok ps Q) (hok' : s'.Ok ps Q)
    {a : Nat} (ha : 1 ≤ a ∧ a ≤ ps.numProcessors) :
    ∃ p p₁ c₂, ProcessorCycle ps Q a s mid req s' p p₁ c₂ := by
  obtain ⟨p, hp, ok⟩ := hok.valid.processor ha.1 ha.2
  obtain ⟨p₁, htick, hp₁⟩ := hcycle.ticks.processorTick a p hp
  obtain ⟨p₂, hp₂, _⟩ := hok'.valid.processor ha.1 ha.2
  obtain ⟨c, hc, hpassed⟩ := hcycle.event.passed hcycle.valid hok'.valid (controllerAt_of_nodeAt hp₂)
  rw [controllerAt_of_nodeAt hp₁] at hc; cases hc
  have hshell := hcycle.bus.shell p₂.cacheController a
  rw [hp₁, hp₂] at hshell
  have hkept : p₂ = { p₁ with cacheController := p₂.cacheController } :=
    Option.some.inj (Option.some.inj hshell)
  exact ⟨p, p₁, p₂.cacheController, hp, ok.inv, htick, hp₁, hpassed, hkept ▸ hp₂⟩

end CoherenceSim
