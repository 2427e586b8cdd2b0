import CoherenceSim.Proof.Completion
import CoherenceSim.Proof.ProcessorTurn

/-!
# Where the cycles go

In every cycle a processor does one of three things: it hands an instruction over, it waits for
the controller, or it rests. The first two are counted, and `totalWaitCycles` is reported as time
lost to memory. An instruction is never handed over in the cycle after another one: the controller
only looks the other one up then, and what it has looked up stays pending for a cycle more. So
every instruction costs a cycle of waiting and a cycle of rest, hit or miss.
-/

namespace CoherenceSim

open BusNode

/-- The cycles so far at whose end the processor at this address was idle. -/
def idleCycles (a : Nat) : List TickRecord → Nat
  | [] => 0
  | tick :: older =>
      idleCycles a older + (match tick.after.interconnect.nodeAt a with
        | some (.processor p) => if p.currentState = .idleState then 1 else 0
        | _ => 0)

namespace ProcessorState

/-- One instruction was handed over that was not waited for yet. -/
def unwaited : ProcessorState → Nat
  | .checkOpTypeState => 1
  | .memoryReturnWaitState => 0
  | .idleState => 0

/-- One instruction was handed over that there was no rest after yet. -/
def unrested : ProcessorState → Nat
  | .checkOpTypeState => 1
  | .memoryReturnWaitState => 1
  | .idleState => 0

end ProcessorState

namespace Controller

variable {c c' : Controller}

/-- What was looked up stays pending for a cycle more. -/
theorem Transitioned.pending_of_waiting (hs : Transitioned c c') (hw : c.waiting = 1) :
    c'.pendingInstructionFlag = true := by
  have hpending : c.pendingInstructionFlag = true ∧ c.currentState = .idleState := by
    by_contra hne
    rw [Controller.waiting, if_neg hne] at hw
    cases hw
  obtain ⟨hp, hidle⟩ := hpending
  cases hs with
  | rest _ h0 => rw [hp] at h0; cases h0
  | retire h0 => simp [hidle] at h0
  | wait | invalidateQueued | loadHit | loadMiss | storeHit | storeShared | storeMiss
  | loadDropped | loadFilled | storeDropped | storeFilled => exact hp

end Controller

theorem Passed.waiting {ps : Params} {a : Nat} {req : Option BusRequest} {c c' : Controller}
    (hp : Passed ps a c req c') : c'.waiting = c.waiting := by
  obtain ⟨hs, hflag, _⟩ := hp.sameState
  rw [Controller.waiting, hs, hflag, ← Controller.waiting]

namespace Processor

variable {Q : Instruction → Prop} {p p' : Processor}

/-- What was handed over last was not looked up yet. -/
def Fetching (p : Processor) : Prop :=
  p.currentState = .checkOpTypeState → p.cacheController.waiting = 1

/-- What a processor does in one cycle: of the nine ways from state to state, these five. -/
inductive Spends (p p' : Processor) : Prop
  | handsOver : p.currentState = .idleState → p'.currentState = .checkOpTypeState →
      p'.cacheController.waiting = 1 → p'.numberMemoryOperations = p.numberMemoryOperations + 1 →
      p'.totalWaitCycles = p.totalWaitCycles → Spends p p'
  | waits : p.currentState ≠ .idleState → p'.currentState = .memoryReturnWaitState →
      p'.numberMemoryOperations = p.numberMemoryOperations →
      p'.totalWaitCycles = p.totalWaitCycles + 1 → Spends p p'
  | rests : p.currentState ≠ .checkOpTypeState → p'.currentState = .idleState →
      p'.numberMemoryOperations = p.numberMemoryOperations →
      p'.totalWaitCycles = p.totalWaitCycles → Spends p p'

theorem getNextState_of_fetching (hs : p.currentState = .checkOpTypeState)
    (hp : p.cacheController.pendingInstructionFlag = true) :
    p.getNextState = .ok .memoryReturnWaitState := by
  simp [getNextState, hs, checkOpTypeTransition, Controller.hasPendingInstruction, hp]

theorem getNextState_of_idle (hs : p.currentState = .idleState) {next : ProcessorState}
    (hnext : p.getNextState = .ok next) : next ≠ .memoryReturnWaitState := by
  simp only [getNextState, hs, idleTransition, Outcome.pure_eq_ok] at hnext
  cases hnext
  split <;> simp

theorem getNextState_of_waiting (hs : p.currentState = .memoryReturnWaitState)
    {next : ProcessorState} (hnext : p.getNextState = .ok next) : next ≠ .checkOpTypeState := by
  simp only [getNextState, hs, memoryReturnWaitTransition, Outcome.pure_eq_ok] at hnext
  cases hnext
  split <;> simp

/-- **Every tick is a cycle of one kind.** -/
theorem Inv.spends (h : p.Inv Q) (hfetch : p.Fetching) (htick : p.tick = .ok p') :
    p.Spends p' := by
  obtain ⟨c₁, -, hs, hturn⟩ := h.turn htick
  -- after an instruction was handed over the processor can only wait
  have hfetched (hstate : p.currentState = .checkOpTypeState) :
      getNextState { p with cacheController := c₁.settle } = .ok .memoryReturnWaitState :=
    getNextState_of_fetching (p := { p with cacheController := c₁.settle }) hstate
      (hs.pending_of_waiting (hfetch hstate))
  generalize p.handsOver = o at hturn
  cases hturn with
  | rests hnext =>
      refine .rests (fun hstate => ?_) rfl rfl rfl
      rw [hfetched hstate] at hnext
      cases hnext
  | waits hnext =>
      exact .waits (fun hstate => getNextState_of_idle (p := { p with cacheController := c₁.settle })
        hstate hnext rfl) rfl rfl rfl
  | handsOver hnext _ _ hrest =>
      refine .handsOver ?_ rfl (if_pos ⟨rfl, hrest⟩) rfl rfl
      cases hstate : p.currentState with
      | idleState => rfl
      | checkOpTypeState =>
          rw [hfetched hstate] at hnext
          cases hnext
      | memoryReturnWaitState =>
          exact absurd rfl (getNextState_of_waiting
            (p := { p with cacheController := c₁.settle }) hstate hnext)

end Processor

/-! ## Runs -/

/-- The counters of a processor after this many cycles, at the end of so many of which it was
idle. -/
structure Processor.Paced (cycles idle : Nat) (p : Processor) : Prop where
  cycles : cycles = p.numberMemoryOperations + p.totalWaitCycles + idle
  waited : p.numberMemoryOperations ≤ p.totalWaitCycles + p.currentState.unwaited
  rested : p.numberMemoryOperations ≤ idle + p.currentState.unrested
  fetching : p.Fetching

/-- Every processor keeps pace. -/
def AllPaced (h : List TickRecord) (ic : Interconnect Node) : Prop :=
  ∀ a p, ic.nodeAt a = some (.processor p) → p.Paced h.length (idleCycles a h)

variable {ps : Params} {Q : Instruction → Prop} {h : List TickRecord} {s mid s' : System}
  {req : Option BusRequest}

/-- Preserved by a tick of the processor. -/
theorem Processor.Spends.paced {p p' : Processor} {n idle : Nat} (hs : p.Spends p')
    (hp : p.Paced n idle) :
    p'.Paced (n + 1) (idle + if p'.currentState = .idleState then 1 else 0) := by
  obtain ⟨hcycles, hwaited, hrested, _⟩ := hp
  have hbefore : p.currentState.unwaited ≤ p.currentState.unrested
      ∧ p.currentState.unrested ≤ 1 := by
    cases p.currentState <;> simp [ProcessorState.unwaited, ProcessorState.unrested]
  cases hs with
  | handsOver hs hs' hw hops hwaits =>
      rw [hs] at hwaited hrested
      simp only [ProcessorState.unwaited, ProcessorState.unrested] at hwaited hrested
      refine ⟨?_, ?_, ?_, fun _ => hw⟩ <;>
        simp only [hs', hops, hwaits, ProcessorState.unwaited, ProcessorState.unrested,
          reduceCtorEq, if_false] <;> omega
  | waits hs hs' hops hwaits =>
      refine ⟨?_, ?_, ?_, fun h0 => by rw [hs'] at h0; cases h0⟩ <;>
        simp only [hs', hops, hwaits, ProcessorState.unwaited, ProcessorState.unrested,
          reduceCtorEq, if_false] <;> omega
  | rests hs hs' hops hwaits =>
      have hnone : p.currentState.unwaited = 0 := by
        cases hstate : p.currentState with
        | checkOpTypeState => exact absurd hstate hs
        | idleState | memoryReturnWaitState => rfl
      refine ⟨?_, ?_, ?_, fun h0 => by rw [hs'] at h0; cases h0⟩ <;>
        simp only [hs', hops, hwaits, ProcessorState.unwaited, ProcessorState.unrested, if_true]
          <;> omega

/-- **Preserved by a cycle.** -/
theorem allPaced_cycle (hok : s.Ok ps Q) (hok' : s'.Ok ps Q) (hcycle : Cycle ps Q s mid req s')
    (ih : AllPaced h s.interconnect) : AllPaced (⟨s, req, s'⟩ :: h) s'.interconnect := by
  intro a p₂ hp₂
  have hr := (hok'.valid.controller (controllerAt_of_nodeAt hp₂)).range
  obtain ⟨p, p₁, c₂, hc⟩ := hcycle.processor hok hok' hr
  have hspends := hc.inv.spends (ih a p hc.before).fetching hc.tick
  obtain ⟨hcycles, hwaited, hrested, hfetching⟩ := hspends.paced (ih a p hc.before)
  have hidle : idleCycles a (⟨s, req, s'⟩ :: h)
      = idleCycles a h + if p₁.currentState = .idleState then 1 else 0 := by
    simp only [idleCycles, hc.after]
  rw [hc.after] at hp₂; cases hp₂
  rw [hidle]
  exact ⟨hcycles, hwaited, hrested, fun h0 => hc.passed.waiting.trans (hfetching h0)⟩

/-- **Preserved by an insertion.** -/
theorem allPaced_insertInstruction (hok : s.Ok ps Q) {i : Instruction} {n : Nat}
    (heq : s.insertInstruction i n = .ok s') (ih : AllPaced h s.interconnect) :
    AllPaced h s'.interconnect := by
  obtain ⟨p₀, hp₀, rfl⟩ := hok.insertInstruction_eq heq
  intro a p hp
  simp only [System.putNode, Interconnect.nodeAt_putNode] at hp
  split at hp
  · rename_i ha
    cases hp
    subst ha
    have hold := ih _ p₀ hp₀
    cases hop : Processor.isMemoryOp i with
    | true =>
        rw [Processor.processInstruction_of_memoryOp hop]
        exact ⟨hold.cycles, hold.waited, hold.rested, hold.fetching⟩
    | false =>
        rw [Processor.processInstruction_of_not hop]
        exact hold
  · exact ih a p hp

theorem System.run_allPaced {events : List Event} (hrun : System.run ps events = .ok (h, s)) :
    AllPaced h s.interconnect := by
  refine (System.run_events_induct (Q := fun _ => True)
    (P := fun _ h s => AllPaced h s.interconnect) ?_ ?_ ?_ (fun e _ => ?_) hrun).2
  · exact fun _ _ _ _ _ _ hok _ _ heq ih => allPaced_insertInstruction hok heq ih
  · exact fun _ _ _ _ _ _ hok hok' hcycle ih => allPaced_cycle hok hok' hcycle ih
  · intro s hs a p hp
    have hnew := hs.processor a p hp
    cases hnew
    exact ⟨rfl, Nat.le_refl _, Nat.le_refl _, fun h0 => by cases h0⟩
  · cases e <;> trivial

/-- **Every cycle is accounted for.** The cycles of a run are, for each processor, the memory
operations and wait cycles it reports and the cycles it was idle. Every operation, hit or miss,
was waited for in a cycle of its own and followed by an idle one, unless it is the last, so that
no processor completes more than one operation in three cycles. -/
theorem cycles_are_accounted_for (ps : Params) (events : List Event) (h : List TickRecord)
    (s : System) (hrun : System.run ps events = .ok (h, s)) :
    ∀ a p, s.interconnect.nodeAt a = some (.processor p) →
      h.length = p.numberMemoryOperations + p.totalWaitCycles + idleCycles a h
      ∧ p.numberMemoryOperations ≤ p.totalWaitCycles + 1
      ∧ p.numberMemoryOperations ≤ idleCycles a h + 1
      ∧ 3 * p.numberMemoryOperations ≤ h.length + 2 := by
  intro a p hp
  obtain ⟨hcycles, hwaited, hrested, _⟩ := System.run_allPaced hrun a p hp
  have hbounds : p.currentState.unwaited ≤ 1 ∧ p.currentState.unrested ≤ 1 := by
    cases p.currentState <;> simp [ProcessorState.unwaited, ProcessorState.unrested]
  omega

/-- One processor and two loads of a line, the second of which hits. -/
theorem cycles_are_accounted_for_two_loads : ∃ h s, System.run ⟨1, .mesi, 1, 2⟩
    ([.insert .load 64 0, .insert .load 64 0] ++ List.replicate 20 .tick) = .ok (h, s) ∧ ∀ a p,
      s.interconnect.nodeAt a = some (.processor p) →
        3 * p.numberMemoryOperations ≤ h.length + 2 := by
  obtain ⟨h, s, hrun, -⟩ := System.exists_run ⟨1, .mesi, 1, 2⟩
    ([.insert .load 64 0, .insert .load 64 0] ++ List.replicate 20 .tick) (fun _ _ => true)
    (by decide +kernel)
  exact ⟨h, s, hrun, fun a p hp => (cycles_are_accounted_for _ _ h s hrun a p hp).2.2.2⟩

end CoherenceSim
