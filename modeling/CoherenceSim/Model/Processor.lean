import CoherenceSim.Model.SharingController
import CoherenceSim.Model.MIController

/-!
# Processors

`Processor.h` and `Processor.cpp`, and the virtual calls through which a processor
reaches its controller. A processor passes the bus interface on to its controller,
lock included.
-/

namespace CoherenceSim

namespace Controller

/-- The virtual `transitionState`. Its recursion is two calls deep. -/
def transitionState (c : Controller) : Outcome Controller :=
  match c.controllerType with
  | .mi => MIController.transitionState 2 c
  | .msi => MSIController.transitionState 2 c
  | .mesi => MESIController.transitionState 2 c

/-- The virtual `acceptBusTransaction`. -/
def acceptBusTransaction (c : Controller) (d : BusRequest) : Outcome Controller :=
  match c.controllerType with
  | .mi => MIController.acceptBusTransaction c d
  | .msi => SharingController.acceptBusTransaction c d
  | .mesi => SharingController.acceptBusTransaction c d

def tick (c : Controller) : Outcome Controller := do
  pure (← c.transitionState).updateBusBurstRequest

end Controller

inductive ProcessorState
  | idleState
  | checkOpTypeState
  | memoryReturnWaitState
  deriving Repr, DecidableEq

structure Processor where
  cacheController : Controller
  instrQueue : List Instruction
  processingInst : Option Instruction
  numberMemoryOperations : Nat
  totalWaitCycles : Nat
  currentState : ProcessorState
  deriving Repr, DecidableEq

namespace Processor

def new (controllerType : ControllerType) (burstLen : Nat) : Processor where
  cacheController := Controller.new controllerType burstLen
  instrQueue := []
  processingInst := none
  numberMemoryOperations := 0
  totalWaitCycles := 0
  currentState := .idleState

def hasPendingInstructions (p : Processor) : Bool := 0 < p.instrQueue.length

def isMemoryOp (i : Instruction) : Bool := i.opcode = .load || i.opcode = .store

def nextInstIsMemoryOp (p : Processor) : Outcome Bool :=
  match p.instrQueue.head? with
  | some i => pure (isMemoryOp i)
  | none => throw .emptyQueue

def getNextInstruction (p : Processor) : Outcome (Instruction × Processor) :=
  match p.instrQueue with
  | i :: rest => pure (i, { p with instrQueue := rest })
  | [] => throw .emptyQueue

def insertInstruction (p : Processor) (i : Instruction) : Processor :=
  { p with instrQueue := p.instrQueue ++ [i] }

/-- An instruction that is not a memory operation is dropped. -/
def processInstruction (p : Processor) (i : Instruction) : Processor :=
  if isMemoryOp i then p.insertInstruction i else p

def idleAction (p : Processor) : Processor := { p with processingInst := none }

def checkOpTypeAction (p : Processor) : Outcome Processor := do
  let (i, p) ← p.getNextInstruction
  let p := { p with processingInst := some i }
  if isMemoryOp i then
    pure { p with
      cacheController := ← p.cacheController.handleMemoryAccess i
      numberMemoryOperations := p.numberMemoryOperations + 1 }
  else pure p

def memoryReturnWaitAction (p : Processor) : Processor :=
  { p with totalWaitCycles := p.totalWaitCycles + 1 }

def idleTransition (p : Processor) : ProcessorState :=
  if p.hasPendingInstructions then .checkOpTypeState else .idleState

def checkOpTypeTransition (p : Processor) : Outcome ProcessorState := do
  if p.cacheController.hasPendingInstruction then pure .memoryReturnWaitState
  else if p.hasPendingInstructions then
    if ← p.nextInstIsMemoryOp then pure .checkOpTypeState else pure .idleState
  else pure .idleState

def memoryReturnWaitTransition (p : Processor) : ProcessorState :=
  if p.cacheController.hasPendingInstruction then .memoryReturnWaitState else .idleState

def getNextState (p : Processor) : Outcome ProcessorState :=
  match p.currentState with
  | .idleState => pure p.idleTransition
  | .checkOpTypeState => p.checkOpTypeTransition
  | .memoryReturnWaitState => pure p.memoryReturnWaitTransition

def callActionFunction (p : Processor) : Outcome Processor :=
  match p.currentState with
  | .idleState => pure p.idleAction
  | .checkOpTypeState => p.checkOpTypeAction
  | .memoryReturnWaitState => pure p.memoryReturnWaitAction

def transitionState (p : Processor) : Outcome Processor := do
  let nextState ← p.getNextState
  callActionFunction { p with currentState := nextState }

def tick (p : Processor) : Outcome Processor := do
  let p := { p with cacheController := ← p.cacheController.tick }
  p.transitionState

end Processor

end CoherenceSim
