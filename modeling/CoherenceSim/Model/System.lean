import CoherenceSim.Model.Processor
import CoherenceSim.Model.Memory
import CoherenceSim.Model.Interconnect

/-!
# The system

`System.h` and `System.cpp`: processors at the bus addresses `1 … n` and the memory at
`n + 1`. A pointer to a component is its bus address, and the component itself is kept
by the interconnect.

`Run` is a sequence of `insertInstruction` and `Tick` calls on a fresh system, with a
record of every tick so far.
-/

namespace CoherenceSim

/-- The two classes that derive from `BusNode`. -/
inductive Node
  | processor (p : Processor)
  | memory (m : Memory)
  deriving Repr, DecidableEq

namespace Node

/-- Call a method of the processor's controller. -/
def onController (p : Processor) (f : Controller → Controller) : Node :=
  .processor { p with cacheController := f p.cacheController }

instance : BusNode Node where
  acceptBusTransaction
    | .processor p, d => do
        pure (.processor { p with cacheController := ← p.cacheController.acceptBusTransaction d })
    | .memory m, d => pure (.memory (m.acceptBusTransaction d))
  initiateBusTransaction
    | .processor p => do
        let (r, c) ← p.cacheController.initiateBusTransaction
        pure (r, .processor { p with cacheController := c })
    | .memory m => do
        let (r, m) ← m.initiateBusTransaction
        pure (r, .memory m)
  requestsTransaction
    | .processor p => p.cacheController.requestsTransaction
    | .memory m => m.requestsTransaction
  requestsLock
    | .processor p => p.cacheController.requestsLock
    | .memory m => m.requestsLock
  requestsMaxPriority
    | .processor p => p.cacheController.requestsMaxPriority
    | .memory _ => false
  hasLock
    | .processor p => p.cacheController.hasLock
    | .memory m => m.hasLock
  grantLock
    | .processor p => onController p Controller.grantLock
    | .memory m => .memory m.grantLock
  releaseLock
    | .processor p => onController p Controller.releaseLock
    | .memory m => .memory m.releaseLock
  setAddress
    | address, .processor p => onController p (Controller.setAddress address)
    | address, .memory m => .memory (m.setAddress address)

end Node

structure System where
  processors : List Nat
  memory : Nat
  interconnect : Interconnect Node
  tickNumber : Nat
  deriving Repr, DecidableEq

namespace System

/-- The constructor's loop: processor `i` goes to address `i + 1`. -/
def addProcessors (controllerType : ControllerType) (burstLength : Nat) :
    List Nat → Interconnect Node → Outcome (Interconnect Node)
  | [], ic => pure ic
  | i :: rest, ic => do
      let ic ← ic.addNode (.processor (Processor.new controllerType burstLength)) (i + 1)
      addProcessors controllerType burstLength rest ic

def new (numProcessors : Nat) (controllerType : ControllerType)
    (memoryLatency burstLength : Nat) : Outcome System := do
  let ic ← addProcessors controllerType burstLength (List.range numProcessors) Interconnect.new
  let ic ← ic.addNode (.memory (Memory.new memoryLatency burstLength)) (numProcessors + 1)
  pure {
    processors := (List.range numProcessors).map (· + 1)
    memory := numProcessors + 1
    interconnect := ic
    tickNumber := 0 }

def putNode (s : System) (address : Nat) (n : Node) : System :=
  { s with interconnect := s.interconnect.putNode address n }

/-- The processor behind a `Processor*`. -/
def getProcessor (s : System) (address : Nat) : Outcome Processor := do
  match ← s.interconnect.getNode address with
  | .processor p => pure p
  | .memory _ => throw .noSuchNode

/-- The memory behind the `Memory*`. -/
def getMemory (s : System) : Outcome Memory := do
  match ← s.interconnect.getNode s.memory with
  | .memory m => pure m
  | .processor _ => throw .noSuchNode

def insertInstruction (s : System) (i : Instruction) (processorNum : Nat) : Outcome System := do
  assertThat (processorNum < s.processors.length) .noSuchProcessor
  match s.processors[processorNum]? with
  | some address =>
      let p ← s.getProcessor address
      pure (s.putNode address (.processor (p.processInstruction i)))
  | none => throw .outOfRange

def hasPendingInstructions (s : System) (processorNum : Nat) : Outcome Bool := do
  assertThat (processorNum < s.processors.length) .noSuchProcessor
  match s.processors[processorNum]? with
  | some address => pure (← s.getProcessor address).hasPendingInstructions
  | none => throw .outOfRange

def tickProcessor (s : System) (address : Nat) : Outcome System := do
  let p ← s.getProcessor address
  pure (s.putNode address (.processor (← p.tick)))

def tickMemory (s : System) : Outcome System := do
  let m ← s.getMemory
  pure (s.putNode s.memory (.memory (← m.tick)))

def tickInterconnect (s : System) : Outcome (Option BusRequest × System) := do
  let (request, ic) ← s.interconnect.tick
  pure (request, { s with interconnect := ic })

/-- One cycle: the processors from the last to the first, the memory, the bus. The
request the bus transferred is returned as well. -/
def tick (s : System) : Outcome (Option BusRequest × System) := do
  let s := { s with tickNumber := s.tickNumber + 1 }
  let s ← s.processors.reverse.foldlM tickProcessor s
  let s ← s.tickMemory
  s.tickInterconnect

end System

/-- One `System::Tick`: the states around it and the request that was on the bus. -/
structure TickRecord where
  before : System
  sent : Option BusRequest
  after : System

/-- The parameters of `System`'s constructor. -/
structure Params where
  numProcessors : Nat
  controllerType : ControllerType
  memoryLatency : Nat
  burstLength : Nat
  deriving Repr, DecidableEq

/-- `Run ps h s`: some sequence of calls on a fresh system ends in `s`, and its ticks are
the records of `h`, the latest first. -/
inductive Run (ps : Params) : List TickRecord → System → Prop
  | new {s : System} :
      System.new ps.numProcessors ps.controllerType ps.memoryLatency ps.burstLength = .ok s →
      Run ps [] s
  | insertInstruction {h : List TickRecord} {s s' : System} (i : Instruction)
      (processorNum : Nat) :
      Run ps h s → s.insertInstruction i processorNum = .ok s' → Run ps h s'
  | tick {h : List TickRecord} {s s' : System} {request : Option BusRequest} :
      Run ps h s → s.tick = .ok (request, s') → Run ps (⟨s, request, s'⟩ :: h) s'

/-- One call on a system. -/
inductive Event
  | insertInstruction (i : Instruction) (processorNum : Nat)
  | tick
  deriving Repr, DecidableEq

/-- Perform a sequence of calls. -/
def System.exec : List Event → List TickRecord × System → Outcome (List TickRecord × System)
  | [], hs => pure hs
  | .insertInstruction i processorNum :: rest, (h, s) => do
      exec rest (h, ← s.insertInstruction i processorNum)
  | .tick :: rest, (h, s) => do
      let (request, s') ← s.tick
      exec rest (⟨s, request, s'⟩ :: h, s')

end CoherenceSim
