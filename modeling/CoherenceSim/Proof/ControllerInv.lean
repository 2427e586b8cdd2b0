import CoherenceSim.Model.Processor
import CoherenceSim.Proof.CacheMap

/-!
# The invariant of a controller

Between two calls a controller is in one of three situations. It is at rest, with no read
of its own anywhere; or it has a miss, whose read is still queued, or out on the bus, or
answered. `MissStage` says what the flags look like in each.

The maximum-priority queue is independent of that, but for one thing: once a read is out,
the queue has nothing to say about the same line except `SHAREME`, and no `INVALIDATE`
about any line. This holds because the queue is served before a read goes out.
-/

namespace CoherenceSim

namespace ControllerType

/-- The states that the lines of a controller can have. -/
def Allows : ControllerType → MESI → Prop
  | .mi, m => m = .modified
  | .msi, m => m = .modified ∨ m = .shared
  | .mesi, m => m ≠ .invalid

/-- The commands that a controller sends with maximum priority. -/
def Urgent : ControllerType → CommandCode → Prop
  | .mi, code => code = .busWrite
  | _, code => code = .busWrite ∨ code = .dataReturnProcessor ∨ code = .invalidate ∨ code = .shareMe

/-- The command that `IssueRead_Action` queues. -/
def loadCommand : ControllerType → CommandCode
  | .mi => .busReadX
  | _ => .busRead

theorem Allows.ne_invalid {t : ControllerType} {m : MESI} (h : t.Allows m) : m ≠ .invalid := by
  cases t with
  | mi => rw [h]; simp
  | msi => rcases h with rfl | rfl <;> simp
  | mesi => exact h

theorem allows_modified (t : ControllerType) : t.Allows .modified := by
  cases t <;> simp [Allows]

theorem allows_shared {t : ControllerType} (ht : t ≠ .mi) : t.Allows .shared := by
  cases t with
  | mi => exact absurd rfl ht
  | msi => exact Or.inr rfl
  | mesi => simp [Allows]

theorem Urgent.cases {t : ControllerType} {code : CommandCode} (h : t.Urgent code) :
    code = .busWrite ∨ t ≠ .mi
      ∧ (code = .dataReturnProcessor ∨ code = .invalidate ∨ code = .shareMe) := by
  cases t with
  | mi => exact Or.inl h
  | msi => exact h.imp id fun h => ⟨by simp, h⟩
  | mesi => exact h.imp id fun h => ⟨by simp, h⟩

theorem urgent_busWrite (t : ControllerType) : t.Urgent .busWrite := by
  cases t <;> simp [Urgent]

theorem urgent_of_ne_mi {t : ControllerType} (ht : t ≠ .mi) {code : CommandCode}
    (h : code = .dataReturnProcessor ∨ code = .invalidate ∨ code = .shareMe) : t.Urgent code := by
  cases t with
  | mi => exact absurd rfl ht
  | msi => exact Or.inr h
  | mesi => exact Or.inr h

end ControllerType

/-- The opcodes of the instructions that a state works on. No controller is left in a
`CHECK_CACHE` state. -/
def ControllerState.Serves : ControllerState → Opcode → Prop
  | .idleState, opcode => opcode = .load ∨ opcode = .store
  | .issueReadState, opcode | .updateCacheLdState, opcode => opcode = .load
  | .issueReadXState, opcode | .updateCacheStState, opcode => opcode = .store
  | .issueInvalidateState, opcode | .invalidateWait, opcode => opcode = .store
  | .checkCacheLdState, _ | .checkCacheStState, _ => False

namespace Controller

/-- The current instruction has this opcode and this line. -/
def Instructs (c : Controller) (opcode : Opcode) (adx : Nat) : Prop :=
  ∃ i, c.currentInstruction = some i ∧ i.opcode = opcode
    ∧ c.cache.getLineAlignedAddress i.address = adx

/-- The instruction of a miss waits for its line, or has just got it. -/
def Missing (c : Controller) : Prop :=
  c.currentState = .issueReadState ∨ c.currentState = .issueReadXState

instance (c : Controller) : Decidable c.Missing := by unfold Missing; infer_instance

/-- The command that fetches the line of a miss. -/
def missCommand (c : Controller) : CommandCode :=
  if c.currentState = .issueReadXState then .busReadX else c.controllerType.loadCommand

/-- The read that a miss queues. -/
def missRequest (c : Controller) : BusRequest where
  commandCode := c.missCommand
  targetAddress := BROADCAST_ADX
  sourceAddress := c.nodeAddress
  payload := c.awaitingDataLocalAddress

/-- Some data came for the read. -/
def GotData (c : Controller) : Prop :=
  c.gotDataReturnFromBusReadMemory = true ∨ c.gotDataReturnFromBusReadProcessor = true
    ∨ c.snoopedDataReturnFromWriteback = true

/-- The maximum-priority queue has nothing that would disturb the read that is out. -/
def Unburdened (c : Controller) : Prop :=
  ∀ r ∈ c.maxPriorityQueue, r.commandCode ≠ .invalidate
    ∧ (r.payload = c.awaitingDataLocalAddress → r.commandCode = .shareMe)

/-- How far a miss has got. -/
inductive MissStage (c : Controller) : Prop
  | queued : c.awaitingDataLocal = true → c.awaitingBusRead = false →
      c.busReqQueue = [c.missRequest] → ¬ c.GotData → MissStage c
  | out : c.awaitingDataLocal = true → c.awaitingBusRead = true → c.busReqQueue = [] →
      c.dispatchedBusRead.isSome → ¬ c.GotData → c.Unburdened → MissStage c
  | answered : c.awaitingDataLocal = false → c.awaitingBusRead = false → c.busReqQueue = [] →
      c.GotData → c.Unburdened → MissStage c

/-- A request of the maximum-priority queue of a controller of this type at this node. -/
structure UrgentRequest (t : ControllerType) (node : Nat) (r : BusRequest) : Prop where
  code : t.Urgent r.commandCode
  target : r.targetAddress = BROADCAST_ADX
  source : r.sourceAddress = node
  payload : Aligned r.payload

structure AtRest (c : Controller) : Prop where
  awaitingDataLocal : c.awaitingDataLocal = false
  awaitingBusRead : c.awaitingBusRead = false
  busReqQueue : c.busReqQueue = []

/-- What `Idle_Action` leaves. -/
structure Cleared (c : Controller) : Prop where
  noData : ¬ c.GotData
  queuedBusRead : c.queuedBusRead = false
  sawBusRead : c.sawBusReadToMyIncomingAddress = false
  sawBusReadX : c.sawBusReadXToMyIncomingAddress = false
  sawInvalidate : c.sawInvalidateToMyIncomingAddress = false

/-- A miss on the line of the current instruction. -/
structure MissOk (c : Controller) : Prop where
  line : ∃ opcode, c.Instructs opcode c.awaitingDataLocalAddress
  absent : c.cache.get c.awaitingDataLocalAddress = none
  queuedBusRead : c.queuedBusRead = true
  stage : c.MissStage

structure Inv (c : Controller) : Prop where
  cache : c.cache.Ok
  allows : ∀ k m, c.cache.stateAt k = some m → c.controllerType.Allows m
  urgent : ∀ r ∈ c.maxPriorityQueue, UrgentRequest c.controllerType c.nodeAddress r
  busy : c.currentState ≠ .idleState → c.pendingInstructionFlag = true
  serves : c.pendingInstructionFlag = true →
    ∃ i, c.currentInstruction = some i ∧ c.currentState.Serves i.opcode
  /-- A pointer that `awaitingDataRemote` follows. -/
  dispatched : c.dispatchedBusRead.isSome → c.currentInstruction.isSome
  idle : c.currentState = .idleState → c.Cleared
  rest : ¬ c.Missing → c.AtRest
  miss : c.Missing → c.MissOk
  /-- What MI has no use for it never sees. -/
  mi : c.controllerType = .mi → c.sawBusReadToMyIncomingAddress = false
    ∧ c.sawInvalidateToMyIncomingAddress = false ∧ c.currentState ≠ .issueInvalidateState
    ∧ c.currentState ≠ .invalidateWait

theorem Inv.not_checking {c : Controller} (h : c.Inv) :
    ¬ (c.currentState = .checkCacheLdState ∨ c.currentState = .checkCacheStState) := by
  intro hs
  have hne : c.currentState ≠ .idleState := by rcases hs with hs | hs <;> rw [hs] <;> simp
  obtain ⟨_, _, hi⟩ := h.serves (h.busy hne)
  rcases hs with hs | hs <;> rw [hs] at hi <;> exact hi

/-- A controller as the constructor leaves it, at its bus address. -/
theorem inv_new (t : ControllerType) (burstLength a : Nat) :
    ((Controller.new t burstLength).setAddress a).Inv where
  cache := Cache.ok_new
  allows k m h := by
    rw [show ((Controller.new t burstLength).setAddress a).cache.stateAt k = none
      from Cache.stateAt_new k] at h
    cases h
  urgent _ h := by cases h
  busy h := absurd rfl h
  serves h := by cases h
  dispatched h := by cases h
  idle _ := ⟨by simp [GotData, Controller.new, setAddress], rfl, rfl, rfl, rfl⟩
  rest _ := ⟨rfl, rfl, rfl⟩
  miss h := by rcases h with h | h <;> cases h
  mi _ := ⟨rfl, rfl, by simp [Controller.new, setAddress], by simp [Controller.new, setAddress]⟩

end Controller

end CoherenceSim
