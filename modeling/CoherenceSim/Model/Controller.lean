import CoherenceSim.Model.Cache

/-!
# The cache controller

`CacheController.h` and `CacheController.cpp`, together with the members that
`MI_Controller`, `MSI_Controller` and `MESI_Controller` declare. The three classes
carry the same private fields, so one record serves all of them, with the class in
`controllerType`. Methods whose text is the same in the three classes stand here
once; the methods that differ are in the modules of their classes.

Both queues are filled at the front and drained from the back.
-/

namespace CoherenceSim

inductive ControllerType
  | mi
  | msi
  | mesi
  deriving Repr, DecidableEq

/-- `E_STATES`. `MI_Controller` has no `issueInvalidateState` and no `invalidateWait`. -/
inductive ControllerState
  | idleState
  | checkCacheLdState
  | issueReadState
  | updateCacheLdState
  | checkCacheStState
  | issueReadXState
  | issueInvalidateState
  | invalidateWait
  | updateCacheStState
  deriving Repr, DecidableEq

structure Controller where
  controllerType : ControllerType
  nodeAddress : Nat
  nodeIsLocked : Bool
  loadHits : Nat
  loadMisses : Nat
  storeHits : Nat
  storeMisses : Nat
  cache : Cache
  outgoingCommandWaitFlag : Bool
  outgoingCommandWaitCode : CommandCode
  bursting : Bool
  burstLen : Nat
  burstCounter : Nat
  currentInstruction : Option Instruction
  pendingInstructionFlag : Bool
  busReqQueue : List BusRequest
  maxPriorityQueue : List BusRequest
  awaitingBusRead : Bool
  dispatchedBusRead : Option BusRequest
  gotDataReturnFromBusReadMemory : Bool
  gotDataReturnFromBusReadProcessor : Bool
  snoopedDataReturnFromWriteback : Bool
  sawBusReadToMyIncomingAddress : Bool
  sawBusReadXToMyIncomingAddress : Bool
  sawInvalidateToMyIncomingAddress : Bool
  queuedBusRead : Bool
  awaitingDataLocal : Bool
  awaitingDataLocalAddress : Nat
  currentState : ControllerState
  deriving Repr, DecidableEq

namespace Controller

/-- The constructors of `CacheController` and its subclasses. What they leave unset
starts at zero, `NULL` and `IDLE_STATE`. `outgoingCommandWaitCode` is set to 0, the
number of `BUSREAD`. -/
def new (controllerType : ControllerType) (burstLength : Nat) : Controller where
  controllerType := controllerType
  nodeAddress := 0
  nodeIsLocked := false
  loadHits := 0
  loadMisses := 0
  storeHits := 0
  storeMisses := 0
  cache := Cache.new ADX_LEN NUM_SETS LINES_PER_SET BYTES_PER_LINE
  outgoingCommandWaitFlag := false
  outgoingCommandWaitCode := .busRead
  bursting := false
  burstLen := burstLength
  burstCounter := 0
  currentInstruction := none
  pendingInstructionFlag := false
  busReqQueue := []
  maxPriorityQueue := []
  awaitingBusRead := false
  dispatchedBusRead := none
  gotDataReturnFromBusReadMemory := false
  gotDataReturnFromBusReadProcessor := false
  snoopedDataReturnFromWriteback := false
  sawBusReadToMyIncomingAddress := false
  sawBusReadXToMyIncomingAddress := false
  sawInvalidateToMyIncomingAddress := false
  queuedBusRead := false
  awaitingDataLocal := false
  awaitingDataLocalAddress := 0
  currentState := .idleState

/-! ## `BusNode` -/

def hasLock (c : Controller) : Bool := c.nodeIsLocked

def grantLock (c : Controller) : Controller := { c with nodeIsLocked := true }

def releaseLock (c : Controller) : Controller := { c with nodeIsLocked := false }

def setAddress (address : Nat) (c : Controller) : Controller := { c with nodeAddress := address }

def requestsTransaction (c : Controller) : Bool :=
  0 < c.busReqQueue.length || 0 < c.maxPriorityQueue.length

def requestsLock (c : Controller) : Bool := c.bursting

def requestsMaxPriority (c : Controller) : Bool := 0 < c.maxPriorityQueue.length

/-! ## The queues -/

def addNewBusRequest (c : Controller) (r : BusRequest) : Controller :=
  { c with busReqQueue := r :: c.busReqQueue }

def addNewMaxPriorityBusRequest (c : Controller) (r : BusRequest) : Controller :=
  { c with maxPriorityQueue := r :: c.maxPriorityQueue }

/-- `pop_back` on the queue that `initiateBusTransaction` took its request from. -/
def popBack (c : Controller) (maxPriorityTrans : Bool) : Controller :=
  if maxPriorityTrans then { c with maxPriorityQueue := c.maxPriorityQueue.dropLast }
  else { c with busReqQueue := c.busReqQueue.dropLast }

/-- The request at the back of the queues, and whether it is a maximum-priority one. -/
def nextRequest (c : Controller) : Outcome (BusRequest × Bool) :=
  if 0 < c.maxPriorityQueue.length then
    match c.maxPriorityQueue.getLast? with
    | some r => pure (r, true)
    | none => throw .emptyQueue
  else
    match c.busReqQueue.getLast? with
    | some r => pure (r, false)
    | none => throw .emptyQueue

def initiateBusTransaction (c : Controller) : Outcome (BusRequest × Controller) := do
  let (next, maxPriorityTrans) ← c.nextRequest
  let (nextToIssue, c) :=
    if c.bursting then
      let c := if c.hasLock then { c with burstCounter := (c.burstCounter + 1) % 2 ^ 32 } else c
      if c.burstCounter = c.burstLen then
        (next, { c.popBack maxPriorityTrans with burstCounter := 0 })
      else
        ({ commandCode := .nullBurst, targetAddress := BROADCAST_ADX,
           sourceAddress := c.nodeAddress, payload := next.payload }, c)
    else
      (next, c.popBack maxPriorityTrans)
  let c :=
    if nextToIssue.commandCode = .busRead ∨ nextToIssue.commandCode = .busReadX then
      { c with dispatchedBusRead := some nextToIssue, awaitingBusRead := true }
    else c
  let c :=
    if nextToIssue.commandCode = c.outgoingCommandWaitCode then
      { c with outgoingCommandWaitFlag := false }
    else c
  pure (nextToIssue, c)

/-- Erase the first request with this code and payload, if any. -/
def eraseRequest (commandCode : CommandCode) (payload : Nat) :
    List BusRequest → Option (List BusRequest)
  | [] => none
  | r :: rest =>
      if r.commandCode = commandCode ∧ r.payload = payload then some rest
      else (eraseRequest commandCode payload rest).map (r :: ·)

/-- Cancel the first matching request: of the ordinary queue, or else of the
maximum-priority one. -/
def cancelBusRequest (c : Controller) (commandCode : CommandCode) (payload : Nat) : Controller :=
  match eraseRequest commandCode payload c.busReqQueue with
  | some q => { c with busReqQueue := q }
  | none =>
      match eraseRequest commandCode payload c.maxPriorityQueue with
      | some q => { c with maxPriorityQueue := q }
      | none => c

/-- The commands whose transfer takes a burst. -/
def burstsFor (r : BusRequest) : Bool :=
  r.commandCode = .busWrite || r.commandCode = .dataReturnProcessor

def updateBusBurstRequest (c : Controller) : Controller :=
  match c.maxPriorityQueue.getLast? with
  | some next => { c with bursting := burstsFor next }
  | none =>
      match c.busReqQueue.getLast? with
      | some next => { c with bursting := burstsFor next }
      | none => { c with bursting := false }

/-! ## The processor's side -/

def hasPendingInstruction (c : Controller) : Bool := c.pendingInstructionFlag

def handleMemoryAccess (c : Controller) (i : Instruction) : Outcome Controller := do
  assertThat (!c.hasPendingInstruction) .pendingInstruction
  pure { c with currentInstruction := some i, pendingInstructionFlag := true }

/-! ## Methods the three controllers share word for word -/

/-- `currentInstruction->ADDRESS`. -/
def instructionAddress (c : Controller) : Outcome Nat :=
  match c.currentInstruction with
  | some i => pure i.address
  | none => throw .nullPointer

/-- `cache->getLineAlignedAddress(currentInstruction->ADDRESS)`. -/
def instructionLine (c : Controller) : Outcome Nat := do
  pure (c.cache.getLineAlignedAddress (← c.instructionAddress))

/-- The request that `queueBusCommand` and `queueMaxPriorityBusCommand` build. -/
def makeRequest (c : Controller) (command : CommandCode) (payload : Nat) : BusRequest where
  commandCode := command
  targetAddress := BROADCAST_ADX
  sourceAddress := c.nodeAddress
  payload := c.cache.getLineAlignedAddress payload

def queueBusCommand (c : Controller) (command : CommandCode) (payload : Nat) : Controller :=
  c.addNewBusRequest (c.makeRequest command payload)

def queueMaxPriorityBusCommand (c : Controller) (command : CommandCode) (payload : Nat) :
    Controller :=
  c.addNewMaxPriorityBusRequest (c.makeRequest command payload)

/-- Was a bus read to this address dispatched, and is it unanswered? -/
def awaitingDataRemote (c : Controller) (address : Nat) : Outcome Bool :=
  match c.dispatchedBusRead with
  | none => pure false
  | some _ => do pure ((← c.instructionLine) = address && c.awaitingBusRead)

def idleTransition (c : Controller) : Outcome ControllerState :=
  if c.hasPendingInstruction then
    match c.currentInstruction with
    | none => throw .nullPointer
    | some i =>
        match i.opcode with
        | .load => pure .checkCacheLdState
        | .store => pure .checkCacheStState
        | .nop => pure .idleState
  else pure .idleState

def checkCacheLoadTransition (c : Controller) : Outcome (ControllerState × Controller) := do
  let address ← c.instructionAddress
  if ← c.cache.contains address then
    pure (.updateCacheLdState, { c with loadHits := c.loadHits + 1 })
  else
    pure (.issueReadState, { c with loadMisses := c.loadMisses + 1 })

def issueReadTransition (c : Controller) : ControllerState :=
  if c.awaitingBusRead || c.awaitingDataLocal then .issueReadState else .updateCacheLdState

def updateCacheLoadTransition (_c : Controller) : ControllerState := .idleState

def issueReadXTransition (c : Controller) : ControllerState :=
  if c.awaitingBusRead || c.awaitingDataLocal then .issueReadXState else .updateCacheStState

def updateCacheStoreTransition (_c : Controller) : ControllerState := .idleState

def idleAction (c : Controller) : Controller :=
  { c with
    gotDataReturnFromBusReadMemory := false
    gotDataReturnFromBusReadProcessor := false
    snoopedDataReturnFromWriteback := false
    awaitingBusRead := false
    pendingInstructionFlag := false
    queuedBusRead := false
    sawBusReadToMyIncomingAddress := false
    sawBusReadXToMyIncomingAddress := false
    sawInvalidateToMyIncomingAddress := false }

/-- `IssueRead_Action` and `IssueReadX_Action`: queue the read on entry, then wait. -/
def queueReadOnce (c : Controller) (command : CommandCode) : Outcome Controller :=
  if c.queuedBusRead then pure c
  else do
    let address ← c.instructionLine
    pure { c.queueBusCommand command address with
      queuedBusRead := true
      awaitingDataLocal := true
      awaitingDataLocalAddress := address }

def issueReadXAction (c : Controller) : Outcome Controller := c.queueReadOnce .busReadX

/-- The part of `UpdateCacheLoad_Action` and `UpdateCacheStore_Action` that makes room
for a line. The evicted line is asked for its state after it was invalidated. -/
def makeRoom (c : Controller) (address : Nat) : Outcome Controller := do
  if ← c.cache.isFull address then
    let (evictedLine, cache) ← c.cache.evictLineInSet address
    let c := { c with cache := cache }
    match evictedLine with
    | none => throw .nullPointer
    | some line =>
        if line.isModified then
          pure (c.queueMaxPriorityBusCommand .busWrite
            (c.cache.getAddress line.getSetNumber line.getTag))
        else pure c
  else pure c

def updateLRU (c : Controller) (address : Nat) : Outcome Controller := do
  pure { c with cache := ← c.cache.updateLRU address }

/-- Does the controller wait for data of this line? -/
def awaitsLocal (c : Controller) (address : Nat) : Bool :=
  c.awaitingDataLocal && c.awaitingDataLocalAddress = address

/-- The answer of a holder to a read: the line from cache to cache when it is clean, a
write-back when it is modified. -/
def answerRead (c : Controller) (address : Nat) : Outcome Controller := do
  if (← c.cache.isExclusive address) || (← c.cache.isShared address) then
    pure (c.queueMaxPriorityBusCommand .dataReturnProcessor address)
  else if ← c.cache.isModified address then
    pure (c.queueMaxPriorityBusCommand .busWrite address)
  else pure c

def handleBusReadX (c : Controller) (d : BusRequest) : Outcome Controller := do
  let address := d.payload
  if ← c.cache.contains address then
    let c ← c.answerRead address
    let c := { c with cache := ← c.cache.invalidate address }
    assertThat (!(← c.cache.contains address)) .stillContained
    pure c
  else if c.awaitsLocal address then
    pure { c with sawBusReadXToMyIncomingAddress := true }
  else pure c

def handleBusWrite (c : Controller) (d : BusRequest) : Outcome Controller := do
  if ← c.awaitingDataRemote d.payload then
    pure { c with
      snoopedDataReturnFromWriteback := true
      awaitingBusRead := false
      awaitingDataLocal := false }
  else pure c

def handleDataReturnMemory (c : Controller) (d : BusRequest) : Outcome Controller := do
  let c := if ← c.awaitingDataRemote d.payload then
      { c with
        gotDataReturnFromBusReadMemory := true
        awaitingBusRead := false
        awaitingDataLocal := false }
    else c
  pure (c.cancelBusRequest .dataReturnProcessor d.payload)

def handleDataReturnProcessor (c : Controller) (d : BusRequest) : Outcome Controller := do
  let c := if ← c.awaitingDataRemote d.payload then
      { c with
        gotDataReturnFromBusReadProcessor := true
        awaitingBusRead := false
        awaitingDataLocal := false }
    else c
  pure (c.cancelBusRequest .dataReturnProcessor d.payload)

/-- `transitionState`: take the next state, then run its action. The action of a
`CHECK_CACHE` state calls `transitionState` again; `depth` bounds that recursion. -/
def transitionWith (getNextState : Controller → Outcome (ControllerState × Controller))
    (callActionFunction : (Controller → Outcome Controller) → Controller → Outcome Controller) :
    Nat → Controller → Outcome Controller
  | 0, _ => throw .recursionDepth
  | depth + 1, c => do
      let (nextState, c) ← getNextState c
      callActionFunction (transitionWith getNextState callActionFunction depth)
        { c with currentState := nextState }

end Controller

end CoherenceSim
