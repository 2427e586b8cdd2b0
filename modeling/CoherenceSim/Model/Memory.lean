import CoherenceSim.Model.Bus

/-!
# Memory

`Memory.h` and `Memory.cpp`. Reads wait in `memTracker` until they are `readLatency`
ticks old, move to `burstRequest` for the length of a burst, and are then queued for
the bus. The counters of a burst are `unsigned int`s and wrap.
-/

namespace CoherenceSim

structure MemoryOperation where
  address : Nat
  age : Nat
  returnAddress : Nat
  deriving Repr, DecidableEq

structure Memory where
  nodeAddress : Nat
  nodeIsLocked : Bool
  memSendCounts : Nat
  burstCounter : Nat
  bursting : Bool
  burstLen : Nat
  burstRequest : Option BusRequest
  readLatency : Nat
  memTracker : List MemoryOperation
  busReqQueue : List BusRequest
  deriving Repr, DecidableEq

namespace Memory

def new (latency burstLength : Nat) : Memory where
  nodeAddress := 0
  nodeIsLocked := false
  memSendCounts := 0
  burstCounter := 0
  bursting := false
  burstLen := burstLength
  burstRequest := none
  readLatency := latency
  memTracker := []
  busReqQueue := []

def hasLock (m : Memory) : Bool := m.nodeIsLocked

def grantLock (m : Memory) : Memory := { m with nodeIsLocked := true }

def releaseLock (m : Memory) : Memory := { m with nodeIsLocked := false }

def setAddress (address : Nat) (m : Memory) : Memory := { m with nodeAddress := address }

/-- Erase the first tracked read of this address, whoever issued it. -/
def cancelRead (payload : Nat) : List MemoryOperation → List MemoryOperation
  | [] => []
  | p :: rest => if p.address = payload then rest else p :: cancelRead payload rest

def acceptBusTransaction (m : Memory) (d : BusRequest) : Memory :=
  match d.commandCode with
  | .busRead | .busReadX =>
      { m with memTracker := m.memTracker ++
          [{ address := d.payload, age := 0, returnAddress := d.sourceAddress }] }
  | .dataReturnProcessor | .busWrite =>
      { m with memTracker := cancelRead d.payload m.memTracker }
  | _ => m

def initiateBusTransaction (m : Memory) : Outcome (BusRequest × Memory) :=
  match m.busReqQueue with
  | nextRequest :: rest =>
      pure (nextRequest, { m with busReqQueue := rest, memSendCounts := m.memSendCounts + 1 })
  | [] => throw .emptyQueue

def requestsTransaction (m : Memory) : Bool := 0 < m.busReqQueue.length

def requestsLock (m : Memory) : Bool := m.bursting

def updateReadAges (m : Memory) : Memory :=
  { m with memTracker := m.memTracker.map fun p => { p with age := (p.age + 1) % 2 ^ 32 } }

/-- The search loop of `getOldestOp`: the first index of the greatest age, or 0 when no
age is above zero. -/
def oldestLoop : Nat → Nat → Nat → List MemoryOperation → Nat
  | _, _, index, [] => index
  | i, oldestAge, index, p :: rest =>
      if p.age > oldestAge then oldestLoop (i + 1) p.age i rest
      else oldestLoop (i + 1) oldestAge index rest

def getOldestOp (m : Memory) : Nat := oldestLoop 0 0 0 m.memTracker

def queueDataReturns (m : Memory) : Outcome Memory :=
  let oldestIdx := m.getOldestOp
  if 0 < m.memTracker.length then
    match m.memTracker[oldestIdx]? with
    | some p =>
        if p.age ≥ m.readLatency then
          pure { m with
            burstRequest := some {
              commandCode := .dataReturnMemory
              targetAddress := p.returnAddress
              sourceAddress := m.nodeAddress
              payload := p.address }
            memTracker := m.memTracker.eraseIdx oldestIdx
            bursting := true }
        else pure m
    | none => throw .outOfRange
  else pure m

def tick (m : Memory) : Outcome Memory :=
  if m.bursting then do
    match m.burstRequest with
    | none => throw .nullPointer
    | some burstRequest =>
        let m :=
          if m.burstCounter = subOne m.burstLen then
            { m with
              busReqQueue := m.busReqQueue ++ [burstRequest]
              bursting := false
              burstCounter := 0 }
          else if m.hasLock then
            { m with busReqQueue := m.busReqQueue ++ [{
                commandCode := .nullBurst
                targetAddress := BROADCAST_ADX
                sourceAddress := m.nodeAddress
                payload := burstRequest.payload }] }
          else m
        pure (if m.hasLock then { m with burstCounter := (m.burstCounter + 1) % 2 ^ 32 } else m)
  else m.updateReadAges.queueDataReturns
where
  /-- `burstLen - 1` on an `unsigned int`. -/
  subOne (n : Nat) : Nat := (n + (2 ^ 32 - 1)) % 2 ^ 32

def getMemCount (m : Memory) : Nat := m.memSendCounts

end Memory

end CoherenceSim
