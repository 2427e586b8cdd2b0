import CoherenceSim.Model.Bus

/-!
# The interconnect

`Interconnect.h` and `Interconnect.cpp`, over any type of nodes that has the `BusNode`
interface. The program keeps pointers to its nodes; here the interconnect owns them.

`tick` also returns the request it took from a node, if it took one. The source's
`Tick` returns nothing: the result is the record that statements about bus traffic
are made of.
-/

namespace CoherenceSim

structure Interconnect (ν : Type) where
  nodeLocked : Bool
  lockedAddress : Nat
  busyCycles : Nat
  numTicks : Nat
  totalBusContentionCount : Nat
  nodes : OrdMap ν
  priorityQueue : List Nat
  deriving Repr, DecidableEq

namespace Interconnect

open BusNode

variable {ν : Type}

def new : Interconnect ν where
  nodeLocked := false
  lockedAddress := 0
  busyCycles := 0
  numTicks := 0
  totalBusContentionCount := 0
  nodes := []
  priorityQueue := []

def hasNode (ic : Interconnect ν) (address : Nat) : Bool := (ic.nodes.find? address).isSome

def getNodeCount (ic : Interconnect ν) : Nat := ic.nodes.length

def getNode (ic : Interconnect ν) (address : Nat) : Outcome ν :=
  match ic.nodes.find? address with
  | some n => pure n
  | none => throw .noSuchNode

/-- Write through the `BusNode*` of an address. -/
def putNode (ic : Interconnect ν) (address : Nat) (n : ν) : Interconnect ν :=
  { ic with nodes := ic.nodes.assign address n }

def updatePriorityQueue (ic : Interconnect ν) : Outcome (Interconnect ν) :=
  if 0 < ic.getNodeCount then
    match ic.priorityQueue with
    | priorityOne :: rest => pure { ic with priorityQueue := rest ++ [priorityOne] }
    | [] => throw .outOfRange
  else pure ic

variable [BusNode ν]

def addNode (ic : Interconnect ν) (n : ν) (address : Nat) : Outcome (Interconnect ν) := do
  assertThat (!ic.hasNode address) .nodeExists
  assertThat (address ≠ BROADCAST_ADX) .broadcastAddress
  pure { ic with
    nodes := ic.nodes.assign address (setAddress address n)
    priorityQueue := ic.priorityQueue ++ [address] }

/-- Deliver a request to one node. -/
def deliverTo (ic : Interconnect ν) (r : BusRequest) (address : Nat) :
    Outcome (Interconnect ν) := do
  let receiverNode ← ic.getNode address
  pure (ic.putNode address (← acceptBusTransaction receiverNode r))

/-- Deliver a request to every node but its source, in the order of the map. -/
def broadcastBusRequest (ic : Interconnect ν) (r : BusRequest) : Outcome (Interconnect ν) :=
  (ic.nodes.keys.filter (· ≠ r.sourceAddress)).foldlM (fun ic address => ic.deliverTo r address) ic

/-- Serve one node. The result tells whether it had a lock or a request to serve, and
carries the request taken from it. -/
def serviceBusNode (ic : Interconnect ν) (address : Nat) :
    Outcome (Bool × Option BusRequest × Interconnect ν) := do
  let txNode ← ic.getNode address
  let (retVal, txNode, ic) :=
    if requestsLock txNode then
      (true, grantLock txNode, { ic with lockedAddress := address, nodeLocked := true })
    else
      (false, releaseLock txNode, { ic with nodeLocked := false })
  let ic := ic.putNode address txNode
  if requestsTransaction txNode then
    let (request, txNode) ← initiateBusTransaction txNode
    let ic := ic.putNode address txNode
    let requestAdx := request.targetAddress
    if requestAdx = BROADCAST_ADX then
      pure (true, some request, ← ic.broadcastBusRequest request)
    else
      pure (true, some request, ← ic.deliverTo request requestAdx)
  else pure (retVal, none, ic)

/-- The first loop of `serviceBusNodes`: the first node that asks for maximum priority. -/
def findMaxPriority (ic : Interconnect ν) : List Nat → Outcome (Option Nat)
  | [] => pure none
  | address :: rest => do
      let n ← ic.getNode address
      if requestsMaxPriority n then pure (some address) else ic.findMaxPriority rest

/-- The second loop of `serviceBusNodes`: serve nodes in order until one had something. -/
def serviceInOrder (ic : Interconnect ν) : List Nat →
    Outcome (Option BusRequest × Interconnect ν)
  | [] => pure (none, ic)
  | address :: rest => do
      let (served, request, ic) ← ic.serviceBusNode address
      if served then pure (request, { ic with busyCycles := ic.busyCycles + 1 })
      else ic.serviceInOrder rest

def serviceBusNodes (ic : Interconnect ν) : Outcome (Option BusRequest × Interconnect ν) := do
  match ← ic.findMaxPriority ic.priorityQueue with
  | some address =>
      let (_, request, ic) ← ic.serviceBusNode address
      pure (request, ic)
  | none => ic.serviceInOrder ic.priorityQueue

/-- How many of the nodes at these addresses have a request. -/
def contention (ic : Interconnect ν) : List Nat → Outcome Nat
  | [] => pure 0
  | address :: rest => do
      let n ← ic.getNode address
      let count ← ic.contention rest
      pure (if requestsTransaction n then count + 1 else count)

def collectBusStatistics (ic : Interconnect ν) : Outcome (Interconnect ν) := do
  let count ← ic.contention ic.priorityQueue
  pure { ic with
    numTicks := ic.numTicks + 1
    totalBusContentionCount := ic.totalBusContentionCount + count }

def tick (ic : Interconnect ν) : Outcome (Option BusRequest × Interconnect ν) := do
  let (request, ic) ←
    if ic.nodeLocked then do
      let (_, request, ic) ← ic.serviceBusNode ic.lockedAddress
      pure (request, { ic with busyCycles := ic.busyCycles + 1 })
    else ic.serviceBusNodes
  let ic ← ic.collectBusStatistics
  pure (request, ← ic.updatePriorityQueue)

end Interconnect

end CoherenceSim
