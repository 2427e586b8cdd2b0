import CoherenceSim.Lib.Lockstep
import CoherenceSim.Lib.Outcome
import CoherenceSim.Model.Interconnect

/-!
# What the interconnect sees of its nodes

The interconnect knows its nodes through the `BusNode` interface only. So if a map of nodes
commutes with the interface, replacing every node by its image commutes with all that the
interconnect does.
-/

namespace CoherenceSim

open BusNode

/-- A map of nodes that commutes with the `BusNode` interface. -/
structure BusNode.Hom {ν ν' : Type} [BusNode ν] [BusNode ν'] (φ : ν → ν') : Prop where
  acceptBusTransaction : ∀ n r,
    Lockstep φ (BusNode.acceptBusTransaction n r) (BusNode.acceptBusTransaction (φ n) r)
  initiateBusTransaction : ∀ n,
    Lockstep (Prod.map id φ) (BusNode.initiateBusTransaction n) (BusNode.initiateBusTransaction (φ n))
  requestsTransaction : ∀ n, BusNode.requestsTransaction (φ n) = BusNode.requestsTransaction n
  requestsLock : ∀ n, BusNode.requestsLock (φ n) = BusNode.requestsLock n
  requestsMaxPriority : ∀ n, BusNode.requestsMaxPriority (φ n) = BusNode.requestsMaxPriority n
  grantLock : ∀ n, BusNode.grantLock (φ n) = φ (BusNode.grantLock n)
  releaseLock : ∀ n, BusNode.releaseLock (φ n) = φ (BusNode.releaseLock n)
  setAddress : ∀ a n, BusNode.setAddress a (φ n) = φ (BusNode.setAddress a n)

namespace Interconnect

variable {ν ν' : Type}

/-- The interconnect with the image of each node in its place. -/
def mapNodes (φ : ν → ν') (ic : Interconnect ν) : Interconnect ν' where
  nodeLocked := ic.nodeLocked
  lockedAddress := ic.lockedAddress
  busyCycles := ic.busyCycles
  numTicks := ic.numTicks
  totalBusContentionCount := ic.totalBusContentionCount
  nodes := ic.nodes.mapValues φ
  priorityQueue := ic.priorityQueue

variable {φ : ν → ν'} (ic : Interconnect ν) (a : Nat)

theorem mapNodes_getNode : Lockstep φ (ic.getNode a) ((ic.mapNodes φ).getNode a) := by
  have hfind : (ic.mapNodes φ).nodes.find? a = (ic.nodes.find? a).map φ :=
    OrdMap.find?_mapValues φ a ic.nodes
  rw [getNode, getNode, hfind]
  cases ic.nodes.find? a with
  | none => exact .error _
  | some n => exact .ok n

theorem mapNodes_putNode (n : ν) : (ic.mapNodes φ).putNode a (φ n) = (ic.putNode a n).mapNodes φ := by
  simp only [putNode, mapNodes, OrdMap.assign_mapValues]

theorem mapNodes_hasNode : (ic.mapNodes φ).hasNode a = ic.hasNode a := by
  have hfind : (ic.mapNodes φ).nodes.find? a = (ic.nodes.find? a).map φ :=
    OrdMap.find?_mapValues φ a ic.nodes
  rw [hasNode, hasNode, hfind, Option.isSome_map]

theorem mapNodes_updatePriorityQueue :
    Lockstep (mapNodes φ) ic.updatePriorityQueue (ic.mapNodes φ).updatePriorityQueue := by
  have hcount : (ic.mapNodes φ).getNodeCount = ic.getNodeCount := List.length_map _
  unfold updatePriorityQueue
  rw [hcount]
  refine .ite (fun _ => ?_) fun _ => .ok _
  rw [show (ic.mapNodes φ).priorityQueue = ic.priorityQueue from rfl]
  cases ic.priorityQueue with
  | nil => exact .error _
  | cons a rest => exact .ok _

variable [BusNode ν] [BusNode ν'] (hφ : BusNode.Hom φ)

include hφ

theorem mapNodes_addNode (n : ν) :
    Lockstep (mapNodes φ) (ic.addNode n a) ((ic.mapNodes φ).addNode (φ n) a) := by
  unfold addNode
  rw [mapNodes_hasNode]
  refine .bind_same fun _ _ => .bind_same fun _ _ => .ok_of_eq ?_
  rw [hφ.setAddress]
  simp only [mapNodes, OrdMap.assign_mapValues]

theorem mapNodes_deliverTo (r : BusRequest) :
    Lockstep (mapNodes φ) (ic.deliverTo r a) ((ic.mapNodes φ).deliverTo r a) := by
  refine .bind (ic.mapNodes_getNode a) fun n _ => ?_
  exact .bind (hφ.acceptBusTransaction n r) fun n' _ => .ok_of_eq (ic.mapNodes_putNode a n')

theorem mapNodes_broadcastBusRequest (r : BusRequest) :
    Lockstep (mapNodes φ) (ic.broadcastBusRequest r) ((ic.mapNodes φ).broadcastBusRequest r) := by
  have hkeys : (ic.mapNodes φ).nodes.keys = ic.nodes.keys := OrdMap.keys_mapValues φ ic.nodes
  unfold broadcastBusRequest
  rw [hkeys]
  exact Lockstep.foldlM (P := fun _ _ => True)
    (fun a _ ic _ => ic.mapNodes_deliverTo a hφ r) (fun _ _ _ _ _ _ => trivial) _ ic trivial

/-- Serving a node that was told whether it has the lock. -/
theorem mapNodes_serve (retVal : Bool) (txNode : ν) :
    Lockstep (Prod.map id (Prod.map id (mapNodes φ)))
      (if requestsTransaction txNode then do
        let (request, txNode) ← initiateBusTransaction txNode
        let ic := ic.putNode a txNode
        if request.targetAddress = BROADCAST_ADX then
          pure (true, some request, ← ic.broadcastBusRequest request)
        else
          pure (true, some request, ← ic.deliverTo request request.targetAddress)
      else pure (retVal, none, ic))
      (if requestsTransaction (φ txNode) then do
        let (request, txNode) ← initiateBusTransaction (φ txNode)
        let ic := (ic.mapNodes φ).putNode a txNode
        if request.targetAddress = BROADCAST_ADX then
          pure (true, some request, ← ic.broadcastBusRequest request)
        else
          pure (true, some request, ← ic.deliverTo request request.targetAddress)
      else pure (retVal, none, ic.mapNodes φ)) := by
  rw [hφ.requestsTransaction]
  refine .ite (fun _ => ?_) fun _ => .ok _
  refine .bind (hφ.initiateBusTransaction txNode) fun ⟨request, txNode'⟩ _ => ?_
  simp only [Prod.map, id, mapNodes_putNode]
  refine .ite (fun _ => ?_) fun _ => ?_
  · exact .bind (mapNodes_broadcastBusRequest _ hφ request) fun _ _ => .ok _
  · exact .bind (mapNodes_deliverTo _ _ hφ request) fun _ _ => .ok _

theorem mapNodes_serviceBusNode : Lockstep (Prod.map id (Prod.map id (mapNodes φ)))
    (ic.serviceBusNode a) ((ic.mapNodes φ).serviceBusNode a) := by
  refine .bind (ic.mapNodes_getNode a) fun n _ => ?_
  rw [hφ.requestsLock, hφ.grantLock, hφ.releaseLock]
  cases requestsLock n with
  | true =>
      have h := mapNodes_serve (({ ic with lockedAddress := a, nodeLocked := true } :
        Interconnect ν).putNode a (grantLock n)) a hφ true (grantLock n)
      rw [← mapNodes_putNode] at h
      exact h
  | false =>
      have h := mapNodes_serve (({ ic with nodeLocked := false } :
        Interconnect ν).putNode a (releaseLock n)) a hφ false (releaseLock n)
      rw [← mapNodes_putNode] at h
      exact h

theorem mapNodes_findMaxPriority (l : List Nat) :
    Lockstep id (ic.findMaxPriority l) ((ic.mapNodes φ).findMaxPriority l) := by
  induction l with
  | nil => exact .ok _
  | cons a rest ih =>
      refine .bind (ic.mapNodes_getNode a) fun n _ => ?_
      rw [hφ.requestsMaxPriority]
      exact .ite (fun _ => .ok _) fun _ => ih

theorem mapNodes_serviceInOrder (l : List Nat) : ∀ ic : Interconnect ν,
    Lockstep (Prod.map id (mapNodes φ)) (ic.serviceInOrder l) ((ic.mapNodes φ).serviceInOrder l) := by
  induction l with
  | nil => intro ic; exact .ok _
  | cons a rest ih =>
      intro ic
      refine .bind (ic.mapNodes_serviceBusNode a hφ) fun ⟨served, request, ic'⟩ _ => ?_
      exact .ite (fun _ => .ok _) fun _ => ih ic'

theorem mapNodes_serviceBusNodes : Lockstep (Prod.map id (mapNodes φ)) ic.serviceBusNodes
    (ic.mapNodes φ).serviceBusNodes := by
  refine .bind_eq (ic.mapNodes_findMaxPriority hφ ic.priorityQueue) fun chosen _ => ?_
  cases chosen with
  | none => exact mapNodes_serviceInOrder hφ ic.priorityQueue ic
  | some a => exact .bind (ic.mapNodes_serviceBusNode a hφ) fun _ _ => .ok _

theorem mapNodes_contention (l : List Nat) :
    Lockstep id (ic.contention l) ((ic.mapNodes φ).contention l) := by
  induction l with
  | nil => exact .ok _
  | cons a rest ih =>
      refine .bind (ic.mapNodes_getNode a) fun n _ => .bind_eq ih fun count _ => ?_
      rw [hφ.requestsTransaction]
      exact .ok _

theorem mapNodes_collectBusStatistics : Lockstep (mapNodes φ) ic.collectBusStatistics
    (ic.mapNodes φ).collectBusStatistics :=
  .bind_eq (ic.mapNodes_contention hφ ic.priorityQueue) fun _ _ => .ok _

/-- **A tick of the interconnect commutes with the map.** -/
theorem mapNodes_tick : Lockstep (Prod.map id (mapNodes φ)) ic.tick (ic.mapNodes φ).tick := by
  have hend (request : Option BusRequest) (ic : Interconnect ν) :
      Lockstep (Prod.map id (mapNodes φ))
        (do
          let ic ← ic.collectBusStatistics
          pure (request, ← ic.updatePriorityQueue))
        (do
          let ic ← (ic.mapNodes φ).collectBusStatistics
          pure (request, ← ic.updatePriorityQueue)) :=
    .bind (ic.mapNodes_collectBusStatistics hφ) fun ic _ =>
      .bind ic.mapNodes_updatePriorityQueue fun _ _ => .ok _
  unfold tick
  refine .ite (fun _ => ?_) fun _ => ?_
  · exact .bind (ic.mapNodes_serviceBusNode _ hφ) fun ⟨_, request, ic'⟩ _ =>
      hend request { ic' with busyCycles := ic'.busyCycles + 1 }
  · exact .bind (ic.mapNodes_serviceBusNodes hφ) fun ⟨request, ic'⟩ _ => hend request ic'

end Interconnect

end CoherenceSim
