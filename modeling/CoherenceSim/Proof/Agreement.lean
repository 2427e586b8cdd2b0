import CoherenceSim.Proof.Episodes
import CoherenceSim.Proof.SharedBus
import CoherenceSim.Proof.SharedControllers
import Mathlib.Data.List.Nodup

/-!
# MSI and MESI agree until `EXCLUSIVE` pays off

Two systems of the same size, one all MSI and one all MESI, are driven by the same calls. As long
as no store of the MESI system finds its line exclusive, the MSI system is the MESI system with
`EXCLUSIVE` read as `SHARED`, call by call.
-/

namespace CoherenceSim

/-! ## Processors -/

namespace Processor

def share (p : Processor) : Processor := { p with cacheController := p.cacheController.share }

variable (p : Processor)

theorem share_checkOpTypeAction :
    Lockstep share p.checkOpTypeAction p.share.checkOpTypeAction := by
  unfold checkOpTypeAction
  have hnext : Lockstep (Prod.map id share) p.getNextInstruction p.share.getNextInstruction := by
    unfold getNextInstruction
    rw [show p.share.instrQueue = p.instrQueue from rfl]
    cases p.instrQueue with
    | nil => exact .error _
    | cons i rest => exact .ok _
  refine .bind hnext fun ⟨i, p₁⟩ _ => .ite (fun _ => ?_) fun _ => .ok _
  exact .bind (p₁.cacheController.share_handleMemoryAccess i) fun _ _ => .ok _

theorem share_getNextState : p.share.getNextState = p.getNextState := rfl

theorem share_transitionState : Lockstep share p.transitionState p.share.transitionState := by
  unfold transitionState
  rw [share_getNextState]
  refine .bind_same fun nextState _ => ?_
  cases nextState with
  | idleState => exact .ok _
  | checkOpTypeState => exact share_checkOpTypeAction { p with currentState := .checkOpTypeState }
  | memoryReturnWaitState => exact .ok _

theorem share_tick (ht : p.cacheController.controllerType = .mesi)
    (h : ¬ p.cacheController.StoreFindsExclusive) : Lockstep share p.tick p.share.tick :=
  .bind (p.cacheController.share_tick ht h) fun c _ =>
    share_transitionState { p with cacheController := c }

theorem share_processInstruction (i : Instruction) :
    p.share.processInstruction i = (p.processInstruction i).share := by
  unfold processInstruction
  split <;> rfl

end Processor

/-! ## Nodes -/

def Node.share : Node → Node
  | .processor p => .processor p.share
  | .memory m => .memory m

theorem Node.share_hom : BusNode.Hom Node.share where
  acceptBusTransaction n r := by
    cases n with
    | processor p => exact .bind (p.cacheController.share_acceptBusTransaction r) fun _ _ => .ok _
    | memory m => exact .ok _
  initiateBusTransaction n := by
    cases n with
    | processor p => exact .bind p.cacheController.share_initiateBusTransaction fun _ _ => .ok _
    | memory m => exact .bind_same fun _ _ => .ok _
  requestsTransaction n := by cases n <;> rfl
  requestsLock n := by cases n <;> rfl
  requestsMaxPriority n := by cases n <;> rfl
  grantLock n := by cases n <;> rfl
  releaseLock n := by cases n <;> rfl
  setAddress a n := by cases n <;> rfl

/-! ## Systems -/

namespace System

/-- The system with every MESI controller turned into an MSI controller. -/
def share (s : System) : System := { s with interconnect := s.interconnect.mapNodes Node.share }

variable (s : System)

theorem share_putNode (a : Nat) (n : Node) :
    s.share.putNode a n.share = (s.putNode a n).share := by
  rw [putNode, putNode, share, share, Interconnect.mapNodes_putNode]

theorem share_getProcessor (a : Nat) :
    Lockstep Processor.share (s.getProcessor a) (s.share.getProcessor a) := by
  refine .bind (s.interconnect.mapNodes_getNode a) fun n _ => ?_
  cases n with
  | processor p => exact .ok _
  | memory m => exact .error _

theorem share_getMemory : Lockstep id s.getMemory s.share.getMemory := by
  refine .bind (s.interconnect.mapNodes_getNode s.memory) fun n _ => ?_
  cases n with
  | processor p => exact .error _
  | memory m => exact .ok _

theorem share_insertInstruction (i : Instruction) (processorNum : Nat) :
    Lockstep share (s.insertInstruction i processorNum) (s.share.insertInstruction i processorNum) := by
  unfold insertInstruction
  refine .bind_same fun _ _ => ?_
  rw [show s.share.processors = s.processors from rfl]
  cases s.processors[processorNum]? with
  | none => exact .error _
  | some a =>
      refine .bind (s.share_getProcessor a) fun p _ => .ok_of_eq ?_
      rw [p.share_processInstruction]
      exact s.share_putNode a (.processor (p.processInstruction i))

theorem share_tickMemory : Lockstep share s.tickMemory s.share.tickMemory := by
  refine .bind_eq s.share_getMemory fun m _ => .bind_same fun m' _ => .ok_of_eq ?_
  exact s.share_putNode s.memory (.memory m')

theorem share_tickInterconnect :
    Lockstep (Prod.map id share) s.tickInterconnect s.share.tickInterconnect :=
  .bind (s.interconnect.mapNodes_tick Node.share_hom) fun _ _ => .ok _

/-! The processors of a cycle -/

theorem controllerAt_of_getProcessor {a : Nat} {p : Processor} (h : s.getProcessor a = .ok p) :
    controllerAt s.interconnect a = some p.cacheController := by
  obtain ⟨n, hn, h⟩ := Outcome.bind_eq_ok.mp h
  unfold Interconnect.getNode at hn
  split at hn
  · rename_i n' hfind
    cases hn
    cases n with
    | processor p' => cases h; exact controllerAt_of_nodeAt hfind
    | memory m => cases h
  · cases hn

/-- No store of these MESI controllers is about to find its line exclusive. -/
def NoneExclusive (l : List Nat) (s : System) : Prop :=
  ∀ a ∈ l, ∀ c, controllerAt s.interconnect a = some c →
    c.controllerType = .mesi ∧ ¬ c.StoreFindsExclusive

variable {s}

theorem share_tickProcessor {a : Nat} {rest : List Nat} (h : NoneExclusive (a :: rest) s) :
    Lockstep share (s.tickProcessor a) (s.share.tickProcessor a) := by
  refine .bind (s.share_getProcessor a) fun p hp => ?_
  obtain ⟨ht, hstore⟩ := h a List.mem_cons_self _ (s.controllerAt_of_getProcessor hp)
  exact .bind (p.share_tick ht hstore) fun p' _ => .ok_of_eq (s.share_putNode a (.processor p'))

/-- A processor's tick is nothing to the processors after it. -/
theorem NoneExclusive.tickProcessor {a : Nat} {rest : List Nat} {s' : System}
    (h : NoneExclusive (a :: rest) s) (ha : a ∉ rest) (hs : s.tickProcessor a = .ok s') :
    NoneExclusive rest s' := by
  obtain ⟨p, _, hs⟩ := Outcome.bind_eq_ok.mp hs
  obtain ⟨p', _, hs⟩ := Outcome.bind_eq_ok.mp hs
  cases hs
  intro b hb c hc
  have hne : b ≠ a := fun hba => ha (hba ▸ hb)
  refine h b (List.mem_cons_of_mem _ hb) c ?_
  rw [← hc]
  simp only [controllerAt, putNode, Interconnect.nodeAt_putNode, if_neg hne]

theorem share_tick (hnodup : s.processors.Nodup) (h : NoneExclusive s.processors s) :
    Lockstep (Prod.map id share) s.tick s.share.tick := by
  unfold tick
  refine .bind ?_ fun s₁ _ => .bind s₁.share_tickMemory fun s₂ _ => s₂.share_tickInterconnect
  refine Lockstep.foldlM (P := fun l s => l.Nodup ∧ NoneExclusive l s) (fun a rest s h => ?_)
    (fun a rest s s' h hs => ?_) s.processors.reverse { s with tickNumber := s.tickNumber + 1 } ?_
  · exact share_tickProcessor h.2
  · obtain ⟨hnot, hrest⟩ := List.nodup_cons.mp h.1
    exact ⟨hrest, h.2.tickProcessor hnot hs⟩
  · exact ⟨List.nodup_reverse.mpr hnodup, fun a ha => h a (List.mem_reverse.mp ha)⟩

/-! New systems -/

theorem share_addProcessors (burstLength : Nat) (l : List Nat) : ∀ ic : Interconnect Node,
    Lockstep (Interconnect.mapNodes Node.share) (addProcessors .mesi burstLength l ic)
      (addProcessors .msi burstLength l (ic.mapNodes Node.share)) := by
  induction l with
  | nil => intro ic; exact .ok _
  | cons i rest ih =>
      intro ic
      have hnode : Node.processor (Processor.new .msi burstLength)
          = (Node.processor (Processor.new .mesi burstLength)).share := by
        rw [Processor.new, ← Controller.share_new]
        rfl
      unfold addProcessors
      rw [hnode]
      exact .bind (ic.mapNodes_addNode _ Node.share_hom _) fun ic' _ => ih ic'

theorem share_new (numProcessors memoryLatency burstLength : Nat) :
    Lockstep share (System.new numProcessors .mesi memoryLatency burstLength)
      (System.new numProcessors .msi memoryLatency burstLength) := by
  refine .bind (share_addProcessors burstLength (List.range numProcessors) Interconnect.new)
    fun ic _ => ?_
  exact .bind (ic.mapNodes_addNode _ Node.share_hom (.memory (Memory.new memoryLatency burstLength)))
    fun _ _ => .ok _

end System

/-! ## Runs -/

def TickRecord.share (rec : TickRecord) : TickRecord where
  before := rec.before.share
  sent := rec.sent
  after := rec.after.share

/-- No store finds its line exclusive in this tick. -/
def TickRecord.NoneExclusive (rec : TickRecord) : Prop :=
  ∀ a i c, LooksUp a i rec c → i.opcode = .store → c.cache.isExclusive i.address ≠ .ok true

variable {numProcessors memoryLatency burstLength : Nat}

theorem TickRecord.NoneExclusive.before {Q : Instruction → Prop} {rec : TickRecord}
    (h : rec.NoneExclusive) (hok : rec.before.Ok ⟨numProcessors, .mesi, memoryLatency, burstLength⟩ Q)
    (l : List Nat) : System.NoneExclusive l rec.before := by
  intro a _ c hc
  have ok := hok.valid.controller hc
  refine ⟨ok.controllerType, ?_⟩
  rintro ⟨i, hi, hchecking | ⟨hidle, hpending, hstore⟩, hexcl⟩
  · exact ok.inv.not_checking (Or.inr hchecking)
  · exact h a i c ⟨hc, hidle, hpending, hi⟩ hstore hexcl

/-- **The two runs, call by call.** -/
theorem System.run_share {events : List Event} {h : List TickRecord} {s : System}
    (hrun : System.run ⟨numProcessors, .mesi, memoryLatency, burstLength⟩ events = .ok (h, s)) :
    (∀ rec ∈ h, rec.NoneExclusive) →
      System.run ⟨numProcessors, .msi, memoryLatency, burstLength⟩ events
        = .ok (h.map TickRecord.share, s.share) := by
  obtain ⟨s₀, hs₀, hinit⟩ := System.new_spec ⟨numProcessors, .mesi, memoryLatency, burstLength⟩
  have hnew : System.run ⟨numProcessors, .msi, memoryLatency, burstLength⟩ []
      = .ok ([], s₀.share) := by
    rw [System.run, (System.share_new numProcessors memoryLatency burstLength).of_eq_ok hs₀]
    rfl
  rw [System.run, hs₀, Outcome.ok_bind] at hrun
  refine (System.exec_events_induct (Q := fun _ => True)
    (P := fun past h s => (∀ rec ∈ h, TickRecord.NoneExclusive rec) →
      System.run ⟨numProcessors, .msi, memoryLatency, burstLength⟩ past
        = .ok (h.map TickRecord.share, System.share s))
    (fun past h s s' i n hok hok' _ heq ih hnone => ?_)
    (fun past h s mid req s' hok hok' hcycle ih hnone => ?_) events
    (fun e _ => by cases e <;> trivial) (hinit.ok _) (fun _ => hnew) hrun).2
  · rw [System.run_append, ih hnone, Outcome.ok_bind, System.exec,
      (s.share_insertInstruction i n).of_eq_ok heq]
    rfl
  · have hbefore := (hnone _ List.mem_cons_self).before hok s.processors
    have htick : s.tick = .ok (req, s') := by
      rw [System.tick_eq, hcycle.tickNodes, Outcome.ok_bind, hcycle.tickInterconnect]
    have hnodup : s.processors.Nodup := by
      rw [hok.processors, List.Nodup, List.pairwise_map]
      exact List.nodup_range.imp fun hne => by omega
    rw [System.run_append, ih fun rec hrec => hnone rec (List.mem_cons_of_mem _ hrec),
      Outcome.ok_bind, System.exec, (System.share_tick hnodup hbefore).of_eq_ok htick]
    rfl

/-! ## Reports -/

/-- The two systems report the same of every processor, of the memory and of the bus. -/
structure SameReport (s s' : System) : Prop where
  processors : s'.processors = s.processors
  processor : ∀ a p, s.getProcessor a = .ok p → ∃ p', s'.getProcessor a = .ok p'
    ∧ p'.cacheController.storeHits = p.cacheController.storeHits
    ∧ p'.cacheController.storeMisses = p.cacheController.storeMisses
    ∧ p'.cacheController.loadHits = p.cacheController.loadHits
    ∧ p'.cacheController.loadMisses = p.cacheController.loadMisses
    ∧ p'.numberMemoryOperations = p.numberMemoryOperations
    ∧ p'.totalWaitCycles = p.totalWaitCycles
  memory : ∀ m, s.getMemory = .ok m → ∃ m', s'.getMemory = .ok m'
    ∧ m'.getMemCount = m.getMemCount
  busyCycles : s'.interconnect.busyCycles = s.interconnect.busyCycles

theorem sameReport_share (s : System) : SameReport s s.share where
  processors := rfl
  processor a p hp := ⟨p.share, (s.share_getProcessor a).of_eq_ok hp, rfl, rfl, rfl, rfl, rfl, rfl⟩
  memory m hm := ⟨m, s.share_getMemory.of_eq_ok hm, rfl⟩
  busyCycles := rfl

/-- **MSI and MESI agree until `EXCLUSIVE` pays off.** -/
theorem msi_agrees_with_mesi {events : List Event} {h : List TickRecord} {s : System}
    (hrun : System.run ⟨numProcessors, .mesi, memoryLatency, burstLength⟩ events = .ok (h, s))
    (hnone : ∀ rec ∈ h, ∀ a i c, LooksUp a i rec c → i.opcode = .store →
      c.cache.isExclusive i.address ≠ .ok true) :
    ∃ h' s', System.run ⟨numProcessors, .msi, memoryLatency, burstLength⟩ events = .ok (h', s')
      ∧ s' = s.share ∧ h' = h.map TickRecord.share
      ∧ h'.map TickRecord.sent = h.map TickRecord.sent ∧ SameReport s s' := by
  refine ⟨_, _, System.run_share hrun hnone, rfl, rfl, ?_, sameReport_share s⟩
  rw [List.map_map]
  rfl

instance (c : Controller) : Decidable c.StoreFindsExclusive :=
  decidable_of_iff (c.currentInstruction.any fun i =>
    decide ((c.currentState = .checkCacheStState
      ∨ c.currentState = .idleState ∧ c.pendingInstructionFlag = true ∧ i.opcode = .store)
      ∧ c.cache.isExclusive i.address = .ok true))
    (by simp only [Option.any_eq_true, decide_eq_true_eq]; rfl)

/-- The condition on a tick, as a test of its nodes. -/
def TickRecord.noneExclusive (rec : TickRecord) : Bool :=
  rec.before.interconnect.nodes.all fun n =>
    match n.2 with
    | .processor p => decide (¬ p.cacheController.StoreFindsExclusive)
    | .memory _ => true

theorem TickRecord.noneExclusive_of {rec : TickRecord} (h : rec.noneExclusive = true) :
    rec.NoneExclusive := by
  intro a i c hl hstore hexcl
  obtain ⟨p, hp, rfl⟩ := nodeAt_of_controllerAt hl.controller
  have hnode := List.all_eq_true.mp h _ (OrdMap.mem_of_find? hp)
  exact of_decide_eq_true hnode
    ⟨i, hl.instruction, Or.inr ⟨hl.idle, hl.pending, hstore⟩, hexcl⟩

/-- A load that finds no other copy, and a store elsewhere: the line of the load is exclusive in
the MESI system at the end. -/
theorem msi_agrees_with_mesi_load : ∃ h s, System.run ⟨2, .mesi, 1, 2⟩
      ([.insert .load 64 0, .insert .store 128 1] ++ List.replicate 10 .tick) = .ok (h, s)
    ∧ ((controllerAt s.interconnect 1).any fun c => c.cache.isExclusive 64 = .ok true) = true
    ∧ ∃ h' s', System.run ⟨2, .msi, 1, 2⟩
      ([.insert .load 64 0, .insert .store 128 1] ++ List.replicate 10 .tick) = .ok (h', s')
      ∧ s' = s.share ∧ h' = h.map TickRecord.share
      ∧ h'.map TickRecord.sent = h.map TickRecord.sent ∧ SameReport s s' := by
  obtain ⟨h, s, hrun, hp⟩ := System.exists_run ⟨2, .mesi, 1, 2⟩
    ([.insert .load 64 0, .insert .store 128 1] ++ List.replicate 10 .tick)
    (fun h s => h.all TickRecord.noneExclusive
      && (controllerAt s.interconnect 1).any fun c => c.cache.isExclusive 64 = .ok true)
    (by decide +kernel)
  obtain ⟨hnone, hexcl⟩ := (Bool.and_eq_true _ _).mp hp
  exact ⟨h, s, hrun, hexcl, msi_agrees_with_mesi hrun fun rec hrec =>
    TickRecord.noneExclusive_of (List.all_eq_true.mp hnone rec hrec)⟩

end CoherenceSim
