import CoherenceSim.Proof.BusTick
import CoherenceSim.Proof.MemoryTick
import CoherenceSim.Proof.NodeTick

/-!
# The invariant of the system, and what a cycle does

`Valid` puts the invariants of the parts together. A cycle is described in two halves:
`Ticks`, in which every processor and the memory tick and nobody notices anybody else, and
`BusEvent`, in which at most one of them is heard by the others. All statements about runs
rest on these two descriptions.
-/

namespace CoherenceSim

open BusNode Interconnect

instance : LawfulBusNode Node where
  hasLock_grantLock n := by cases n <;> rfl
  hasLock_releaseLock n := by cases n <;> rfl
  releaseLock_of_not n h := by
    cases n with
    | processor p =>
        have h : p.cacheController.nodeIsLocked = false := h
        show Node.onController p Controller.releaseLock = _
        rw [Node.onController, Controller.releaseLock, ← h]
    | memory m =>
        have h : m.nodeIsLocked = false := h
        show Node.memory m.releaseLock = _
        rw [Memory.releaseLock, ← h]
  requestsTransaction_grantLock n := by cases n <;> rfl
  requestsTransaction_releaseLock n := by cases n <;> rfl

/-! ## Validity -/

/-- The processor at address `a`. -/
structure ProcessorOk (ps : Params) (Q : Instruction → Prop) (a : Nat) (p : Processor) :
    Prop where
  inv : p.Inv Q
  controllerType : p.cacheController.controllerType = ps.controllerType
  nodeAddress : p.cacheController.nodeAddress = a
  burstLen : p.cacheController.burstLen = ps.burstLength

/-- Processors are at `1 … n`, the memory is at `n + 1`. -/
def NodeOk (ps : Params) (Q : Instruction → Prop) (a : Nat) : Node → Prop
  | .processor p => (1 ≤ a ∧ a ≤ ps.numProcessors) ∧ ProcessorOk ps Q a p
  | .memory m => a = ps.numProcessors + 1 ∧ m.Inv ps.numProcessors

/-- The invariant of the interconnect and its nodes, in a run whose instructions satisfy `Q`. -/
structure Valid (ps : Params) (Q : Instruction → Prop) (ic : Interconnect Node) : Prop where
  shape : ic.Shape
  lock : ic.LockOk
  keys : ∀ a, a ∈ ic.nodes.keys ↔ 1 ≤ a ∧ a ≤ ps.numProcessors + 1
  nodes : ∀ a n, ic.nodeAt a = some n → NodeOk ps Q a n

/-- The controller at an address, if it is a processor's. -/
def controllerAt (ic : Interconnect Node) (a : Nat) : Option Controller :=
  match ic.nodeAt a with
  | some (.processor p) => some p.cacheController
  | _ => none

/-- The memory at an address. -/
def memoryAt (ic : Interconnect Node) (a : Nat) : Option Memory :=
  match ic.nodeAt a with
  | some (.memory m) => some m
  | _ => none

section

variable {ps : Params} {Q : Instruction → Prop} {ic ic' : Interconnect Node} {a : Nat}

theorem controllerAt_of_nodeAt {p : Processor} (h : ic.nodeAt a = some (.processor p)) :
    controllerAt ic a = some p.cacheController := by
  rw [controllerAt, h]

theorem nodeAt_of_controllerAt {c : Controller} (h : controllerAt ic a = some c) :
    ∃ p, ic.nodeAt a = some (.processor p) ∧ p.cacheController = c := by
  unfold controllerAt at h
  split at h
  · rename_i p hp
    cases h
    exact ⟨p, hp, rfl⟩
  · cases h

theorem memoryAt_of_nodeAt {m : Memory} (h : ic.nodeAt a = some (.memory m)) :
    memoryAt ic a = some m := by
  rw [memoryAt, h]

theorem nodeAt_of_memoryAt {m : Memory} (h : memoryAt ic a = some m) :
    ic.nodeAt a = some (.memory m) := by
  unfold memoryAt at h
  split at h
  · rename_i p hp
    cases h
    exact hp
  · cases h

theorem Valid.processor (h : Valid ps Q ic) (h₁ : 1 ≤ a) (h₂ : a ≤ ps.numProcessors) :
    ∃ p, ic.nodeAt a = some (.processor p) ∧ ProcessorOk ps Q a p := by
  obtain ⟨n, hn⟩ := Option.isSome_iff_exists.mp (nodeAt_isSome.mpr ((h.keys a).mpr ⟨h₁, by omega⟩))
  cases n with
  | processor p => exact ⟨p, hn, (h.nodes a _ hn).2⟩
  | memory m =>
      have : a = ps.numProcessors + 1 := (h.nodes a _ hn).1
      omega

theorem Valid.memory (h : Valid ps Q ic) :
    ∃ m, ic.nodeAt (ps.numProcessors + 1) = some (.memory m) ∧ m.Inv ps.numProcessors := by
  obtain ⟨n, hn⟩ := Option.isSome_iff_exists.mp
    (nodeAt_isSome.mpr ((h.keys (ps.numProcessors + 1)).mpr ⟨by omega, by omega⟩))
  cases n with
  | processor p =>
      have : ps.numProcessors + 1 ≤ ps.numProcessors := (h.nodes _ _ hn).1.2
      omega
  | memory m => exact ⟨m, hn, (h.nodes _ _ hn).2⟩

/-- What is known of the controller at an address. -/
structure ControllerOk (ps : Params) (Q : Instruction → Prop) (a : Nat) (c : Controller) :
    Prop where
  inv : c.Inv
  controllerType : c.controllerType = ps.controllerType
  nodeAddress : c.nodeAddress = a
  burstLen : c.burstLen = ps.burstLength
  range : 1 ≤ a ∧ a ≤ ps.numProcessors
  current : ∀ i, c.currentInstruction = some i → Q i

theorem Valid.controller (h : Valid ps Q ic) {c : Controller} (hc : controllerAt ic a = some c) :
    ControllerOk ps Q a c := by
  obtain ⟨p, hp, rfl⟩ := nodeAt_of_controllerAt hc
  obtain ⟨hr, ok⟩ := h.nodes a _ hp
  exact ⟨ok.inv.controller, ok.controllerType, ok.nodeAddress, ok.burstLen, hr, ok.inv.current⟩

/-- Controllers stay where they are. -/
theorem Valid.controllerAt_isSome (h : Valid ps Q ic) :
    (controllerAt ic a).isSome ↔ 1 ≤ a ∧ a ≤ ps.numProcessors := by
  constructor
  · intro h0
    obtain ⟨c, hc⟩ := Option.isSome_iff_exists.mp h0
    exact (h.controller hc).range
  · rintro ⟨h₁, h₂⟩
    obtain ⟨p, hp, _⟩ := h.processor h₁ h₂
    rw [controllerAt_of_nodeAt hp]; rfl

theorem Valid.both {ic' : Interconnect Node} (h : Valid ps Q ic) (h' : Valid ps Q ic') (a : Nat) :
    (∃ c c', controllerAt ic a = some c ∧ controllerAt ic' a = some c')
      ∨ controllerAt ic a = none ∧ controllerAt ic' a = none := by
  have hiff := h.controllerAt_isSome.trans (h'.controllerAt_isSome (a := a)).symm
  cases hc : controllerAt ic a with
  | some c =>
      rw [hc] at hiff
      obtain ⟨c', hc'⟩ := Option.isSome_iff_exists.mp (hiff.mp rfl)
      exact Or.inl ⟨c, c', rfl, hc'⟩
  | none =>
      rw [hc] at hiff
      cases hc' : controllerAt ic' a with
      | some c' => rw [hc'] at hiff; cases hiff.mpr rfl
      | none => exact Or.inr ⟨rfl, rfl⟩

theorem Valid.controllerBefore {ic' : Interconnect Node} (h : Valid ps Q ic) (h' : Valid ps Q ic')
    {c' : Controller} (hc' : controllerAt ic' a = some c') : ∃ c, controllerAt ic a = some c :=
  Option.isSome_iff_exists.mp (h.controllerAt_isSome.mpr (h'.controller hc').range)

theorem Valid.memoryOk (h : Valid ps Q ic) {m : Memory} (hm : memoryAt ic a = some m) :
    a = ps.numProcessors + 1 ∧ m.Inv ps.numProcessors :=
  h.nodes a _ (nodeAt_of_memoryAt hm)

end

/-- Every controller has just ticked. -/
def AllFresh (ic : Interconnect Node) : Prop := ∀ a c, controllerAt ic a = some c → c.Fresh

/-! ## The bus half -/

/-- A controller whose lock was brought up to date by the interconnect. -/
def Controller.polled (c : Controller) : Controller := { c with nodeIsLocked := c.bursting }

/-- What a node makes of a command of another. -/
inductive Accepted (r : BusRequest) : Node → Node → Prop
  | processor {p : Processor} {c : Controller} : Controller.Snooped r p.cacheController c →
      Accepted r (.processor p) (.processor { p with cacheController := c })
  | memory {m : Memory} : Accepted r (.memory m) (.memory (m.acceptBusTransaction r))

/-- What a chosen node puts on the bus. -/
inductive Served : Node → BusRequest → Node → Prop
  | processor {p : Processor} {r : BusRequest} {c : Controller} :
      Controller.Sent p.cacheController.polled r c →
      Served (.processor p) r (.processor { p with cacheController := c })
  | memory {m : Memory} {r : BusRequest} {rest : List BusRequest} : m.busReqQueue = r :: rest →
      Served (.memory m) r (.memory { m with
        nodeIsLocked := m.bursting
        busReqQueue := rest
        memSendCounts := m.memSendCounts + 1 })

/-- What travels on the bus. -/
structure OnBus (ps : Params) (r : BusRequest) : Prop where
  receivable : Controller.Receivable ps.controllerType r
  source : r.commandCode = .busRead ∨ r.commandCode = .busReadX →
    1 ≤ r.sourceAddress ∧ r.sourceAddress ≤ ps.numProcessors
  target : r.targetAddress ≠ BROADCAST_ADX → 1 ≤ r.targetAddress ∧ r.targetAddress ≤ ps.numProcessors

section

variable {ps : Params} {Q : Instruction → Prop} {ic ic' : Interconnect Node} {a : Nat} {r : BusRequest}

theorem relock_processor (p : Processor) :
    relock (Node.processor p) = .processor { p with cacheController := p.cacheController.polled } := by
  show (if p.cacheController.bursting then Node.onController p Controller.grantLock
    else Node.onController p Controller.releaseLock) = _
  cases hb : p.cacheController.bursting <;>
    simp [Node.onController, Controller.grantLock, Controller.releaseLock, Controller.polled, hb]

theorem relock_memory (m : Memory) :
    relock (Node.memory m) = .memory { m with nodeIsLocked := m.bursting } := by
  show (if m.bursting then Node.memory m.grantLock else Node.memory m.releaseLock) = _
  cases hb : m.bursting <;> simp [Memory.grantLock, Memory.releaseLock, hb]

/-- The bus has a processor's controller change, and nothing else of it. -/
theorem ProcessorOk.withController {p : Processor} (ok : ProcessorOk ps Q a p) {c : Controller}
    (hinv : c.Inv) (hsame : Controller.SameNode p.cacheController c)
    (hpending : c.pendingInstructionFlag = p.cacheController.pendingInstructionFlag)
    (hcurrent : c.currentInstruction = p.cacheController.currentInstruction) :
    ProcessorOk ps Q a { p with cacheController := c } :=
  ⟨⟨hinv, fun h0 => hpending.trans (ok.inv.idle h0), ok.inv.memoryOps, ok.inv.queue,
    fun i hi => ok.inv.current i (hcurrent ▸ hi)⟩, hsame.controllerType.trans ok.controllerType,
    hsame.nodeAddress.trans ok.nodeAddress, hsame.burstLen.trans ok.burstLen⟩

/-- Every node accepts what travels on the bus. -/
theorem NodeOk.accept {n : Node} (h : NodeOk ps Q a n) (hr : OnBus ps r) :
    ∃ n', acceptBusTransaction n r = .ok n' ∧ Accepted r n n' ∧ NodeOk ps Q a n'
      ∧ hasLock n' = hasLock n := by
  cases n with
  | processor p =>
      obtain ⟨hrange, ok⟩ := h
      have hrec : Controller.Receivable p.cacheController.controllerType r := by
        rw [ok.controllerType]; exact hr.receivable
      obtain ⟨c, hc, hs⟩ := ok.inv.controller.acceptBusTransaction hrec
      obtain ⟨_, hpending, hcurrent, _⟩ := hs.sameState
      refine ⟨.processor { p with cacheController := c }, ?_, .processor hs, ⟨hrange,
        ok.withController (hs.inv ok.inv.controller hrec) hs.sameNode hpending hcurrent⟩,
        hs.sameNode.nodeIsLocked⟩
      show (do pure (Node.processor { p with
        cacheController := ← p.cacheController.acceptBusTransaction r })) = _
      rw [hc]; rfl
  | memory m =>
      refine ⟨_, rfl, .memory, ⟨h.1, h.2.acceptBusTransaction hr.receivable.payload hr.source⟩, ?_⟩
      obtain ⟨l, hl⟩ := m.acceptBusTransaction_eq r
      show (m.acceptBusTransaction r).nodeIsLocked = m.nodeIsLocked
      rw [hl]

/-- A chosen node that has a request has one that can travel on the bus. -/
theorem NodeOk.serve {n : Node} (h : NodeOk ps Q a n)
    (hf : ∀ p, n = .processor p → p.cacheController.Fresh) (hreq : requestsTransaction n = true) :
    ∃ r n', initiateBusTransaction (relock n) = .ok (r, n') ∧ Served n r n' ∧ NodeOk ps Q a n'
      ∧ OnBus ps r ∧ r.sourceAddress = a ∧ hasLock n' = requestsLock n := by
  cases n with
  | processor p =>
      obtain ⟨hrange, ok⟩ := h
      -- it is polled first, which gives it the lock or takes it away
      have hinv : p.cacheController.polled.Inv := ok.inv.controller.frame
      have hpolled : ProcessorOk ps Q a { p with cacheController := p.cacheController.polled } :=
        ⟨⟨hinv, ok.inv.idle, ok.inv.memoryOps, ok.inv.queue, ok.inv.current⟩, ok.controllerType,
          ok.nodeAddress, ok.burstLen⟩
      obtain ⟨r, c, hc, hs⟩ := hinv.initiateBusTransaction (hf p rfl).settled id hreq
      obtain ⟨_, hpending, hcurrent, _⟩ := hs.sameState
      obtain ⟨htarget, hsource⟩ := hs.broadcast hinv
      have hsource : r.sourceAddress = a := hsource.trans ok.nodeAddress
      refine ⟨r, .processor { p with cacheController := c }, ?_, .processor hs, ⟨hrange,
        hpolled.withController (hs.inv hinv) hs.sameNode hpending hcurrent⟩, ⟨?_,
        fun _ => by rw [hsource]; exact hrange, fun h0 => absurd htarget h0⟩, hsource,
        hs.sameNode.nodeIsLocked⟩
      · rw [relock_processor]
        show (p.cacheController.polled.initiateBusTransaction >>= _) = _
        rw [hc]; rfl
      · have hrec := hs.receivable hinv
        rwa [hpolled.controllerType] at hrec
  | memory m =>
      obtain ⟨ha, hinv⟩ := h
      have hinv' : Memory.Inv ps.numProcessors { m with nodeIsLocked := m.bursting } :=
        ⟨hinv.nodeAddress, hinv.tracker, hinv.burst, hinv.queue⟩
      obtain ⟨r, rest, hq, hr, hkind, hinv''⟩ := hinv'.initiateBusTransaction hreq
      refine ⟨r, _, ?_, .memory hq, ⟨ha, hinv''⟩, ?_, ?_, rfl⟩
      · rw [relock_memory]
        show (Memory.initiateBusTransaction { m with nodeIsLocked := m.bursting } >>= _) = _
        rw [hr]; rfl
      · rcases hkind with h0 | h0
        · exact ⟨⟨h0.payload, fun _ => by simp [h0.code]⟩, fun h₁ => by simp [h0.code] at h₁,
            fun _ => h0.target⟩
        · exact ⟨⟨h0.payload, fun _ => by simp [h0.code]⟩, fun h₁ => by simp [h0.code] at h₁,
            fun h₁ => absurd h0.target h₁⟩
      · rcases hkind with h0 | h0 <;> rw [h0.source, ha]

/-- The nodes of a valid system can make their deliveries. -/
theorem Valid.deliverable (h : Valid ps Q ic) (hf : AllFresh ic) :
    ∀ a n, ic.nodeAt a = some n → ic.Deliverable a n := by
  intro a n hn hreq
  have hfresh : ∀ p, n = .processor p → p.cacheController.Fresh := by
    rintro p rfl
    exact hf a _ (controllerAt_of_nodeAt hn)
  obtain ⟨r, n', hinit, _, hok', hbus, _, hlock⟩ := (h.nodes a n hn).serve hfresh hreq
  refine ⟨r, n', hinit, hlock, fun ht => ?_, fun b m hm _ => ?_⟩
  · obtain ⟨h₁, h₂⟩ := hbus.target ht
    exact (h.keys _).mpr ⟨h₁, by omega⟩
  · have hmok : NodeOk ps Q b m := by
      split at hm
      · rename_i hba
        cases hm
        rw [hba]; exact hok'
      · exact h.nodes b m hm
    obtain ⟨m', hm', _, _, hkeep⟩ := hmok.accept hbus
    exact ⟨m', hm', hkeep⟩

/-- No controller asks for maximum priority. -/
def NoUrgent (ic : Interconnect Node) : Prop :=
  ∀ b c, controllerAt ic b = some c → c.maxPriorityQueue = []

/-- The bus half of a cycle, with the request that was on the bus. -/
inductive BusEvent (ps : Params) (ic : Interconnect Node) :
    Option BusRequest → Interconnect Node → Prop
  | quiet {ic' : Interconnect Node} :
      (∀ b c, controllerAt ic b = some c →
        ∃ l, controllerAt ic' b = some { c with nodeIsLocked := l }) →
      (∀ b m, memoryAt ic b = some m → ∃ l, memoryAt ic' b = some { m with nodeIsLocked := l }) →
      (ic'.nodeLocked = true → ic'.lockedAddress = ps.numProcessors + 1
        ∧ (ic.nodeLocked = true → ic.lockedAddress = ps.numProcessors + 1)
        ∧ (ic.nodeLocked = false → NoUrgent ic)) →
      (∀ c, ic.nodeLocked = true → controllerAt ic ic.lockedAddress = some c →
        c.requestsTransaction = false) →
      BusEvent ps ic none ic'
  | controller {a : Nat} {c c' : Controller} {r : BusRequest} {ic' : Interconnect Node} :
      controllerAt ic a = some c → r.sourceAddress = a → OnBus ps r →
      (ic.nodeLocked = true → ic.lockedAddress = a) →
      (ic.nodeLocked = false → c.maxPriorityQueue ≠ [] ∨ NoUrgent ic) →
      Controller.Sent c.polled r c' → controllerAt ic' a = some c' →
      (∀ b d, b ≠ a → controllerAt ic b = some d →
        ∃ d', Controller.Snooped r d d' ∧ controllerAt ic' b = some d') →
      (∀ b m, memoryAt ic b = some m → memoryAt ic' b = some (m.acceptBusTransaction r)) →
      ic'.nodeLocked = c.bursting → (c.bursting = true → ic'.lockedAddress = a) →
      BusEvent ps ic (some r) ic'
  | memory {m : Memory} {r : BusRequest} {rest : List BusRequest} {ic' : Interconnect Node} :
      memoryAt ic (ps.numProcessors + 1) = some m →
      r.sourceAddress = ps.numProcessors + 1 → OnBus ps r →
      (ic.nodeLocked = true → ic.lockedAddress = ps.numProcessors + 1) →
      (ic.nodeLocked = false → NoUrgent ic) → m.busReqQueue = r :: rest →
      memoryAt ic' (ps.numProcessors + 1) = some { m with
        nodeIsLocked := m.bursting
        busReqQueue := rest
        memSendCounts := m.memSendCounts + 1 } →
      (∀ b d, controllerAt ic b = some d → if Receives r b
        then ∃ d', Controller.Snooped r d d' ∧ controllerAt ic' b = some d'
        else controllerAt ic' b = some d) →
      ic'.nodeLocked = m.bursting → (m.bursting = true → ic'.lockedAddress = ps.numProcessors + 1) →
      BusEvent ps ic (some r) ic'

/-- A node that is served while nobody asks for maximum priority. -/
theorem noUrgent_of_forall (h : ∀ b m, ic.nodeAt b = some m → requestsMaxPriority m = false) :
    NoUrgent ic := by
  intro b c hc
  obtain ⟨p, hp, rfl⟩ := nodeAt_of_controllerAt hc
  have h0 : decide (0 < p.cacheController.maxPriorityQueue.length) = false := h b _ hp
  simpa using h0

theorem chosen_controller {p : Processor} (hc : ic.Chosen a (.processor p)) :
    (ic.nodeLocked = true → ic.lockedAddress = a)
      ∧ (ic.nodeLocked = false → p.cacheController.maxPriorityQueue ≠ [] ∨ NoUrgent ic) := by
  cases hc with
  | locked hl ha => exact ⟨fun _ => ha.symm, fun h0 => (by rw [hl] at h0; cases h0)⟩
  | maxPriority hl hm =>
      refine ⟨fun h0 => (by rw [hl] at h0; cases h0), fun _ => Or.inl ?_⟩
      have h0 : decide (0 < p.cacheController.maxPriorityQueue.length) = true := hm
      exact List.ne_nil_of_length_pos (by simpa using h0)
  | inOrder hl hno _ =>
      exact ⟨fun h0 => (by rw [hl] at h0; cases h0), fun _ => Or.inr (noUrgent_of_forall hno)⟩

theorem chosen_memory {m : Memory} (hc : ic.Chosen a (.memory m)) :
    (ic.nodeLocked = true → ic.lockedAddress = a) ∧ (ic.nodeLocked = false → NoUrgent ic) := by
  cases hc with
  | locked hl ha => exact ⟨fun _ => ha.symm, fun h0 => (by rw [hl] at h0; cases h0)⟩
  | maxPriority _ hm => cases hm
  | inOrder hl hno _ =>
      exact ⟨fun h0 => (by rw [hl] at h0; cases h0), fun _ => noUrgent_of_forall hno⟩

/-- A controller that asks for the lock has something to send. -/
theorem requestsTransaction_of_bursting {c : Controller} (hs : c.Settled)
    (hb : c.bursting = true) : c.requestsTransaction = true := by
  rw [hs] at hb
  cases hq : c.maxPriorityQueue with
  | nil => simp [hq] at hb
  | cons r rest => simp [Controller.requestsTransaction, hq]

/-- A node that is polled and sends nothing. -/
theorem Valid.poll (h : Valid ps Q ic) (hf : AllFresh ic) {n : Node} (hn : ic.nodeAt a = some n)
    (hc : ic.Chosen a n) (hreq : requestsTransaction n = false) (hr : ic.Relocked a n ic')
    (hat : ∀ b, ic'.nodeAt b = if b = a then some (relock n) else ic.nodeAt b) :
    (∀ b m, ic'.nodeAt b = some m → NodeOk ps Q b m) ∧ BusEvent ps ic none ic' := by
  have hok := h.nodes a n hn
  refine ⟨fun b m hm => ?_, .quiet (fun b c hcb => ?_) (fun b m hmb => ?_)
    (fun hlocked => ?_) fun c hlocked hcb => ?_⟩
  · rw [hat] at hm
    split at hm
    · rename_i hba
      cases hm
      rw [hba]
      cases n with
      | processor p =>
          rw [relock_processor]
          obtain ⟨hrange, hp⟩ := hok
          exact ⟨hrange, ⟨hp.inv.controller.frame, hp.inv.idle, hp.inv.memoryOps, hp.inv.queue,
            hp.inv.current⟩,
            hp.controllerType, hp.nodeAddress, hp.burstLen⟩
      | memory m =>
          rw [relock_memory]
          obtain ⟨ha, hm⟩ := hok
          exact ⟨ha, hm.nodeAddress, hm.tracker, hm.burst, hm.queue⟩
    · exact h.nodes b m hm
  · obtain ⟨p, hp, rfl⟩ := nodeAt_of_controllerAt hcb
    by_cases hba : b = a
    · subst hba
      rw [hn] at hp
      cases hp
      refine ⟨p.cacheController.bursting, controllerAt_of_nodeAt (p := { p with
        cacheController := p.cacheController.polled }) ?_⟩
      rw [hat, if_pos rfl, relock_processor]
    · refine ⟨p.cacheController.nodeIsLocked, controllerAt_of_nodeAt ?_⟩
      rw [hat, if_neg hba, hp]
  · have hm := nodeAt_of_memoryAt hmb
    by_cases hba : b = a
    · subst hba
      rw [hn] at hm
      cases hm
      refine ⟨m.bursting, memoryAt_of_nodeAt ?_⟩
      rw [hat, if_pos rfl, relock_memory]
    · refine ⟨m.nodeIsLocked, memoryAt_of_nodeAt ?_⟩
      rw [hat, if_neg hba, hm]
  · rw [hr.nodeLocked] at hlocked
    have haddr := hr.lockedAddress hlocked
    cases n with
    | processor p =>
        -- a controller asks for the lock only when it has a request
        have h0 := requestsTransaction_of_bursting (hf a _ (controllerAt_of_nodeAt hn)).settled hlocked
        rw [show p.cacheController.requestsTransaction = false from hreq] at h0
        cases h0
    | memory m =>
        obtain ⟨h₁, h₂⟩ := chosen_memory hc
        have ha : a = ps.numProcessors + 1 := hok.1
        exact ⟨haddr.trans ha, fun h0 => (h₁ h0).trans ha, h₂⟩
  · obtain ⟨p, hp, rfl⟩ := nodeAt_of_controllerAt hcb
    cases hc with
    | locked _ ha => rw [← ha, hn] at hp; cases hp; exact hreq
    | maxPriority hfree _ => rw [hfree] at hlocked; cases hlocked
    | inOrder hfree _ _ => rw [hfree] at hlocked; cases hlocked

/-- Everybody who a request is meant for accepts it. -/
theorem Valid.transfer (h : Valid ps Q ic) (hf : AllFresh ic) {n n' : Node}
    (hn : ic.nodeAt a = some n) (hc : ic.Chosen a n) (hreq : requestsTransaction n = true)
    (hinit : initiateBusTransaction (relock n) = .ok (r, n')) (hr : ic.Relocked a n ic')
    (hnone : ∀ b, ic.nodeAt b = none → ic'.nodeAt b = none)
    (hat : ∀ b m, (if b = a then some n' else ic.nodeAt b) = some m →
      if Receives r b then ∃ m', acceptBusTransaction m r = .ok m' ∧ ic'.nodeAt b = some m'
      else ic'.nodeAt b = some m) :
    (∀ b m, ic'.nodeAt b = some m → NodeOk ps Q b m) ∧ BusEvent ps ic (some r) ic' := by
  have hok := h.nodes a n hn
  obtain ⟨r₀, n₀, hinit₀, hserved, hok', hbus, hsrc, _⟩ := hok.serve
    (fun p hp => by subst hp; exact hf a _ (controllerAt_of_nodeAt hn)) hreq
  rw [hinit] at hinit₀
  cases hinit₀
  have accepted {b : Nat} {m : Node} (hm : (if b = a then some n' else ic.nodeAt b) = some m)
      (hrec : Receives r b) : ∃ m', Accepted r m m' ∧ NodeOk ps Q b m' ∧ ic'.nodeAt b = some m' := by
    have hmok : NodeOk ps Q b m := by
      split at hm
      · rename_i hba
        cases hm
        rw [hba]; exact hok'
      · exact h.nodes b m hm
    have hb := hat b m hm
    rw [if_pos hrec] at hb
    obtain ⟨m', hm', h'⟩ := hb
    obtain ⟨m₀, hm₀, hacc, hm₀ok, _⟩ := hmok.accept hbus
    rw [hm'] at hm₀
    cases hm₀
    exact ⟨m', hacc, hm₀ok, h'⟩
  have skipped {b : Nat} {m : Node} (hm : (if b = a then some n' else ic.nodeAt b) = some m)
      (hrec : ¬ Receives r b) : ic'.nodeAt b = some m := by
    have hb := hat b m hm
    rwa [if_neg hrec] at hb
  refine ⟨fun b m' hm' => ?_, ?_⟩
  · obtain ⟨m, hm⟩ : ∃ m, (if b = a then some n' else ic.nodeAt b) = some m := by
      by_cases hba : b = a
      · exact ⟨n', if_pos hba⟩
      · cases hm : ic.nodeAt b with
        | none => rw [hnone b hm] at hm'; cases hm'
        | some m => exact ⟨m, if_neg hba⟩
    by_cases hrec : Receives r b
    · obtain ⟨m₁, _, hm₁, h'⟩ := accepted hm hrec
      rw [hm'] at h'; cases h'
      exact hm₁
    · have h0 := skipped hm hrec
      rw [hm'] at h0; cases h0
      split at hm
      · rename_i hba
        cases hm
        rw [hba]; exact hok'
      · exact h.nodes b m' hm
  cases hserved with
  | @processor p _ c hs =>
      obtain ⟨hrange, hp⟩ := hok
      obtain ⟨htarget, _⟩ := hs.broadcast (hp.inv.controller.frame)
      obtain ⟨h₁, h₂⟩ := chosen_controller hc
      have receives (b : Nat) : Receives r b ↔ b ≠ a := by
        rw [Receives, if_pos htarget, hsrc]
      refine .controller (controllerAt_of_nodeAt hn) hsrc hbus h₁ h₂ hs
        (controllerAt_of_nodeAt (skipped (if_pos rfl) (by rw [receives]; simp)))
        (fun b d hba hd => ?_) (fun b m hm => ?_) hr.nodeLocked hr.lockedAddress
      · obtain ⟨q, hq, rfl⟩ := nodeAt_of_controllerAt hd
        obtain ⟨m', hacc, _, hm'⟩ := accepted (b := b) ((if_neg hba).trans hq) ((receives b).mpr hba)
        cases hacc with
        | processor hsn => exact ⟨_, hsn, controllerAt_of_nodeAt hm'⟩
      · have hm := nodeAt_of_memoryAt hm
        have hba : b ≠ a := by
          rintro rfl
          rw [hn] at hm; cases hm
        obtain ⟨m', hacc, _, hm'⟩ := accepted (b := b) ((if_neg hba).trans hm) ((receives b).mpr hba)
        cases hacc with
        | memory => exact memoryAt_of_nodeAt hm'
  | @memory m _ rest hq =>
      obtain ⟨ha, _⟩ := hok
      subst ha
      obtain ⟨h₁, h₂⟩ := chosen_memory hc
      -- memory answers a processor, or sends a null burst, but not to itself
      have hself : ¬ Receives r (ps.numProcessors + 1) := by
        unfold Receives
        split
        · rw [hsrc]; simp
        · rename_i ht
          have := hbus.target ht
          omega
      refine .memory (memoryAt_of_nodeAt hn) hsrc hbus h₁ h₂ hq
        (memoryAt_of_nodeAt (skipped (if_pos rfl) hself)) (fun b d hd => ?_) hr.nodeLocked
        hr.lockedAddress
      obtain ⟨q, hq', rfl⟩ := nodeAt_of_controllerAt hd
      have hba : b ≠ ps.numProcessors + 1 := by
        rintro rfl
        rw [hn] at hq'; cases hq'
      split
      · rename_i hrec
        obtain ⟨m', hacc, _, hm'⟩ := accepted (b := b) ((if_neg hba).trans hq') hrec
        cases hacc with
        | processor hsn => exact ⟨_, hsn, controllerAt_of_nodeAt hm'⟩
      · rename_i hrec
        exact controllerAt_of_nodeAt (skipped ((if_neg hba).trans hq') hrec)

/-- **The bus keeps the system valid**, and does nothing but what `BusEvent` says. -/
theorem Valid.busTick (h : Valid ps Q ic) (hf : AllFresh ic) {req : Option BusRequest}
    (hb : BusTick ic req ic') (hshape : ic'.Shape) (hkeys : ic'.nodes.keys = ic.nodes.keys) :
    Valid ps Q ic' ∧ BusEvent ps ic req ic' := by
  have hlock : ic'.LockOk := hb.lockOk h.lock fun a n hn _ => h.deliverable hf a n hn
  have hkeys' : ∀ a, a ∈ ic'.nodes.keys ↔ 1 ≤ a ∧ a ≤ ps.numProcessors + 1 := by
    rw [hkeys]; exact h.keys
  cases hb with
  | rest hfree hidle hfree' hat =>
      refine ⟨⟨hshape, hlock, hkeys', fun b m hm => h.nodes b m (hat b ▸ hm)⟩,
        .quiet (fun b c hc => ?_) (fun b m hm => ?_) (fun h0 => ?_) fun c h0 => ?_⟩
      · obtain ⟨p, hp, rfl⟩ := nodeAt_of_controllerAt hc
        exact ⟨_, controllerAt_of_nodeAt ((hat b).trans hp)⟩
      · exact ⟨_, memoryAt_of_nodeAt ((hat b).trans (nodeAt_of_memoryAt hm))⟩
      · rw [hfree'] at h0; cases h0
      · rw [hfree] at h0; cases h0
  | poll hn hc hreq hr hat =>
      obtain ⟨hnodes, hev⟩ := h.poll hf hn hc hreq hr hat
      exact ⟨⟨hshape, hlock, hkeys', hnodes⟩, hev⟩
  | transfer hn hc hreq hinit hr hnone hat =>
      obtain ⟨hnodes, hev⟩ := h.transfer hf hn hc hreq hinit hr hnone hat
      exact ⟨⟨hshape, hlock, hkeys', hnodes⟩, hev⟩

end

/-! ## The bus half, as one controller sees it -/

/-- What can happen to the controller at `a` in the bus half of a cycle. -/
inductive Passed (ps : Params) (a : Nat) (c : Controller) : Option BusRequest → Controller → Prop
  | quiet (l : Bool) : Passed ps a c none { c with nodeIsLocked := l }
  | sent {r : BusRequest} {c' : Controller} : r.sourceAddress = a → OnBus ps r →
      Controller.Sent c.polled r c' → Passed ps a c (some r) c'
  | received {r : BusRequest} {c' : Controller} : r.sourceAddress ≠ a → OnBus ps r →
      Controller.Snooped r c c' → Passed ps a c (some r) c'
  | missed {r : BusRequest} : r.sourceAddress = ps.numProcessors + 1 → Passed ps a c (some r) c

theorem BusEvent.passed {req : Option BusRequest} {ic' : Interconnect Node}
    (hev : BusEvent ps ic req ic')
    (h : Valid ps Q ic) (h' : Valid ps Q ic') {c' : Controller} (hc' : controllerAt ic' a = some c') :
    ∃ c, controllerAt ic a = some c ∧ Passed ps a c req c' := by
  obtain ⟨c, hc⟩ := h.controllerBefore h' hc'
  refine ⟨c, hc, ?_⟩
  cases hev with
  | quiet hctrl _ _ _ =>
      obtain ⟨l, hl⟩ := hctrl a c hc
      rw [hc'] at hl; cases hl
      exact .quiet l
  | @controller a₀ c₀ c₀' r _ hc₀ hsrc hbus _ _ hs hc₀' hother _ _ _ =>
      by_cases haa : a = a₀
      · subst haa
        rw [hc] at hc₀; cases hc₀
        rw [hc'] at hc₀'; cases hc₀'
        exact .sent hsrc hbus hs
      · obtain ⟨d, hsn, hd⟩ := hother a c haa hc
        rw [hc'] at hd; cases hd
        exact .received (fun h0 => haa (h0.symm.trans hsrc)) hbus hsn
  | memory _ hsrc hbus _ _ _ _ hother _ _ =>
      have hb := hother a c hc
      split at hb
      · obtain ⟨d, hsn, hd⟩ := hb
        rw [hc'] at hd; cases hd
        refine .received (fun h0 => ?_) hbus hsn
        have := (h.controller hc).range
        omega
      · -- an answer from memory is meant for one node
        rw [hc'] at hb; cases hb
        exact .missed hsrc

/-- The bus does not move the state machine. -/
theorem Passed.sameState {req : Option BusRequest} {c c' : Controller} (hp : Passed ps a c req c') :
    c'.currentState = c.currentState ∧ c'.pendingInstructionFlag = c.pendingInstructionFlag
      ∧ c'.currentInstruction = c.currentInstruction := by
  cases hp with
  | quiet => exact ⟨rfl, rfl, rfl⟩
  | sent _ _ hs => exact ⟨hs.sameState.1, hs.sameState.2.1, hs.sameState.2.2.1⟩
  | received _ _ hs => exact ⟨hs.sameState.1, hs.sameState.2.1, hs.sameState.2.2.1⟩
  | missed => exact ⟨rfl, rfl, rfl⟩

/-- Memory sends data and null bursts. -/
theorem BusEvent.code_of_memory {r : BusRequest} {ic' : Interconnect Node}
    (hev : BusEvent ps ic (some r) ic') (h : Valid ps Q ic)
    (hsrc : r.sourceAddress = ps.numProcessors + 1) :
    r.commandCode.Delivers ∨ r.commandCode = .nullBurst := by
  cases hev with
  | controller hc ha =>
      have := (h.controller hc).range
      omega
  | memory hm _ _ _ _ hq =>
      rcases (h.memoryOk hm).2.queue r (by rw [hq]; exact List.mem_cons_self) with h0 | h0
      · exact Or.inl (Or.inr (Or.inl h0.code))
      · exact Or.inr h0.code

/-! ## The bus half, as memory sees it -/

/-- What can happen to memory in the bus half of a cycle. -/
inductive Memory.Passed (ps : Params) (m : Memory) : Option BusRequest → Memory → Prop
  | sent {r : BusRequest} {rest : List BusRequest} : r.sourceAddress = ps.numProcessors + 1 →
      OnBus ps r → m.busReqQueue = r :: rest →
      Memory.Passed ps m (some r) { m with
        nodeIsLocked := m.bursting
        busReqQueue := rest
        memSendCounts := m.memSendCounts + 1 }
  | polled : m.busReqQueue = [] → Memory.Passed ps m none { m with nodeIsLocked := m.bursting }
  | heard {r : BusRequest} : r.sourceAddress ≠ ps.numProcessors + 1 → OnBus ps r →
      r.commandCode ≠ .dataReturnMemory → m.nodeIsLocked = false →
      Memory.Passed ps m (some r) (m.acceptBusTransaction r)
  | idle : m.nodeIsLocked = false → Memory.Passed ps m none m

theorem BusEvent.memoryPassed {req : Option BusRequest} {ic' : Interconnect Node}
    (hev : BusEvent ps ic req ic') (h : Valid ps Q ic) (hb : BusTick ic req ic') {m : Memory}
    (hm : memoryAt ic (ps.numProcessors + 1) = some m) :
    ∃ m', memoryAt ic' (ps.numProcessors + 1) = some m' ∧ Memory.Passed ps m req m' := by
  have hlock : m.nodeIsLocked = true ↔
      ic.nodeLocked = true ∧ ps.numProcessors + 1 = ic.lockedAddress :=
    h.lock.lock _ _ (nodeAt_of_memoryAt hm)
  have unlocked (h0 : ¬ (ic.nodeLocked = true ∧ ps.numProcessors + 1 = ic.lockedAddress)) :
      m.nodeIsLocked = false := by
    rw [← hlock] at h0
    simpa using h0
  cases hev with
  | quiet _ _ _ _ =>
      cases hb with
      | rest hfree _ _ hat =>
          refine ⟨m, memoryAt_of_nodeAt ((hat _).trans (nodeAt_of_memoryAt hm)), .idle (unlocked ?_)⟩
          simp [hfree]
      | @poll a n _ hn hc hreq _ hat =>
          by_cases ha : a = ps.numProcessors + 1
          · subst ha
            rw [nodeAt_of_memoryAt hm] at hn; cases hn
            refine ⟨_, memoryAt_of_nodeAt ((hat _).trans ((if_pos rfl).trans
              (congrArg some (relock_memory m)))), .polled ?_⟩
            have hreq : decide (0 < m.busReqQueue.length) = false := hreq
            simpa using hreq
          · refine ⟨m, memoryAt_of_nodeAt ((hat _).trans ((if_neg fun h0 => ha h0.symm).trans
              (nodeAt_of_memoryAt hm))), .idle (unlocked fun h0 => ?_)⟩
            -- whoever owns the lock is the one that is polled
            cases hc with
            | locked _ haddr => exact ha (haddr.trans h0.2.symm)
            | maxPriority hfree _ => rw [hfree] at h0; cases h0.1
            | inOrder hfree _ _ => rw [hfree] at h0; cases h0.1
  | controller hc hsrc hbus howner _ hs _ _ hmem _ _ =>
      have hr := (h.controller hc).range
      refine ⟨_, hmem _ m hm, .heard (by omega) hbus
        (hs.not_dataReturnMemory (h.controller hc).inv.frame) (unlocked fun h0 => ?_)⟩
      have := howner h0.1
      omega
  | memory hm' hsrc hbus _ _ hq hm'' _ _ _ =>
      rw [hm] at hm'; cases hm'
      exact ⟨_, hm'', .sent hsrc hbus hq⟩

end CoherenceSim
