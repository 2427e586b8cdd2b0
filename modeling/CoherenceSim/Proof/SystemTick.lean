import CoherenceSim.Proof.SystemInv

/-!
# Runs of the system

No call on a system runs into a fault, whatever came before it: `System.Ok` holds of a new
system and is kept by `insertInstruction` and by `tick`. `Cycle` says what a tick does, as
a first half in which every component ticks and a second half on the bus; everything about
runs is proved from it.
-/

namespace CoherenceSim

open BusNode Interconnect

/-- The invariant of a system. -/
structure System.Ok (ps : Params) (Q : Instruction → Prop) (s : System) : Prop where
  processors : s.processors = (List.range ps.numProcessors).map (· + 1)
  memory : s.memory = ps.numProcessors + 1
  valid : Valid ps Q s.interconnect

/-- The first half of a cycle. -/
structure Ticks (ic mid : Interconnect Node) : Prop where
  nodeLocked : mid.nodeLocked = ic.nodeLocked
  lockedAddress : mid.lockedAddress = ic.lockedAddress
  controller : ∀ a c, controllerAt ic a = some c →
    ∃ c', Controller.Ticked c c' ∧ controllerAt mid a = some c'
  memory : ∀ a m, memoryAt ic a = some m → ∃ m', Memory.Ticked m m' ∧ memoryAt mid a = some m'
  processorTick : ∀ a p, ic.nodeAt a = some (.processor p) →
    ∃ p', p.tick = .ok p' ∧ mid.nodeAt a = some (.processor p')
  memoryTick : ∀ a m, memoryAt ic a = some m → ∃ m', m.tick = .ok m' ∧ memoryAt mid a = some m'

/-- `Tick`, up to the interconnect. -/
def System.tickNodes (s : System) : Outcome System := do
  let s := { s with tickNumber := s.tickNumber + 1 }
  let s ← s.processors.reverse.foldlM tickProcessor s
  s.tickMemory

theorem System.tick_eq (s : System) : s.tick = s.tickNodes >>= tickInterconnect := by
  rw [tick, tickNodes]
  cases List.foldlM tickProcessor { s with tickNumber := s.tickNumber + 1 } s.processors.reverse <;>
    rfl

/-- A whole cycle. -/
structure Cycle (ps : Params) (Q : Instruction → Prop) (s mid : System) (req : Option BusRequest)
    (s' : System) : Prop where
  tickNodes : s.tickNodes = .ok mid
  tickInterconnect : mid.tickInterconnect = .ok (req, s')
  ticks : Ticks s.interconnect mid.interconnect
  valid : Valid ps Q mid.interconnect
  fresh : AllFresh mid.interconnect
  event : BusEvent ps mid.interconnect req s'.interconnect
  bus : BusTick mid.interconnect req s'.interconnect

/-! ## A new system -/

theorem Interconnect.Shape.addNode {ic : Interconnect Node} (h : ic.Shape) {a : Nat}
    (ha : a ∉ ic.nodes.keys) (h0 : a ≠ BROADCAST_ADX) (n : Node) :
    ∃ ic', ic.addNode n a = .ok ic' ∧ ic'.Shape ∧ ic'.nodeLocked = ic.nodeLocked
      ∧ (∀ b, b ∈ ic'.nodes.keys ↔ b = a ∨ b ∈ ic.nodes.keys)
      ∧ ∀ b, ic'.nodeAt b = if b = a then some (setAddress a n) else ic.nodeAt b := by
  have hnone : ic.hasNode a = false := by
    rw [hasNode, Bool.eq_false_iff]
    exact fun h1 => ha (OrdMap.find?_isSome.mp h1)
  have hat (b : Nat) : (ic.nodes.assign a (setAddress a n)).find? b
      = if b = a then some (setAddress a n) else ic.nodes.find? b :=
    OrdMap.find?_assign a _ ic.nodes b
  have hkeys (b : Nat) : b ∈ (ic.nodes.assign a (setAddress a n)).keys
      ↔ b = a ∨ b ∈ ic.nodes.keys := by
    rw [← OrdMap.find?_isSome, hat, ← OrdMap.find?_isSome]
    by_cases hba : b = a <;> simp [hba]
  refine ⟨{ ic with
    nodes := ic.nodes.assign a (setAddress a n)
    priorityQueue := ic.priorityQueue ++ [a] }, ?_, ⟨OrdMap.sorted_assign h.sorted, fun b => ?_⟩,
    rfl, hkeys, hat⟩
  · simp [Interconnect.addNode, hnone, h0]
  · rw [hkeys, ← h.queue b]
    simp [or_comm]

/-- An interconnect with the processors `1 … k`, none of which has done anything. -/
structure Built (ps : Params) (k : Nat) (ic : Interconnect Node) : Prop where
  shape : ic.Shape
  free : ic.nodeLocked = false
  keys : ∀ a, a ∈ ic.nodes.keys ↔ 1 ≤ a ∧ a ≤ k
  nodes : ∀ a n, ic.nodeAt a = some n →
    n = setAddress a (.processor (Processor.new ps.controllerType ps.burstLength))

theorem built_addProcessors {ps : Params} (m : Nat) : ∀ {k : Nat} {ic : Interconnect Node},
    Built ps k ic → ∃ ic', System.addProcessors ps.controllerType ps.burstLength
      (List.range' k m) ic = .ok ic' ∧ Built ps (k + m) ic' := by
  induction m with
  | zero => intro k ic h; exact ⟨ic, rfl, h⟩
  | succ m ih =>
      intro k ic h
      obtain ⟨ic₁, hadd, hshape, hlock, hkeys, hat⟩ := h.shape.addNode (a := k + 1)
        (by rw [h.keys]; omega) (by simp [BROADCAST_ADX])
        (.processor (Processor.new ps.controllerType ps.burstLength))
      have h₁ : Built ps (k + 1) ic₁ := by
        refine ⟨hshape, hlock.trans h.free, fun a => ?_, fun a n hn => ?_⟩
        · rw [hkeys, h.keys]; omega
        · rw [hat] at hn
          split at hn
          · rename_i ha; cases hn; rw [ha]
          · exact h.nodes a n hn
      obtain ⟨ic', hic', h'⟩ := ih h₁
      refine ⟨ic', ?_, by rwa [show k + 1 + m = k + (m + 1) by omega] at h'⟩
      rw [List.range'_succ, System.addProcessors, hadd, Outcome.ok_bind]
      exact hic'

/-- A system on which nothing was called yet. -/
structure System.Initial (ps : Params) (s : System) : Prop where
  ok (Q : Instruction → Prop) : s.Ok ps Q
  free : s.interconnect.nodeLocked = false
  controller : ∀ a c, controllerAt s.interconnect a = some c →
    c = (Controller.new ps.controllerType ps.burstLength).setAddress a
  memory : ∀ a m, memoryAt s.interconnect a = some m →
    m = (Memory.new ps.memoryLatency ps.burstLength).setAddress a
  processor : ∀ a p, s.interconnect.nodeAt a = some (.processor p) →
    .processor p = setAddress a (Node.processor (Processor.new ps.controllerType ps.burstLength))

/-- **No fault in the constructor.** -/
theorem System.new_spec (ps : Params) : ∃ s, System.new ps.numProcessors ps.controllerType
    ps.memoryLatency ps.burstLength = .ok s ∧ s.Initial ps := by
  have hempty : Built ps 0 (Interconnect.new : Interconnect Node) :=
    ⟨⟨List.Pairwise.nil, fun _ => Iff.rfl⟩, rfl, fun a => ⟨fun h => (by cases h), fun h => by omega⟩,
      fun _ _ h => (by cases h)⟩
  obtain ⟨ic₁, hic₁, h₁⟩ := built_addProcessors ps.numProcessors hempty
  rw [Nat.zero_add] at h₁
  obtain ⟨ic', hadd, hshape, hlock, hkeys, hat⟩ := h₁.shape.addNode (a := ps.numProcessors + 1)
    (by rw [h₁.keys]; omega) (by simp [BROADCAST_ADX])
    (.memory (Memory.new ps.memoryLatency ps.burstLength))
  have hfree : ic'.nodeLocked = false := hlock.trans h₁.free
  have hnode {a : Nat} {n : Node} (hn : ic'.nodeAt a = some n) :
      (a = ps.numProcessors + 1
        ∧ n = setAddress a (.memory (Memory.new ps.memoryLatency ps.burstLength)))
      ∨ ((1 ≤ a ∧ a ≤ ps.numProcessors)
        ∧ n = setAddress a (.processor (Processor.new ps.controllerType ps.burstLength))) := by
    rw [hat] at hn
    split at hn
    · rename_i ha
      cases hn
      exact Or.inl ⟨ha, by rw [ha]⟩
    · exact Or.inr ⟨(h₁.keys a).mp (nodeAt_isSome.mp (by rw [hn]; rfl)), h₁.nodes a n hn⟩
  refine ⟨{
    processors := (List.range ps.numProcessors).map (· + 1)
    memory := ps.numProcessors + 1
    interconnect := ic'
    tickNumber := 0 }, ?_, fun Q => ⟨rfl, rfl, hshape, ⟨fun a n hn => ?_, fun h0 => ?_⟩,
    fun a => ?_, fun a n hn => ?_⟩, hfree, fun a c hc => ?_, fun a m hm => ?_, fun a p hp => ?_⟩
  · rw [System.new, List.range_eq_range', hic₁, Outcome.ok_bind, hadd]
    rfl
  · rw [hfree]
    rcases hnode hn with ⟨_, rfl⟩ | ⟨_, rfl⟩ <;>
      exact ⟨fun h0 => (by cases h0), fun h0 => (by cases h0.1)⟩
  · rw [hfree] at h0; cases h0
  · rw [hkeys, h₁.keys]; omega
  · rcases hnode hn with ⟨rfl, rfl⟩ | ⟨hr, rfl⟩
    · exact ⟨rfl, rfl, fun p hp => (by cases hp), fun h0 => (by cases h0), fun r hr => (by cases hr)⟩
    · exact ⟨hr, ⟨Controller.inv_new _ _ a, fun _ => rfl, fun i hi => (by cases hi),
        fun i hi => (by cases hi), fun i hi => (by cases hi)⟩,
        rfl, rfl, rfl⟩
  · obtain ⟨p, hp, rfl⟩ := nodeAt_of_controllerAt hc
    rcases hnode hp with ⟨_, h0⟩ | ⟨_, h0⟩
    · cases h0
    · cases h0; rfl
  · rcases hnode (nodeAt_of_memoryAt hm) with ⟨_, h0⟩ | ⟨_, h0⟩
    · cases h0; rfl
    · cases h0
  · rcases hnode hp with ⟨_, h0⟩ | ⟨_, h0⟩
    · cases h0
    · exact h0

/-! ## Inserting an instruction -/

variable {ps : Params} {Q : Instruction → Prop}

/-- Insertion fills a processor's queue and leaves all else alone. -/
structure Inserted (s s' : System) : Prop where
  nodeLocked : s'.interconnect.nodeLocked = s.interconnect.nodeLocked
  lockedAddress : s'.interconnect.lockedAddress = s.interconnect.lockedAddress
  controller : ∀ a, controllerAt s'.interconnect a = controllerAt s.interconnect a
  memory : ∀ a, memoryAt s'.interconnect a = memoryAt s.interconnect a

theorem System.getProcessor_eq {s : System} {a : Nat} {p : Processor}
    (h : s.interconnect.nodeAt a = some (.processor p)) : s.getProcessor a = .ok p := by
  rw [System.getProcessor, getNode_eq h]
  rfl

theorem System.getMemory_eq {s : System} {m : Memory}
    (h : s.interconnect.nodeAt s.memory = some (.memory m)) : s.getMemory = .ok m := by
  rw [System.getMemory, getNode_eq h]
  rfl

/-- Replacing a node by one that is as good. -/
theorem Valid.putNode {ic : Interconnect Node} (h : Valid ps Q ic) {a : Nat} {n n' : Node}
    (hn : ic.nodeAt a = some n) (hn' : NodeOk ps Q a n') (hlock : hasLock n' = hasLock n) :
    Valid ps Q (ic.putNode a n') := by
  obtain ⟨hs, hkeys⟩ := h.shape.putNode hn n'
  refine ⟨hs, ⟨fun b m hm => ?_, fun h0 => ?_⟩, fun b => ?_, fun b m hm => ?_⟩
  · rw [nodeAt_putNode] at hm
    split at hm
    · rename_i hba
      cases hm
      rw [hlock, hba]
      exact h.lock.lock a n hn
    · exact h.lock.lock b m hm
  · rw [nodeAt_putNode]
    split
    · rfl
    · exact h.lock.locked h0
  · rw [hkeys]; exact h.keys b
  · rw [nodeAt_putNode] at hm
    split at hm
    · rename_i hba
      cases hm
      rw [hba]; exact hn'
    · exact h.nodes b m hm

/-- **No fault in `insertInstruction`**, if there is such a processor. -/
theorem System.Ok.insertInstruction {s : System} (h : s.Ok ps Q) {i : Instruction} (hi : Q i)
    {processorNum : Nat} (hnum : processorNum < ps.numProcessors) :
    ∃ s', s.insertInstruction i processorNum = .ok s' ∧ s'.Ok ps Q ∧ Inserted s s' := by
  have hlen : processorNum < s.processors.length := by rw [h.processors]; simpa using hnum
  have hget : s.processors[processorNum]? = some (processorNum + 1) := by
    rw [h.processors]; simp [hnum]
  obtain ⟨p, hp, ok⟩ := h.valid.processor (a := processorNum + 1) (by omega) (by omega)
  have hc := p.processInstruction_cacheController i
  have ok' : ProcessorOk ps Q (processorNum + 1) (p.processInstruction i) :=
    ⟨ok.inv.processInstruction hi, hc ▸ ok.controllerType, hc ▸ ok.nodeAddress, hc ▸ ok.burstLen⟩
  refine ⟨s.putNode (processorNum + 1) (.processor (p.processInstruction i)), ?_,
    ⟨h.processors, h.memory, h.valid.putNode hp ⟨⟨by omega, by omega⟩, ok'⟩ ?_⟩, rfl, rfl,
    fun a => ?_, fun a => ?_⟩
  · simp only [System.insertInstruction, hlen, decide_true, assertThat_true, Outcome.ok_bind, hget,
      System.getProcessor_eq hp]
    rfl
  · show (p.processInstruction i).cacheController.nodeIsLocked = p.cacheController.nodeIsLocked
    rw [hc]
  · simp only [controllerAt, System.putNode, nodeAt_putNode]
    by_cases ha : a = processorNum + 1
    · rw [if_pos ha, ha, hp]
      exact congrArg some hc
    · rw [if_neg ha]
  · simp only [memoryAt, System.putNode, nodeAt_putNode]
    by_cases ha : a = processorNum + 1
    · rw [if_pos ha, ha, hp]
    · rw [if_neg ha]

/-! ## A cycle -/

/-- A processor's tick, as a visit of the interconnect. -/
def Node.tickProcessor : Node → Outcome Node
  | .processor p => do pure (.processor (← p.tick))
  | .memory _ => throw .noSuchNode

theorem System.tickProcessor_eq (s : System) (a : Nat) : s.tickProcessor a
    = (visit Node.tickProcessor s.interconnect a).map fun ic => { s with interconnect := ic } := by
  rw [System.tickProcessor, System.getProcessor, visit]
  cases s.interconnect.getNode a with
  | error e => rfl
  | ok n =>
      cases n with
      | memory m => rfl
      | processor p =>
          simp only [Outcome.ok_bind, Node.tickProcessor, Outcome.pure_eq_ok]
          cases p.tick <;> rfl

theorem System.tickProcessors_eq (l : List Nat) : ∀ s : System, l.foldlM System.tickProcessor s
    = (l.foldlM (visit Node.tickProcessor) s.interconnect).map
        fun ic => { s with interconnect := ic } := by
  induction l with
  | nil => intro s; rfl
  | cons a l ih =>
      intro s
      rw [List.foldlM_cons, List.foldlM_cons, System.tickProcessor_eq]
      cases visit Node.tickProcessor s.interconnect a with
      | error e => rfl
      | ok ic => exact ih _

theorem Memory.Ticked.nodeIsLocked {m m' : Memory} (h : Memory.Ticked m m') :
    m'.nodeIsLocked = m.nodeIsLocked := by
  cases h <;> rfl

theorem ProcessorOk.tick {a : Nat} {p : Processor} (h : ProcessorOk ps Q a p) :
    ∃ p', p.tick = .ok p' ∧ ProcessorOk ps Q a p'
      ∧ Controller.Ticked p.cacheController p'.cacheController := by
  obtain ⟨p', hp', hinv, ht⟩ := h.inv.tick
  have hsame := ht.sameNode
  exact ⟨p', hp', ⟨hinv, hsame.controllerType.trans h.controllerType,
    hsame.nodeAddress.trans h.nodeAddress, hsame.burstLen.trans h.burstLen⟩, ht⟩

/-- All processors tick, one after the other, and nothing else happens. -/
theorem Valid.tickProcessors {ic : Interconnect Node} (h : Valid ps Q ic) {l : List Nat}
    (hl : l.Nodup) (hmem : ∀ a, a ∈ l ↔ 1 ≤ a ∧ a ≤ ps.numProcessors) :
    ∃ ic₁, l.foldlM (visit Node.tickProcessor) ic = .ok ic₁ ∧ Valid ps Q ic₁
      ∧ ic₁.nodeLocked = ic.nodeLocked ∧ ic₁.lockedAddress = ic.lockedAddress
      ∧ (∀ a c, controllerAt ic a = some c →
        ∃ c', Controller.Ticked c c' ∧ controllerAt ic₁ a = some c')
      ∧ (∀ a p, ic.nodeAt a = some (.processor p) →
        ∃ p', p.tick = .ok p' ∧ ic₁.nodeAt a = some (.processor p'))
      ∧ ∀ a, memoryAt ic₁ a = memoryAt ic a := by
  obtain ⟨ic₁, hic₁, hshape, hlocked, haddr, hkeys, hnodes⟩ := visit_spec (f := Node.tickProcessor) l
    h.shape hl fun a ha => by
      obtain ⟨p, hp, ok⟩ := h.processor ((hmem a).mp ha).1 ((hmem a).mp ha).2
      obtain ⟨p', hp', _⟩ := ok.tick
      exact ⟨.processor p, .processor p', hp, by rw [Node.tickProcessor, hp']; rfl⟩
  -- a processor has ticked
  have ticked {a : Nat} {p : Processor} (hp : ic.nodeAt a = some (.processor p)) :
      ∃ p', p.tick = .ok p' ∧ ic₁.nodeAt a = some (.processor p') ∧ ProcessorOk ps Q a p'
        ∧ Controller.Ticked p.cacheController p'.cacheController := by
    obtain ⟨hr, ok⟩ := h.nodes a _ hp
    obtain ⟨p', hp', ok', ht⟩ := ok.tick
    have ha := hnodes a
    rw [if_pos ((hmem a).mpr hr)] at ha
    obtain ⟨m, m', hm, hm', h'⟩ := ha
    rw [hp] at hm; cases hm
    rw [Node.tickProcessor, hp'] at hm'; cases hm'
    exact ⟨p', hp', h', ok', ht⟩
  -- memory was not visited
  have same {a : Nat} {m : Memory} (hm : ic.nodeAt a = some (.memory m)) :
      ic₁.nodeAt a = ic.nodeAt a := by
    obtain ⟨rfl, _⟩ := h.nodes a _ hm
    have ha := hnodes (ps.numProcessors + 1)
    rwa [if_neg fun h0 => by have := ((hmem _).mp h0).2; omega] at ha
  have stays (a : Nat) : (ic₁.nodeAt a).isSome = (ic.nodeAt a).isSome :=
    Bool.eq_iff_iff.mpr (by rw [nodeAt_isSome, nodeAt_isSome, hkeys])
  -- what is at an address now, and what was
  have before {a : Nat} {n : Node} (hn : ic₁.nodeAt a = some n) : ∃ n₀, ic.nodeAt a = some n₀
      ∧ NodeOk ps Q a n ∧ hasLock n = hasLock n₀ := by
    obtain ⟨n₀, hn₀⟩ := Option.isSome_iff_exists.mp ((stays a).symm.trans (hn ▸ rfl))
    cases n₀ with
    | memory m =>
        rw [same hn₀, hn₀] at hn; cases hn
        exact ⟨_, hn₀, h.nodes a _ hn₀, rfl⟩
    | processor p =>
        obtain ⟨p', _, hn', ok', ht⟩ := ticked hn₀
        rw [hn'] at hn; cases hn
        exact ⟨_, hn₀, ⟨(h.nodes a _ hn₀).1, ok'⟩, ht.sameNode.nodeIsLocked⟩
  refine ⟨ic₁, hic₁, ⟨hshape, ⟨fun a n hn => ?_, fun h0 => ?_⟩, fun a => ?_, fun a n hn => ?_⟩,
    hlocked, haddr, fun a c hc => ?_, fun a p hp => ?_, fun a => ?_⟩
  · obtain ⟨n₀, hn₀, _, heq⟩ := before hn
    rw [heq, hlocked, haddr]
    exact h.lock.lock a n₀ hn₀
  · rw [haddr, stays]
    exact h.lock.locked (hlocked ▸ h0)
  · rw [hkeys]; exact h.keys a
  · obtain ⟨_, _, hok, _⟩ := before hn
    exact hok
  · obtain ⟨p, hp, rfl⟩ := nodeAt_of_controllerAt hc
    obtain ⟨p', _, hn', _, ht⟩ := ticked hp
    exact ⟨_, ht, controllerAt_of_nodeAt hn'⟩
  · obtain ⟨p', hp', hn', _, _⟩ := ticked hp
    exact ⟨p', hp', hn'⟩
  · rw [memoryAt, memoryAt]
    cases hn : ic.nodeAt a with
    | none =>
        have hnone : ic₁.nodeAt a = none := by
          have hstays := stays a
          rw [hn] at hstays
          simpa using hstays
        rw [hnone]
    | some n =>
        cases n with
        | memory m => rw [same hn, hn]
        | processor p =>
            obtain ⟨p', _, hn', _, _⟩ := ticked hn
            rw [hn']

/-- Memory ticks, and nothing else happens. -/
theorem Valid.tickMemory {ic : Interconnect Node} (h : Valid ps Q ic) :
    ∃ m m', ic.nodeAt (ps.numProcessors + 1) = some (.memory m) ∧ m.tick = .ok m'
      ∧ Memory.Ticked m m' ∧ Valid ps Q (ic.putNode (ps.numProcessors + 1) (.memory m'))
      ∧ ∀ a, controllerAt (ic.putNode (ps.numProcessors + 1) (.memory m')) a = controllerAt ic a := by
  obtain ⟨m, hm, hinv⟩ := h.memory
  obtain ⟨m', hm', ht⟩ := hinv.tick
  refine ⟨m, m', hm, hm', ht, h.putNode hm ⟨rfl, ht.inv hinv⟩ ht.nodeIsLocked, fun a => ?_⟩
  rw [controllerAt, controllerAt, nodeAt_putNode]
  by_cases ha : a = ps.numProcessors + 1
  · rw [if_pos ha, ha, hm]
  · rw [if_neg ha]

theorem System.Ok.tickNodes {s : System} (h : s.Ok ps Q) :
    ∃ mid, s.tickNodes = .ok mid ∧ Ticks s.interconnect mid.interconnect ∧ mid.Ok ps Q := by
  obtain ⟨ic₁, hic₁, h₁, hlocked₁, haddr₁, hctrl₁, hproc₁, hmem₁⟩ := h.valid.tickProcessors
    (l := s.processors.reverse)
    (by
      rw [h.processors, List.Nodup, List.pairwise_reverse, List.pairwise_map]
      exact List.nodup_range.imp fun hne => by omega)
    (fun a => by
      rw [List.mem_reverse, h.processors, List.mem_map]
      constructor
      · rintro ⟨i, hi, rfl⟩
        have := List.mem_range.mp hi
        omega
      · rintro ⟨ha, ha'⟩
        exact ⟨a - 1, List.mem_range.mpr (by omega), by omega⟩)
  obtain ⟨m, m', hm, hm', ht, hmid, hctrl⟩ := h₁.tickMemory
  refine ⟨{ s with
    tickNumber := s.tickNumber + 1
    interconnect := ic₁.putNode (ps.numProcessors + 1) (.memory m') }, ?_,
    ⟨hlocked₁, haddr₁, fun a c hc => ?_, fun a m₀ hm₀ => ?_, fun a p hp => ?_, fun a m₀ hm₀ => ?_⟩,
    h.processors, h.memory, hmid⟩
  · rw [System.tickNodes]
    simp only [System.tickProcessors_eq, hic₁, Except.map, Outcome.ok_bind]
    rw [System.tickMemory, System.getMemory_eq (by rw [h.memory]; exact hm)]
    simp only [Outcome.ok_bind, hm', Outcome.pure_eq_ok, System.putNode, h.memory]
  · obtain ⟨c', hs, hc'⟩ := hctrl₁ a c hc
    exact ⟨c', hs, (hctrl a).trans hc'⟩
  · have ha := (h.valid.memoryOk hm₀).1
    rw [← hmem₁, ha, memoryAt_of_nodeAt hm] at hm₀
    cases hm₀
    exact ⟨m', ht, memoryAt_of_nodeAt (by rw [nodeAt_putNode, if_pos ha])⟩
  · obtain ⟨p', htick, hp'⟩ := hproc₁ a p hp
    have hr := (h.valid.nodes a _ hp).1.2
    exact ⟨p', htick, by rw [nodeAt_putNode, if_neg (by omega)]; exact hp'⟩
  · have ha := (h.valid.memoryOk hm₀).1
    rw [← hmem₁, ha, memoryAt_of_nodeAt hm] at hm₀
    cases hm₀
    exact ⟨m', hm', memoryAt_of_nodeAt (by rw [nodeAt_putNode, if_pos ha])⟩

/-- A controller after the first half has ticked. -/
theorem Ticks.controllerBefore {ic mid : Interconnect Node} (h : Ticks ic mid) (hv : Valid ps Q ic)
    (hmid : Valid ps Q mid) {a : Nat} {c' : Controller} (hc' : controllerAt mid a = some c') :
    ∃ c, controllerAt ic a = some c ∧ Controller.Ticked c c' := by
  obtain ⟨c, hc⟩ := hv.controllerBefore hmid hc'
  obtain ⟨c₁, ht, hc₁⟩ := h.controller a c hc
  rw [hc'] at hc₁; cases hc₁
  exact ⟨c, hc, ht⟩

/-- The memory after the first half has ticked. -/
theorem Ticks.memoryBefore {ic mid : Interconnect Node} (h : Ticks ic mid) (hv : Valid ps Q ic)
    {m' : Memory} (hm' : memoryAt mid (ps.numProcessors + 1) = some m') :
    ∃ m, memoryAt ic (ps.numProcessors + 1) = some m ∧ Memory.Ticked m m' := by
  obtain ⟨m, hm, _⟩ := hv.memory
  have hm := memoryAt_of_nodeAt hm
  obtain ⟨m₁, ht, hm₁⟩ := h.memory _ m hm
  rw [hm'] at hm₁; cases hm₁
  exact ⟨m, hm, ht⟩

/-- Everybody has ticked. -/
theorem Ticks.fresh {ic mid : Interconnect Node} (h : Ticks ic mid) (hv : Valid ps Q ic)
    (hmid : Valid ps Q mid) : AllFresh mid := by
  intro a c' hc'
  obtain ⟨c, _, ht⟩ := h.controllerBefore hv hmid hc'
  exact ht.fresh

/-- **No fault in a tick**, and nothing but a `Cycle`. -/
theorem System.Ok.tick {s : System} (h : s.Ok ps Q) :
    ∃ mid req s', s.tick = .ok (req, s') ∧ Cycle ps Q s mid req s' ∧ s'.Ok ps Q := by
  obtain ⟨mid, hnodes, hticks, hmid⟩ := h.tickNodes
  have hfresh := hticks.fresh h.valid hmid.valid
  obtain ⟨req, ic', htick, hbus, hshape, hkeys⟩ := hmid.valid.shape.tick hmid.valid.lock
    fun a n hn _ => hmid.valid.deliverable hfresh a n hn
  obtain ⟨hvalid, hev⟩ := hmid.valid.busTick hfresh hbus hshape hkeys
  have hinter : mid.tickInterconnect = .ok (req, { mid with interconnect := ic' }) := by
    rw [System.tickInterconnect, htick]; rfl
  exact ⟨mid, req, _, by rw [System.tick_eq, hnodes, Outcome.ok_bind, hinter],
    ⟨hnodes, hinter, hticks, hmid.valid, hfresh, hev, hbus⟩, hmid.processors, hmid.memory, hvalid⟩

/-! ## Runs -/

/-- A new system, and a sequence of calls on it. -/
def System.run (ps : Params) (events : List Event) : Outcome (List TickRecord × System) := do
  let s ← System.new ps.numProcessors ps.controllerType ps.memoryLatency ps.burstLength
  System.exec events ([], s)

/-- The instruction that is inserted, if any, satisfies `Q`. -/
def Event.Inserts (Q : Instruction → Prop) : Event → Prop
  | .insertInstruction i _ => Q i
  | .tick => True

instance (Q : Instruction → Prop) [DecidablePred Q] (e : Event) : Decidable (e.Inserts Q) := by
  unfold Event.Inserts; split <;> infer_instance

/-- The calls that name a processor name one that there is. -/
def Event.Ok (ps : Params) : Event → Prop
  | .insertInstruction _ processorNum => processorNum < ps.numProcessors
  | .tick => True

instance (ps : Params) (e : Event) : Decidable (e.Ok ps) := by
  unfold Event.Ok; split <;> infer_instance

/-- Insert an instruction; the address is converted to an `unsigned long long`. -/
def Event.insert (opcode : Opcode) (address processorNum : Nat) : Event :=
  .insertInstruction ⟨opcode, address % 2 ^ 64, Nat.mod_lt _ (by decide)⟩ processorNum

/-- An instruction is only ever inserted at a processor that there is. -/
theorem System.Ok.insertInstruction_lt {s s' : System} (h : s.Ok ps Q) {i : Instruction}
    {processorNum : Nat} (heq : s.insertInstruction i processorNum = .ok s') :
    processorNum < ps.numProcessors := by
  rw [System.insertInstruction] at heq
  obtain ⟨_, ha, _⟩ := Outcome.bind_eq_ok.mp heq
  have hlen := assertThat_eq_ok.mp ha
  rw [h.processors] at hlen
  simpa using hlen

theorem System.Ok.of_insertInstruction {s s' : System} (h : s.Ok ps Q) {i : Instruction} (hi : Q i)
    {processorNum : Nat} (heq : s.insertInstruction i processorNum = .ok s') :
    s'.Ok ps Q ∧ Inserted s s' := by
  obtain ⟨s₁, hs₁, hok, hins⟩ := h.insertInstruction hi (h.insertInstruction_lt heq)
  rw [heq] at hs₁; cases hs₁
  exact ⟨hok, hins⟩

/-- The processor that is named gets the instruction. -/
theorem System.Ok.insertInstruction_eq {s s' : System} (h : s.Ok ps Q) {i : Instruction}
    {processorNum : Nat} (heq : s.insertInstruction i processorNum = .ok s') :
    ∃ p, s.interconnect.nodeAt (processorNum + 1) = some (.processor p)
      ∧ s' = s.putNode (processorNum + 1) (.processor (p.processInstruction i)) := by
  have hnum := h.insertInstruction_lt heq
  rw [System.insertInstruction] at heq
  obtain ⟨_, _, heq⟩ := Outcome.bind_eq_ok.mp heq
  obtain ⟨p, hp, _⟩ := h.valid.processor (a := processorNum + 1) (by omega) (by omega)
  have hget : s.processors[processorNum]? = some (processorNum + 1) := by
    rw [h.processors]; simp [hnum]
  refine ⟨p, hp, ?_⟩
  simp only [hget, System.getProcessor_eq hp, Outcome.ok_bind] at heq
  cases heq
  rfl

section

variable {P : List Event → List TickRecord → System → Prop}
  (insertInstruction : ∀ past h s s' i n, s.Ok ps Q → s'.Ok ps Q → Q i →
    s.insertInstruction i n = .ok s' → P past h s → P (past ++ [.insertInstruction i n]) h s')
  (tick : ∀ past h s mid req s', s.Ok ps Q → s'.Ok ps Q → Cycle ps Q s mid req s' → P past h s →
    P (past ++ [.tick]) (⟨s, req, s'⟩ :: h) s')

include insertInstruction tick

theorem System.exec_events_induct (events : List Event) (hev : ∀ e ∈ events, e.Inserts Q) :
    ∀ {past : List Event} {h h' : List TickRecord} {s s' : System}, s.Ok ps Q → P past h s →
      System.exec events (h, s) = .ok (h', s') → s'.Ok ps Q ∧ P (past ++ events) h' s' := by
  induction events with
  | nil =>
      intro past h h' s s' hok hP heq
      cases heq
      exact ⟨hok, by rwa [List.append_nil]⟩
  | cons e rest ih =>
      intro past h h' s s' hok hP heq
      have hrest := fun e he => hev e (List.mem_cons_of_mem _ he)
      rw [show past ++ e :: rest = (past ++ [e]) ++ rest by simp]
      cases e with
      | insertInstruction i n =>
          obtain ⟨s₁, hs₁, heq⟩ := Outcome.bind_eq_ok.mp heq
          have hi : Q i := hev _ List.mem_cons_self
          obtain ⟨hok₁, _⟩ := hok.of_insertInstruction hi hs₁
          exact ih hrest hok₁ (insertInstruction _ _ _ _ _ _ hok hok₁ hi hs₁ hP) heq
      | tick =>
          obtain ⟨⟨req, s₁⟩, hs₁, heq⟩ := Outcome.bind_eq_ok.mp heq
          obtain ⟨mid, req', s₁', hs₁', hcycle, hok₁⟩ := hok.tick
          rw [hs₁] at hs₁'; cases hs₁'
          exact ih hrest hok₁ (tick _ _ _ mid _ _ hok hok₁ hcycle hP) heq

/-- **Induction over runs**, with the calls made so far. -/
theorem System.run_events_induct (new : ∀ s, s.Initial ps → P [] [] s) {events : List Event}
    (hev : ∀ e ∈ events, e.Inserts Q) {h : List TickRecord} {s : System}
    (hrun : System.run ps events = .ok (h, s)) : s.Ok ps Q ∧ P events h s := by
  obtain ⟨s₀, hs₀, hinit⟩ := System.new_spec ps
  rw [System.run, hs₀, Outcome.ok_bind] at hrun
  exact System.exec_events_induct insertInstruction tick events hev (hinit.ok Q) (new s₀ hinit) hrun

end

/-- **Induction over runs.** Every call is made in a valid system, and every tick is a
cycle. -/
theorem System.run_induct {P : List TickRecord → System → Prop}
    (insertInstruction : ∀ h s s', s.Ok ps Q → s'.Ok ps Q → Inserted s s' → P h s → P h s')
    (tick : ∀ h s mid req s', s.Ok ps Q → s'.Ok ps Q → Cycle ps Q s mid req s' → P h s →
      P (⟨s, req, s'⟩ :: h) s')
    (new : ∀ s, s.Initial ps → P [] s) {events : List Event}
    (hev : ∀ e ∈ events, e.Inserts Q) {h : List TickRecord} {s : System}
    (hrun : System.run ps events = .ok (h, s)) : s.Ok ps Q ∧ P h s :=
  System.run_events_induct (P := fun _ h s => P h s)
    (fun _ h s s' _ _ hok hok' hi heq => insertInstruction h s s' hok hok'
      (hok.of_insertInstruction hi heq).2)
    (fun _ => tick) new hev hrun

theorem System.exec_append (events events' : List Event) : ∀ hs,
    System.exec (events ++ events') hs = System.exec events hs >>= System.exec events' := by
  induction events with
  | nil => intro hs; rfl
  | cons e rest ih =>
      intro ⟨h, s⟩
      cases e with
      | insertInstruction i processorNum =>
          simp only [List.cons_append, System.exec]
          cases s.insertInstruction i processorNum with
          | error e => rfl
          | ok s₁ => exact ih _
      | tick =>
          simp only [List.cons_append, System.exec]
          cases s.tick with
          | error e => rfl
          | ok p => exact ih _

theorem System.run_append (ps : Params) (events events' : List Event) :
    System.run ps (events ++ events') = System.run ps events >>= System.exec events' := by
  rw [System.run, System.run]
  cases System.new ps.numProcessors ps.controllerType ps.memoryLatency ps.burstLength with
  | error e => rfl
  | ok s => exact System.exec_append events events' _

/-- Every run is a sequence of calls. -/
theorem Run.exists_run {h : List TickRecord} {s : System} (hrun : Run ps h s) :
    ∃ events, System.run ps events = .ok (h, s) := by
  induction hrun with
  | new heq => exact ⟨[], by rw [System.run, heq]; rfl⟩
  | @insertInstruction h s s' i n _ heq ih =>
      obtain ⟨events, hs⟩ := ih
      refine ⟨events ++ [.insertInstruction i n], ?_⟩
      rw [System.run_append, hs, Outcome.ok_bind, System.exec, heq]
      rfl
  | @tick h s s' req _ heq ih =>
      obtain ⟨events, hs⟩ := ih
      refine ⟨events ++ [.tick], ?_⟩
      rw [System.run_append, hs, Outcome.ok_bind, System.exec, heq]
      rfl

/-- The runs are the sequences of calls. -/
theorem Run.exec (events : List Event) : ∀ {h h' : List TickRecord} {s s' : System},
    Run ps h s → System.exec events (h, s) = .ok (h', s') → Run ps h' s' := by
  induction events with
  | nil => intro h h' s s' hrun heq; cases heq; exact hrun
  | cons e rest ih =>
      intro h h' s s' hrun heq
      cases e with
      | insertInstruction i processorNum =>
          obtain ⟨s₁, hs₁, hrest⟩ := Outcome.bind_eq_ok.mp heq
          exact ih (.insertInstruction i processorNum hrun hs₁) hrest
      | tick =>
          obtain ⟨⟨req, s₁⟩, hs₁, hrest⟩ := Outcome.bind_eq_ok.mp heq
          exact ih (.tick hrun hs₁) hrest

theorem Run.of_system_run {events : List Event} {h : List TickRecord} {s : System}
    (hrun : System.run ps events = .ok (h, s)) : Run ps h s := by
  obtain ⟨s₀, hs₀, hexec⟩ := Outcome.bind_eq_ok.mp hrun
  exact .exec events (.new hs₀) hexec

/-- Induction over runs, when nothing is assumed of the instructions. -/
theorem Run.induct {P : List TickRecord → System → Prop} (new : ∀ s, s.Initial ps → P [] s)
    (insertInstruction : ∀ h s s', s.Ok ps (fun _ => True) → s'.Ok ps (fun _ => True) →
      Inserted s s' → P h s → P h s')
    (tick : ∀ h s mid req s', s.Ok ps (fun _ => True) → s'.Ok ps (fun _ => True) →
      Cycle ps (fun _ => True) s mid req s' → P h s → P (⟨s, req, s'⟩ :: h) s')
    {h : List TickRecord} {s : System} (hrun : Run ps h s) : P h s := by
  obtain ⟨events, hevents⟩ := hrun.exists_run
  refine (System.run_induct insertInstruction tick new (fun e _ => ?_) hevents).2
  cases e <;> trivial

/-- **Every reachable state is valid.** -/
theorem Run.ok {h : List TickRecord} {s : System} (hrun : Run ps h s) :
    s.Ok ps fun _ => True :=
  Run.induct (P := fun _ s => s.Ok ps fun _ => True) (fun _ hs => hs.ok _)
    (fun _ _ _ _ hok' _ _ => hok') (fun _ _ _ _ _ _ hok' _ _ => hok') hrun

/-- Every tick of a run was a cycle. -/
theorem Run.cycle {h : List TickRecord} {s : System} (hrun : Run ps h s) :
    ∀ rec ∈ h, ∃ mid, Cycle ps (fun _ => True) rec.before mid rec.sent rec.after := by
  refine Run.induct (P := fun h _ => ∀ rec ∈ h, ∃ mid,
    Cycle ps (fun _ => True) rec.before mid rec.sent rec.after)
    (fun s _ rec hrec => (by cases hrec)) (fun _ _ _ _ _ _ ih => ih) ?_ hrun
  intro h s mid req s' _ _ hcycle ih rec hrec
  rcases List.mem_cons.mp hrec with rfl | hrec
  · exact ⟨mid, hcycle⟩
  · exact ih rec hrec

/-- Every record of a run is of a tick that ended a shorter one. -/
theorem Run.of_split {h : List TickRecord} {s : System} (hrun : Run ps h s) :
    ∀ newer rec older, h = newer ++ rec :: older →
      Run ps older rec.before ∧ rec.before.tick = .ok (rec.sent, rec.after) := by
  induction hrun with
  | new => intro newer rec older h0; simp at h0
  | insertInstruction _ _ _ _ ih => exact ih
  | tick hrun heq ih =>
      intro newer rec older h0
      cases newer with
      | nil =>
          obtain ⟨rfl, rfl⟩ := List.cons.inj h0
          exact ⟨hrun, heq⟩
      | cons _ newer => exact ih newer rec older (List.cons.inj h0).2

/-- Counting ticks: the latest one, and those before it. -/
theorem TickRecord.countP_cons (f : TickRecord → Bool) (x : TickRecord) (h : List TickRecord) :
    (x :: h).countP f = h.countP f + (f x).toNat := by
  rw [List.countP_cons]
  cases f x <;> rfl

theorem TickRecord.countP_eq_zero {f : TickRecord → Bool} {h : List TickRecord} :
    h.countP f = 0 ↔ ∀ x ∈ h, f x = false := by
  simp only [List.countP_eq_zero, Bool.not_eq_true]

/-- A run that exists because it can be computed. -/
theorem System.exists_run (ps : Params) (events : List Event)
    (p : List TickRecord → System → Bool)
    (h : (System.run ps events).toOption.any (fun hs => p hs.1 hs.2) = true) :
    ∃ h s, System.run ps events = .ok (h, s) ∧ p h s = true := by
  obtain ⟨hs, hrun, hp⟩ := Outcome.any_toOption.mp h
  exact ⟨hs.1, hs.2, hrun, hp⟩

theorem Run.of_run (ps : Params) (events : List Event) (p : List TickRecord → System → Bool)
    (h : (System.run ps events).toOption.any (fun hs => p hs.1 hs.2) = true) :
    ∃ h s, Run ps h s ∧ p h s = true := by
  obtain ⟨h, s, hrun, hp⟩ := System.exists_run ps events p h
  exact ⟨h, s, .of_system_run hrun, hp⟩

/-! ## No fault -/

/-- No call on a valid system runs into a fault. -/
theorem System.Ok.exec (events : List Event) (hev : ∀ e ∈ events, e.Ok ps) :
    ∀ {h : List TickRecord} {s : System}, s.Ok ps (fun _ => True) →
      ∃ h' s', System.exec events (h, s) = .ok (h', s') := by
  induction events with
  | nil => intro h s _; exact ⟨h, s, rfl⟩
  | cons e rest ih =>
      intro h s hok
      have hrest := fun e he => hev e (List.mem_cons_of_mem _ he)
      have he := hev e List.mem_cons_self
      cases e with
      | insertInstruction i processorNum =>
          obtain ⟨s₁, hs₁, hok₁, _⟩ := hok.insertInstruction (i := i) trivial he
          obtain ⟨h', s', hs'⟩ := ih hrest (h := h) hok₁
          exact ⟨h', s', by rw [System.exec, hs₁, Outcome.ok_bind, hs']⟩
      | tick =>
          obtain ⟨_, req, s₁, hs₁, _, hok₁⟩ := hok.tick
          obtain ⟨h', s', hs'⟩ := ih hrest (h := ⟨s, req, s₁⟩ :: h) hok₁
          exact ⟨h', s', by rw [System.exec, hs₁, Outcome.ok_bind]; exact hs'⟩

/-- **No assertion fires**, and no other fault occurs: every sequence of calls that names
processors that exist goes through, on a system of any size and kind. -/
theorem no_assertion_fires (ps : Params) (events : List Event) (hev : ∀ e ∈ events, e.Ok ps) :
    ∃ h s, System.run ps events = .ok (h, s) := by
  obtain ⟨s, hs, hinit⟩ := System.new_spec ps
  obtain ⟨h, s', hs'⟩ := (hinit.ok _).exec events hev (h := [])
  exact ⟨h, s', by rw [System.run, hs, Outcome.ok_bind, hs']⟩

/-- Two processors store to one line, the second while the first waits for it, and both stores are
done. -/
theorem no_assertion_fires_two_stores : ∃ h s, System.run ⟨2, .mesi, 3, 2⟩
    ([.insert .store 64 0, .tick, .tick, .insert .store 64 1] ++ List.replicate 20 .tick)
      = .ok (h, s)
    ∧ (controllerAt s.interconnect 2).any (fun c => c.cache.isModified 64 = .ok true) = true := by
  obtain ⟨h, s, hrun⟩ := no_assertion_fires ⟨2, .mesi, 3, 2⟩
    ([.insert .store 64 0, .tick, .tick, .insert .store 64 1] ++ List.replicate 20 .tick) (by decide)
  obtain ⟨h', s', hrun', hmod⟩ := System.exists_run ⟨2, .mesi, 3, 2⟩ _ (fun _ s =>
    (controllerAt s.interconnect 2).any fun c => c.cache.isModified 64 = .ok true)
    (show (System.run _ ([.insert .store 64 0, .tick, .tick, .insert .store 64 1]
      ++ List.replicate 20 .tick)).toOption.any _ = true by decide +kernel)
  rw [hrun] at hrun'
  cases hrun'
  exact ⟨h, s, hrun, hmod⟩

end CoherenceSim
