import CoherenceSim.Proof.ProcessorTurn

/-!
# Instructions are executed in order

What a processor was given is what it has handed to its controller, followed by what is still
in its queue. `numberMemoryOperations` counts what was handed over, and so do the hits and misses
of the controller, which lag behind by the one instruction it has not looked up yet.
-/

namespace CoherenceSim

open BusNode

/-- The instructions handed over at this address so far, in order. -/
def handedOver (a : Nat) : List TickRecord → List Instruction
  | [] => []
  | tick :: older =>
      handedOver a older ++ (match tick.before.interconnect.nodeAt a with
        | some (.processor p) => p.handsOver.toList
        | _ => [])

/-- The loads and stores given to the processor at this address, in order. -/
def givenTo (a : Nat) : List Event → List Instruction
  | [] => []
  | .insertInstruction i processorNum :: rest =>
      if processorNum + 1 = a ∧ Processor.isMemoryOp i then i :: givenTo a rest else givenTo a rest
  | .tick :: rest => givenTo a rest

/-- What the controller has counted. -/
def Controller.counted (c : Controller) : Nat :=
  c.loadHits + c.loadMisses + c.storeHits + c.storeMisses

/-- One instruction is pending that was not looked up yet. -/
def Controller.waiting (c : Controller) : Nat :=
  if c.pendingInstructionFlag = true ∧ c.currentState = .idleState then 1 else 0

namespace Controller

variable {c c' : Controller} {d : BusRequest}

theorem waiting_of_busy (hs : c.currentState ≠ .idleState) : c.waiting = 0 :=
  if_neg fun h => hs h.2

theorem waiting_of_not_pending (hp : c.pendingInstructionFlag = false) : c.waiting = 0 :=
  if_neg fun h => by rw [hp] at h; cases h.1

theorem waiting_of_pending (hs : c.currentState = .idleState)
    (hp : c.pendingInstructionFlag = true) : c.waiting = 1 := if_pos ⟨hp, hs⟩

/-- **Every lookup is counted once**, when the instruction stops waiting. -/
theorem Transitioned.counted (hs : Transitioned c c') :
    c'.counted + c'.waiting = c.counted + c.waiting := by
  -- neither before nor after does an instruction wait
  have busy (h : c.waiting = 0) (h' : c'.waiting = 0) (heq : c'.counted = c.counted) :
      c'.counted + c'.waiting = c.counted + c.waiting := by rw [h, h', heq]
  cases hs with
  | rest _ hp => exact busy (waiting_of_not_pending hp) (waiting_of_not_pending rfl) rfl
  | retire hs =>
      refine busy (waiting_of_busy ?_) (waiting_of_not_pending rfl) rfl
      rcases hs with hs | hs | hs <;> simp [hs]
  | wait => rfl
  | invalidateQueued hs => exact busy (waiting_of_busy (by simp [hs])) (waiting_of_busy (by simp)) rfl
  | loadHit hs hp | loadMiss hs hp | storeHit hs hp | storeShared hs hp | storeMiss hs hp =>
      rw [waiting_of_pending hs hp, waiting_of_busy (by exact fun h => by cases h)]
      simp only [Controller.counted, queueBusCommand, queueMaxPriorityBusCommand,
        addNewBusRequest, addNewMaxPriorityBusRequest]
      omega
  | loadDropped hs | loadFilled hs | storeDropped hs | storeFilled hs =>
      exact busy (waiting_of_busy (by simp [hs])) (waiting_of_busy (by exact fun h => by cases h)) rfl

theorem Snooped.sameCount (hs : Snooped d c c') : c'.counted = c.counted := by
  cases hs <;> rfl

theorem Sent.sameCount (hs : Sent c d c') : c'.counted = c.counted := by
  cases hs <;> rfl

end Controller

namespace Processor

variable {Q : Instruction → Prop} {p p' : Processor}

/-- A tick of a processor, from the point of view of its program: it hands over `o`. -/
structure Fed (p : Processor) (o : Option Instruction) (p' : Processor) : Prop where
  queue : p.instrQueue = o.toList ++ p'.instrQueue
  memoryOps : p'.numberMemoryOperations = p.numberMemoryOperations + o.toList.length
  counted : p'.cacheController.counted + p'.cacheController.waiting
    = p.cacheController.counted + p.cacheController.waiting + o.toList.length

/-- **A turn hands over the front of the queue, or nothing.** -/
theorem Turn.fed {c : Controller} {o : Option Instruction} (ht : p.Turn c o p')
    (hcount : c.counted + c.waiting = p.cacheController.counted + p.cacheController.waiting) :
    p.Fed o p' := by
  cases ht with
  | rests | waits => exact ⟨rfl, rfl, hcount⟩
  | @handsOver i rest _ hrest hpending hidle =>
      refine ⟨hrest, rfl, ?_⟩
      -- the controller had no instruction, and now has one that waits
      have hw : c.waiting = 0 := Controller.waiting_of_not_pending hpending
      have hw' : (c.withInstruction i).waiting = 1 := Controller.waiting_of_pending hidle rfl
      rw [hw] at hcount
      rw [← hcount]
      show c.counted + (c.withInstruction i).waiting = _
      rw [hw']
      rfl

theorem Inv.fed (h : p.Inv Q) (htick : p.tick = .ok p') : p.Fed p.handsOver p' := by
  obtain ⟨c₁, -, hs, hturn⟩ := h.turn htick
  exact hturn.fed hs.counted

end Processor

/-! ## Runs -/

/-- A processor that was given these instructions and has handed over those. -/
structure Follows (given handed : List Instruction) (p : Processor) : Prop where
  given : given = handed ++ p.instrQueue
  memoryOps : handed.length = p.numberMemoryOperations
  counted : p.numberMemoryOperations = p.cacheController.counted + p.cacheController.waiting

/-- Every processor follows its program. -/
def AllFollow (events : List Event) (h : List TickRecord) (ic : Interconnect Node) : Prop :=
  ∀ a p, ic.nodeAt a = some (.processor p) → Follows (givenTo a events) (handedOver a h) p

variable {ps : Params} {Q : Instruction → Prop} {events : List Event} {h : List TickRecord}
  {s mid s' : System} {req : Option BusRequest}

theorem Passed.sameCount {a : Nat} {c c' : Controller} (hp : Passed ps a c req c') :
    c'.counted = c.counted := by
  cases hp with
  | quiet | missed => rfl
  | sent _ _ hs => exact hs.sameCount
  | received _ _ hs => exact hs.sameCount

theorem handedOver_cons {a : Nat} {p : Processor} (hp : s.interconnect.nodeAt a = some (.processor p)) :
    handedOver a (⟨s, req, s'⟩ :: h) = handedOver a h ++ p.handsOver.toList := by
  simp only [handedOver, hp]

theorem givenTo_append (a : Nat) (events events' : List Event) :
    givenTo a (events ++ events') = givenTo a events ++ givenTo a events' := by
  induction events with
  | nil => rfl
  | cons e rest ih =>
      cases e with
      | insertInstruction i n =>
          simp only [List.cons_append, givenTo, ih]
          split <;> rfl
      | tick => exact ih

/-- **Preserved by a tick.** -/
theorem allFollow_cycle (hok : s.Ok ps Q) (hok' : s'.Ok ps Q) (hcycle : Cycle ps Q s mid req s')
    (ih : AllFollow events h s.interconnect) :
    AllFollow (events ++ [.tick]) (⟨s, req, s'⟩ :: h) s'.interconnect := by
  intro a p'' hp''
  have hr := (hok'.valid.controller (controllerAt_of_nodeAt hp'')).range
  obtain ⟨p, p₁, c₂, hc⟩ := hcycle.processor hok hok' hr
  rw [hc.after] at hp''; cases hp''
  have hfed := hc.inv.fed hc.tick
  have hold := ih a p hc.before
  have hcounted : c₂.counted = p₁.cacheController.counted := hc.passed.sameCount
  have hwaiting : c₂.waiting = p₁.cacheController.waiting := by
    obtain ⟨hs, hflag, _⟩ := hc.passed.sameState
    rw [Controller.waiting, hs, hflag, ← Controller.waiting]
  have hhanded : handedOver a (⟨s, req, s'⟩ :: h) = handedOver a h ++ p.handsOver.toList :=
    handedOver_cons hc.before
  refine ⟨?_, ?_, ?_⟩
  · have htickOnly : givenTo a [.tick] = [] := rfl
    rw [givenTo_append, hold.given, hhanded, htickOnly, List.append_nil, List.append_assoc,
      ← hfed.queue]
  · rw [hhanded, List.length_append, hold.memoryOps, hfed.memoryOps]
  · rw [hfed.memoryOps, hcounted, hwaiting, hfed.counted, hold.counted]

/-- **Preserved by an insertion.** -/
theorem allFollow_insertInstruction (hok : s.Ok ps Q) {i : Instruction} {n : Nat}
    (heq : s.insertInstruction i n = .ok s') (ih : AllFollow events h s.interconnect) :
    AllFollow (events ++ [.insertInstruction i n]) h s'.interconnect := by
  obtain ⟨p₀, hp₀, rfl⟩ := hok.insertInstruction_eq heq
  intro a p hp
  have hgiven : givenTo a (events ++ [.insertInstruction i n]) = givenTo a events
      ++ if n + 1 = a ∧ Processor.isMemoryOp i then [i] else [] := by
    rw [givenTo_append]
    rfl
  simp only [System.putNode, Interconnect.nodeAt_putNode] at hp
  split at hp
  · rename_i ha
    cases hp
    subst ha
    have hold := ih _ p₀ hp₀
    cases hop : Processor.isMemoryOp i with
    | true =>
        rw [hop] at hgiven
        rw [Processor.processInstruction_of_memoryOp hop]
        exact ⟨by simp [hgiven, hold.given, Processor.insertInstruction], hold.memoryOps, hold.counted⟩
    | false =>
        rw [hop] at hgiven
        rw [Processor.processInstruction_of_not hop]
        exact ⟨by simp [hgiven, hold.given], hold.memoryOps, hold.counted⟩
  · rename_i ha
    have hold := ih a p hp
    rw [if_neg fun h0 => ha h0.1.symm, List.append_nil] at hgiven
    exact ⟨hgiven.trans hold.given, hold.memoryOps, hold.counted⟩

theorem System.run_allFollow (hrun : System.run ps events = .ok (h, s)) :
    s.Ok ps (fun _ => True) ∧ AllFollow events h s.interconnect := by
  refine System.run_events_induct (P := fun events h s => AllFollow events h s.interconnect)
    ?_ ?_ ?_ (fun e _ => ?_) hrun
  · exact fun _ _ _ _ _ _ hok _ _ heq ih => allFollow_insertInstruction hok heq ih
  · exact fun _ _ _ _ _ _ hok hok' hcycle ih => allFollow_cycle hok hok' hcycle ih
  · intro s hs a p hp
    have hnew := hs.processor a p hp
    cases hnew
    exact ⟨rfl, rfl, rfl⟩
  · cases e <;> trivial

theorem inserted_of_givenTo {a : Nat} {i : Instruction} (hi : i ∈ givenTo a events) :
    ∃ n, Event.insertInstruction i n ∈ events := by
  induction events with
  | nil => cases hi
  | cons e rest ih =>
      have later (hi : i ∈ givenTo a rest) : ∃ n, Event.insertInstruction i n ∈ e :: rest := by
        obtain ⟨n, hn⟩ := ih hi
        exact ⟨n, List.mem_cons_of_mem _ hn⟩
      cases e with
      | tick => exact later hi
      | insertInstruction j n =>
          rw [givenTo] at hi
          split at hi
          · rcases List.mem_cons.mp hi with rfl | hi
            · exact ⟨n, List.mem_cons_self⟩
            · exact later hi
          · exact later hi

/-- Only a processor hands anything over. -/
theorem exists_processor_of_handedOver {a : Nat} {i : Instruction} (hi : i ∈ handedOver a h) :
    ∃ rec ∈ h, ∃ p, rec.before.interconnect.nodeAt a = some (.processor p) := by
  induction h with
  | nil => cases hi
  | cons rec older ih =>
      rcases List.mem_append.mp hi with hi | hi
      · obtain ⟨rec', hrec', hp⟩ := ih hi
        exact ⟨rec', List.mem_cons_of_mem _ hrec', hp⟩
      · split at hi
        · rename_i p hp
          exact ⟨rec, List.mem_cons_self, p, hp⟩
        · cases hi

/-- What is handed over was inserted. -/
theorem inserted_of_handedOver (hrun : System.run ps events = .ok (h, s)) {a : Nat}
    {i : Instruction} (hi : i ∈ handedOver a h) : ∃ n, Event.insertInstruction i n ∈ events := by
  obtain ⟨hok, hfollow⟩ := System.run_allFollow hrun
  obtain ⟨rec, hrec, p, hp⟩ := exists_processor_of_handedOver hi
  obtain ⟨newer, older, hsplit⟩ := List.append_of_mem hrec
  have hbefore := ((Run.of_system_run hrun).of_split newer rec older hsplit).1.ok
  have hr := (hbefore.valid.controller (controllerAt_of_nodeAt hp)).range
  obtain ⟨q, hq, _⟩ := hok.valid.processor hr.1 hr.2
  refine inserted_of_givenTo (a := a) ?_
  rw [(hfollow a q hq).given]
  exact List.mem_append_left _ hi

/-- **Instructions are executed in order, exactly once, and counted once.** The loads and
stores given to a processor are those it has handed over, followed by those in its queue; it has
counted the former, and its controller has a hit or a miss for all of them but the one that is
not looked up yet. -/
theorem instructions_in_order (ps : Params) (events : List Event) (h : List TickRecord) (s : System)
    (hrun : System.run ps events = .ok (h, s)) :
    ∀ a p, s.interconnect.nodeAt a = some (.processor p) →
      handedOver a h = (givenTo a events).take p.numberMemoryOperations
      ∧ p.instrQueue = (givenTo a events).drop p.numberMemoryOperations
      ∧ p.numberMemoryOperations ≤ (givenTo a events).length
      ∧ p.numberMemoryOperations = p.cacheController.loadHits + p.cacheController.loadMisses
        + p.cacheController.storeHits + p.cacheController.storeMisses
        + if p.cacheController.pendingInstructionFlag = true
            ∧ p.cacheController.currentState = .idleState then 1 else 0 := by
  have hfollow := (System.run_allFollow hrun).2
  intro a p hp
  obtain ⟨hgiven, hops, hcounted⟩ := hfollow a p hp
  refine ⟨?_, ?_, ?_, hcounted⟩
  · rw [hgiven, ← hops, List.take_left]
  · rw [hgiven, ← hops, List.drop_left]
  · rw [hgiven, ← hops, List.length_append]
    omega

/-- Four accesses of one processor, and a store of another one to the line of three of them. -/
def fourAccesses : List Event :=
  [.insert .load 64 0, .insert .store 64 0, .insert .load 128 0, .insert .load 64 0,
    .insert .store 64 1] ++ List.replicate 17 .tick

/-- The first two are answered, the third is taken up and not looked up yet. -/
theorem instructions_in_order_four_accesses : ∃ h s p,
    System.run ⟨2, .mesi, 1, 2⟩ fourAccesses = .ok (h, s)
      ∧ s.interconnect.nodeAt 1 = some (.processor p)
      ∧ handedOver 1 h = (givenTo 1 fourAccesses).take 3
      ∧ p.instrQueue = (givenTo 1 fourAccesses).drop 3
      ∧ 3 = p.cacheController.loadHits + p.cacheController.loadMisses
        + p.cacheController.storeHits + p.cacheController.storeMisses + 1 := by
  obtain ⟨h, s, hrun, hp⟩ := System.exists_run ⟨2, .mesi, 1, 2⟩ fourAccesses
    (fun _ s => (controllerAt s.interconnect 1).any fun c => c.counted = 2
      ∧ c.pendingInstructionFlag = true ∧ c.currentState = .idleState) (by decide +kernel)
  obtain ⟨c, hc, hlooked⟩ := (Option.any_eq_true _ _).mp hp
  obtain ⟨htwo, hwaits⟩ := of_decide_eq_true hlooked
  obtain ⟨p, hp, rfl⟩ := nodeAt_of_controllerAt hc
  obtain ⟨hhanded, hqueue, _, hcounted⟩ := instructions_in_order _ _ h s hrun 1 p hp
  rw [if_pos hwaits] at hcounted
  have hops : p.numberMemoryOperations = 3 := hcounted.trans (congrArg (· + 1) htwo)
  rw [hops] at hhanded hqueue hcounted
  exact ⟨h, s, p, hrun, hp, hhanded, hqueue, hcounted⟩

end CoherenceSim
