import CoherenceSim.Proof.Answers
import CoherenceSim.Proof.Work
import Mathlib.Order.Interval.Finset.Nat

/-!
# Every instruction completes

A system that is left to tick comes to rest: its queues run empty, its controllers have no
instruction, and memory has no read. The rank of a state is the work of all nodes, doubled so
that one unit of it pays for the lock of the bus; and below that, memory's patience, for the
ticks in which nothing moves because a read has not grown old enough.

A tick in which nobody does any work is one in which everybody waits. Whoever waits for data
has a read in the tracker, since the bus carries nothing; and if the tracker is empty as well,
then nobody waits.
-/

namespace CoherenceSim

open BusNode Interconnect

/-- Everything that was to be done is done. -/
structure Drained (ps : Params) (s : System) : Prop where
  processor : ∀ a p, s.interconnect.nodeAt a = some (.processor p) → p.instrQueue = []
    ∧ p.cacheController.pendingInstructionFlag = false ∧ p.cacheController.busReqQueue = []
    ∧ p.cacheController.maxPriorityQueue = []
  memory : ∀ m, memoryAt s.interconnect (ps.numProcessors + 1) = some m →
    m.memTracker = [] ∧ m.bursting = false ∧ m.busReqQueue = []

/-! ## The rank of a state -/

def Node.work (ps : Params) : Node → Nat
  | .processor p => p.work ps
  | .memory m => m.work ps

/-- The work at an address. -/
def workAt (ps : Params) (ic : Interconnect Node) (a : Nat) : Nat :=
  ((ic.nodeAt a).map (Node.work ps)).getD 0

def totalWork (ps : Params) (ic : Interconnect Node) : Nat :=
  ∑ a ∈ Finset.Icc 1 (ps.numProcessors + 1), workAt ps ic a

/-- A lock that is not released yet is one unit of work more. -/
def busWork (ps : Params) (ic : Interconnect Node) : Nat :=
  2 * totalWork ps ic + ic.nodeLocked.toNat

def patienceOf (ps : Params) (ic : Interconnect Node) : Nat :=
  ((memoryAt ic (ps.numProcessors + 1)).map Memory.patience).getD 0

/-- How many ticks there may still be until the system is drained. -/
def workLeft (ps : Params) (s : System) : Nat :=
  busWork ps s.interconnect * (ps.memoryLatency + 3) + patienceOf ps s.interconnect

variable {ps : Params} {Q : Instruction → Prop} {h : List TickRecord} {s mid s' : System}
  {req : Option BusRequest}

theorem workAt_of_nodeAt {ic : Interconnect Node} {a : Nat} {n : Node} (hn : ic.nodeAt a = some n) :
    workAt ps ic a = n.work ps := by
  rw [workAt, hn]; rfl

theorem workAt_congr {ic ic' : Interconnect Node} {a : Nat} (hn : ic'.nodeAt a = ic.nodeAt a) :
    workAt ps ic' a = workAt ps ic a := by
  rw [workAt, hn, ← workAt]

/-- An address is a processor's or the memory's. -/
theorem mem_addresses {a : Nat} (ha : a ∈ Finset.Icc 1 (ps.numProcessors + 1)) :
    (1 ≤ a ∧ a ≤ ps.numProcessors) ∨ a = ps.numProcessors + 1 := by
  have := Finset.mem_Icc.mp ha
  omega

theorem memory_mem_addresses : ps.numProcessors + 1 ∈ Finset.Icc 1 (ps.numProcessors + 1) :=
  Finset.mem_Icc.mpr ⟨by omega, Nat.le_refl _⟩

theorem card_addresses : (Finset.Icc 1 (ps.numProcessors + 1)).card = ps.numProcessors + 1 := by
  rw [Nat.card_Icc]; omega

/-! ## What is known of a state -/

/-- What the argument needs of a state, apart from its being valid. -/
structure Working (ps : Params) (h : List TickRecord) (s : System) : Prop where
  counted : AllCounted h s.interconnect
  answers : AnswersComing ps s.interconnect
  awake : ∀ a p, s.interconnect.nodeAt a = some (.processor p) → p.Awake
  paced : ∀ m, memoryAt s.interconnect (ps.numProcessors + 1) = some m → m.Paced ps

theorem Memory.Ticked.readLatency {m m' : Memory} (ht : Memory.Ticked m m') :
    m'.readLatency = m.readLatency := by
  cases ht <;> rfl

theorem Memory.Passed.readLatency {m m' : Memory} (hp : Memory.Passed ps m req m') :
    m'.readLatency = m.readLatency := by
  cases hp with
  | @heard r =>
      obtain ⟨l, hl⟩ := m.acceptBusTransaction_eq r
      rw [hl]
  | sent | polled | idle => rfl

/-- Only memory that bursts is given the lock. -/
theorem Memory.Passed.locked {m m' : Memory} (hp : Memory.Passed ps m req m')
    (hl : m'.nodeIsLocked = true) : m'.bursting = true := by
  cases hp with
  | sent | polled => exact hl
  | @heard r _ _ _ hnot =>
      obtain ⟨l, hr⟩ := m.acceptBusTransaction_eq r
      rw [hr] at hl
      rw [show m.nodeIsLocked = true from hl] at hnot; cases hnot
  | idle hnot => rw [hl] at hnot; cases hnot

/-- **Preserved by every cycle.** -/
theorem Working.cycle (hw : Working ps h s) (hlen : 2 ≤ ps.burstLength)
    (hlen' : ps.burstLength < 2 ^ 32) (hok : s.Ok ps Q) (hok' : s'.Ok ps Q)
    (hcycle : Cycle ps Q s mid req s') : Working ps (⟨s, req, s'⟩ :: h) s' where
  counted := (allCounted_cycle (by omega) hlen' hok.valid hok'.valid hcycle hw.counted).1
  answers := answersComing_cycle hok.valid hok'.valid hcycle hw.answers
  awake a p₂ hp₂ := by
    obtain ⟨hr, _⟩ := hok'.valid.nodes a _ hp₂
    obtain ⟨p, p₁, c₂, hc⟩ := hcycle.processor hok hok' hr
    rw [hc.after] at hp₂; cases hp₂
    have hawake := (hc.inv.tick_work ps (hw.awake a p hc.before) hc.tick).1
    exact fun h0 => hc.passed.sameState.2.1.trans (hawake h0)
  paced m₂ hm₂ := by
    obtain ⟨m, hm, hinv⟩ := hok.valid.memory
    have hm := memoryAt_of_nodeAt hm
    have hp := hw.paced m hm
    obtain ⟨m₁, ht, hm₁⟩ := hcycle.ticks.memory _ m hm
    obtain ⟨m₂', hm₂', hpass⟩ := hcycle.event.memoryPassed hcycle.valid hcycle.bus hm₁
    rw [hm₂] at hm₂'; cases hm₂'
    have hc : MemoryCycle ps ⟨s, req, s'⟩ m m₁ m₂ := ⟨hm, ht, hpass, hm₂, hinv, hp.burstLen⟩
    have hcounter := hp.counter
    exact ⟨hpass.same.2.1.trans (ht.same.2.1.trans hp.burstLen),
      hpass.readLatency.trans (ht.readLatency.trans hp.readLatency),
      (hc.bounded hlen hcounter (by omega)).1, hpass.locked⟩

/-- An instruction that is inserted is seen by its processor, and by nobody else. -/
theorem System.Ok.inserted (hok : s.Ok ps Q) {i : Instruction} {n : Nat}
    (heq : s.insertInstruction i n = .ok s') : ∃ p, s.interconnect.nodeAt (n + 1) = some (.processor p)
      ∧ s'.interconnect.nodeLocked = s.interconnect.nodeLocked
      ∧ ∀ b, s'.interconnect.nodeAt b
        = if b = n + 1 then some (.processor (p.processInstruction i)) else s.interconnect.nodeAt b := by
  obtain ⟨p, hp, rfl⟩ := hok.insertInstruction_eq heq
  exact ⟨p, hp, rfl, fun b => nodeAt_putNode _ _ _ b⟩

/-- **Preserved by an insertion.** -/
theorem Working.insertInstruction (hw : Working ps h s) (hok : s.Ok ps Q) {i : Instruction} {n : Nat}
    (hi : Q i) (heq : s.insertInstruction i n = .ok s') : Working ps h s' := by
  obtain ⟨_, hins⟩ := hok.of_insertInstruction hi heq
  obtain ⟨p₀, hp₀, _, hat⟩ := hok.inserted heq
  refine ⟨fun a c hc => ?_, fun a c m hc hm => ?_, fun a p hp => ?_, fun m hm => ?_⟩
  · have hcnt := hw.counted a c (by rw [← hins.controller]; exact hc)
    exact ⟨hcnt.bound, hcnt.sent, hcnt.before, fun h0 => by
      rw [hins.nodeLocked, hins.lockedAddress]; exact hcnt.locked h0⟩
  · exact hw.answers a c m (by rw [← hins.controller]; exact hc) (by rw [← hins.memory]; exact hm)
  · rw [hat] at hp
    split at hp
    · cases hp
      have hawake := hw.awake _ p₀ hp₀
      unfold Processor.processInstruction
      split
      · exact hawake
      · exact hawake
    · exact hw.awake a p hp
  · exact hw.paced m (by rw [← hins.memory]; exact hm)

theorem System.Initial.working (hs : s.Initial ps) (hlen : 2 ≤ ps.burstLength) :
    Working ps [] s := by
  refine ⟨fun a c hc => ?_, fun a c m hc _ hb => ?_, fun a p hp => ?_, fun m hm => ?_⟩
  · rw [hs.controller a c hc]
    exact .of_zero rfl (show 0 < ps.burstLength by omega) fun rec _ hrec => (by cases hrec)
  · rw [hs.controller a c hc] at hb; cases hb
  · have hnew := hs.processor a p hp
    cases hnew
    exact fun h0 => by cases h0
  · rw [hs.memory _ m hm]
    exact ⟨rfl, rfl, Nat.zero_le _, fun h0 => by cases h0⟩

/-! ## The first half of a cycle -/

theorem Processor.Still.work {p p' : Processor} (hs : Processor.Still p p') :
    p'.work ps = p.work ps := by
  obtain ⟨⟨c₁, hc, hc'⟩, hq, _⟩ := hs
  rw [Processor.work, Processor.work, hc', hq, Controller.settle_work, hc.work]

theorem Memory.Still.work {m m' : Memory} (hs : Memory.Still m m') : m'.work ps = m.work ps := by
  cases hs with
  | holds => rfl
  | ages =>
      show m.updateReadAges.memTracker.length * trackPrice ps + m.burstWork ps
        + m.busReqQueue.length = _
      rw [Memory.work, show m.updateReadAges.memTracker.length = m.memTracker.length from
        List.length_map _]

/-- In the first half of the cycle, nobody does anything. -/
structure AllStill (ps : Params) (s mid : System) : Prop where
  processor : ∀ a p, s.interconnect.nodeAt a = some (.processor p) →
    ∃ p₁, mid.interconnect.nodeAt a = some (.processor p₁) ∧ Processor.Still p p₁
  memory : ∀ m, memoryAt s.interconnect (ps.numProcessors + 1) = some m →
    ∃ m₁, memoryAt mid.interconnect (ps.numProcessors + 1) = some m₁ ∧ Memory.Still m m₁

/-- **Somebody does some work when the nodes tick**, or they are all still. -/
theorem Cycle.tick_work (hcycle : Cycle ps Q s mid req s') (hw : Working ps h s)
    (hlen : 2 ≤ ps.burstLength) (hlen' : ps.burstLength < 2 ^ 32) (hok : s.Ok ps Q)
    (hok' : s'.Ok ps Q) :
    busWork ps mid.interconnect < busWork ps s.interconnect
      ∨ busWork ps mid.interconnect = busWork ps s.interconnect ∧ AllStill ps s mid := by
  have hlock : mid.interconnect.nodeLocked = s.interconnect.nodeLocked := hcycle.ticks.nodeLocked
  have processor {a : Nat} {p : Processor} (hp : s.interconnect.nodeAt a = some (.processor p)) :
      workAt ps mid.interconnect a < workAt ps s.interconnect a
        ∨ workAt ps mid.interconnect a = workAt ps s.interconnect a
          ∧ ∃ p₁, mid.interconnect.nodeAt a = some (.processor p₁) ∧ Processor.Still p p₁ := by
    obtain ⟨p', p₁, c₂, hc⟩ := hcycle.processor hok hok' (hok.valid.nodes a _ hp).1
    rw [hc.before] at hp; cases hp
    rw [workAt_of_nodeAt hc.before, workAt_of_nodeAt hc.between]
    rcases (hc.inv.tick_work ps (hw.awake a p hc.before) hc.tick).2 with hlt | hstill
    · exact Or.inl hlt
    · exact Or.inr ⟨hstill.work, p₁, hc.between, hstill⟩
  have memory {m : Memory} (hm : memoryAt s.interconnect (ps.numProcessors + 1) = some m) :
      workAt ps mid.interconnect (ps.numProcessors + 1)
          < workAt ps s.interconnect (ps.numProcessors + 1)
        ∨ workAt ps mid.interconnect (ps.numProcessors + 1)
            = workAt ps s.interconnect (ps.numProcessors + 1)
          ∧ ∃ m₁, memoryAt mid.interconnect (ps.numProcessors + 1) = some m₁ ∧ Memory.Still m m₁ := by
    obtain ⟨m₁, ht, hm₁⟩ := hcycle.ticks.memory _ m hm
    rw [workAt_of_nodeAt (nodeAt_of_memoryAt hm), workAt_of_nodeAt (nodeAt_of_memoryAt hm₁)]
    rcases ht.work (hw.paced m hm) hlen hlen' with hlt | hstill
    · exact Or.inl hlt
    · exact Or.inr ⟨hstill.work, m₁, hm₁, hstill⟩
  have every (a : Nat) (ha : a ∈ Finset.Icc 1 (ps.numProcessors + 1)) :
      workAt ps mid.interconnect a ≤ workAt ps s.interconnect a := by
    rcases mem_addresses ha with hr | rfl
    · obtain ⟨p, hp, _⟩ := hok.valid.processor hr.1 hr.2
      rcases processor hp with hlt | ⟨heq, _⟩ <;> omega
    · obtain ⟨m, hm, _⟩ := hok.valid.memory
      rcases memory (memoryAt_of_nodeAt hm) with hlt | ⟨heq, _⟩ <;> omega
  by_cases hsome : ∃ a ∈ Finset.Icc 1 (ps.numProcessors + 1),
      workAt ps mid.interconnect a < workAt ps s.interconnect a
  · have hlt : totalWork ps mid.interconnect < totalWork ps s.interconnect :=
      Finset.sum_lt_sum every hsome
    refine Or.inl ?_
    rw [busWork, busWork, hlock]
    omega
  · have hnone : ∀ a ∈ Finset.Icc 1 (ps.numProcessors + 1),
        ¬ workAt ps mid.interconnect a < workAt ps s.interconnect a :=
      fun a ha hlt => hsome ⟨a, ha, hlt⟩
    have heq : totalWork ps mid.interconnect = totalWork ps s.interconnect :=
      Finset.sum_congr rfl fun a ha => Nat.le_antisymm (every a ha) (Nat.not_lt.mp (hnone a ha))
    refine Or.inr ⟨by rw [busWork, busWork, hlock, heq], fun a p hp => ?_, fun m hm => ?_⟩
    · have hr := (hok.valid.nodes a _ hp).1
      exact ((processor hp).resolve_left (hnone a (Finset.mem_Icc.mpr ⟨hr.1, by omega⟩))).2
    · exact ((memory hm).resolve_left (hnone _ memory_mem_addresses)).2

/-! ## The second half -/

/-- The bus is free, and nobody wants it. -/
structure Silent (ic ic' : Interconnect Node) : Prop where
  asks : ∀ b n, ic.nodeAt b = some n → requestsLock n = false ∧ requestsTransaction n = false
  same : ∀ b, ic'.nodeAt b = ic.nodeAt b

/-- What is on the bus has cost its sender more than all others gain. -/
theorem Cycle.transfer_work {r : BusRequest} (hcycle : Cycle ps Q s mid (some r) s')
    (hw : Working ps h s) (hlen : 2 ≤ ps.burstLength) (hlen' : ps.burstLength < 2 ^ 32)
    (hok : s.Ok ps Q) (hok' : s'.Ok ps Q) :
    totalWork ps s'.interconnect + 1 ≤ totalWork ps mid.interconnect := by
  have processor {a : Nat} (ha : 1 ≤ a ∧ a ≤ ps.numProcessors) :
      ∃ c c', controllerAt mid.interconnect a = some c ∧ controllerAt s'.interconnect a = some c'
        ∧ ∀ k, c'.work ps ≤ c.work ps + k →
          workAt ps s'.interconnect a ≤ workAt ps mid.interconnect a + k := by
    obtain ⟨p, p₁, c₂, hc⟩ := hcycle.processor hok hok' ha
    refine ⟨_, c₂, controllerAt_of_nodeAt hc.between, controllerAt_of_nodeAt hc.after,
      fun k hk => ?_⟩
    rw [workAt_of_nodeAt hc.between, workAt_of_nodeAt hc.after]
    simp only [Node.work, Processor.work]
    omega
  cases hcycle.event with
  | @controller a c c' _ _ hc hsrc _ _ _ hs hc' hother hmem _ _ =>
      have hr := (hcycle.valid.controller hc).range
      have hcnt := allCounted_ticks hok.valid hcycle.valid hcycle.ticks hw.counted a c hc
      refine sum_add_le_sum (g := r.commandCode.disturbance ps) (i := a)
        (Finset.mem_Icc.mpr ⟨hr.1, by omega⟩) ?_ fun b hb hba => ?_
      · -- the sender
        obtain ⟨p, p₁, c₂, hpc⟩ := hcycle.processor hok hok' hr
        rw [controllerAt_of_nodeAt hpc.between] at hc; cases hc
        have hc₂ : c' = c₂ := Option.some.inj (hc'.symm.trans (controllerAt_of_nodeAt hpc.after))
        subst hc₂
        have hbl := (hcycle.valid.controller (controllerAt_of_nodeAt hpc.between)).burstLen
        have hsent : c'.work ps + r.commandCode.effect ps ≤ _ := hs.work
          (hcycle.valid.controller (controllerAt_of_nodeAt hpc.between)).inv.frame hbl
          (hbl ▸ hcnt.bound) hlen'
        rw [Controller.polled_work, CommandCode.effect] at hsent
        rw [workAt_of_nodeAt hpc.between, workAt_of_nodeAt hpc.after, card_addresses]
        simp only [Node.work, Processor.work]
        omega
      · -- everybody else
        rcases mem_addresses hb with hrb | rfl
        · obtain ⟨d, d', hd, hd', hwork⟩ := processor hrb
          obtain ⟨d'', hsn, hd''⟩ := hother b d hba hd
          rw [hd'] at hd''; cases hd''
          exact hwork _ (hsn.work (by omega))
        · obtain ⟨m, hm, _⟩ := hcycle.valid.memory
          have hm := memoryAt_of_nodeAt hm
          rw [workAt_of_nodeAt (nodeAt_of_memoryAt hm), workAt_of_nodeAt (nodeAt_of_memoryAt (hmem _ m hm))]
          exact m.acceptBusTransaction_work r
  | @memory m _ rest _ hm hsrc _ _ _ hq hm' hother _ _ =>
      have hquiet : r.commandCode.disturbance ps = 0 := by
        rcases hcycle.event.code_of_memory hcycle.valid hsrc with (h0 | h0 | h0) | h0 <;> rw [h0] <;>
          rfl
      refine sum_add_le_sum (g := 0) (i := ps.numProcessors + 1) memory_mem_addresses ?_
        fun b hb hba => ?_
      · rw [workAt_of_nodeAt (nodeAt_of_memoryAt hm), workAt_of_nodeAt (nodeAt_of_memoryAt hm'),
          Nat.mul_zero]
        exact Memory.sent_work hq
      · obtain ⟨d, d', hd, hd', hwork⟩ := processor ((mem_addresses hb).resolve_right hba)
        refine hwork 0 ?_
        have hsn := hother b d hd
        split at hsn
        · obtain ⟨d'', hsn, hd''⟩ := hsn
          rw [hd'] at hd''; cases hd''
          rw [← hquiet]
          exact hsn.work (by omega)
        · rw [hd'] at hsn; cases hsn
          exact Nat.le_refl _

/-- A poll that carries nothing has released the lock, or has given it to memory. -/
theorem Cycle.poll_work (hcycle : Cycle ps Q s mid none s') (hw : Working ps h s) (hok : s.Ok ps Q)
    {a : Nat} {n : Node} (hn : mid.interconnect.nodeAt a = some n)
    (hc : mid.interconnect.Chosen a n) (hreq : requestsTransaction n = false)
    (hr : mid.interconnect.Relocked a n s'.interconnect)
    (hat : ∀ b, s'.interconnect.nodeAt b
      = if b = a then some (relock n) else mid.interconnect.nodeAt b) :
    busWork ps s'.interconnect < busWork ps mid.interconnect := by
  have others (b : Nat) (hba : b ≠ a) :
      workAt ps s'.interconnect b = workAt ps mid.interconnect b :=
    workAt_congr ((hat b).trans (if_neg hba))
  have hself : workAt ps s'.interconnect a = (relock n).work ps :=
    workAt_of_nodeAt ((hat a).trans (if_pos rfl))
  cases n with
  | processor p =>
      -- a controller that asks for the lock has a request, so this one does not
      have hnot : p.cacheController.bursting = false := by
        by_contra hb
        have h0 := requestsTransaction_of_bursting (hcycle.fresh a _ (controllerAt_of_nodeAt hn)).settled
          (by simpa using hb)
        rw [show p.cacheController.requestsTransaction = false from hreq] at h0; cases h0
      have hlocked : mid.interconnect.nodeLocked = true := by
        cases hc with
        | locked hl _ => exact hl
        | maxPriority _ hm =>
            have hm : decide (0 < p.cacheController.maxPriorityQueue.length) = true := hm
            have hreq : (decide (0 < p.cacheController.busReqQueue.length)
              || decide (0 < p.cacheController.maxPriorityQueue.length)) = false := hreq
            rw [hm, Bool.or_true] at hreq; cases hreq
        | inOrder _ _ hask =>
            rcases hask with h0 | h0
            · rw [show p.cacheController.bursting = true from h0] at hnot; cases hnot
            · rw [hreq] at h0; cases h0
      have hfree : s'.interconnect.nodeLocked = false := hr.nodeLocked.trans hnot
      have hsum : totalWork ps s'.interconnect = totalWork ps mid.interconnect := by
        refine Finset.sum_congr rfl fun b _ => ?_
        by_cases hba : b = a
        · rw [hba, hself, workAt_of_nodeAt hn, relock_processor]
          rfl
        · exact others b hba
      rw [busWork, busWork, hsum, hlocked, hfree]
      exact Nat.lt_succ_self _
  | memory m =>
      obtain ⟨ha, _⟩ := hcycle.valid.nodes a _ hn
      subst ha
      have hq : m.busReqQueue = [] := by
        have hreq : decide (0 < m.busReqQueue.length) = false := hreq
        simpa using hreq
      -- had it the lock already, it would have queued something
      have hunlocked : m.nodeIsLocked = false := by
        by_contra hl
        obtain ⟨m₀, hm₀, ht⟩ := hcycle.ticks.memoryBefore hok.valid (memoryAt_of_nodeAt hn)
        exact ht.queue_of_locked (hw.paced m₀ hm₀) (by simpa using hl) hq
      have hlocked : mid.interconnect.nodeLocked = false ∧ m.bursting = true := by
        cases hc with
        | locked hl ha =>
            have hown := (hcycle.valid.lock.lock _ _ hn).mpr ⟨hl, ha⟩
            rw [show m.nodeIsLocked = true from hown] at hunlocked; cases hunlocked
        | maxPriority _ hm => cases hm
        | inOrder hfree _ hask =>
            rcases hask with h0 | h0
            · exact ⟨hfree, h0⟩
            · rw [hreq] at h0; cases h0
      have hsum : totalWork ps s'.interconnect + 1 ≤ totalWork ps mid.interconnect := by
        refine sum_add_le_sum (g := 0) (i := ps.numProcessors + 1) memory_mem_addresses ?_
          fun b _ hba => Nat.le_of_eq (others b hba)
        rw [hself, workAt_of_nodeAt hn, relock_memory, Nat.mul_zero]
        exact Memory.relock_work_lt hlocked.2 hunlocked
      have hle := s'.interconnect.nodeLocked.toNat_le
      rw [busWork, busWork, hlocked.1]
      simp only [Bool.toNat_false]
      omega

/-- **The bus does some work**, or nobody wants it to. -/
theorem Cycle.bus_work (hcycle : Cycle ps Q s mid req s') (hw : Working ps h s)
    (hlen : 2 ≤ ps.burstLength) (hlen' : ps.burstLength < 2 ^ 32) (hok : s.Ok ps Q)
    (hok' : s'.Ok ps Q) :
    busWork ps s'.interconnect < busWork ps mid.interconnect
      ∨ busWork ps s'.interconnect = busWork ps mid.interconnect
        ∧ Silent mid.interconnect s'.interconnect := by
  cases req with
  | some r =>
      have hsum := hcycle.transfer_work hw hlen hlen' hok hok'
      have hle := s'.interconnect.nodeLocked.toNat_le
      refine Or.inl ?_
      rw [busWork, busWork]
      omega
  | none =>
      cases hcycle.bus with
      | rest hfree hasks hfree' hsame =>
          have hsum : totalWork ps s'.interconnect = totalWork ps mid.interconnect :=
            Finset.sum_congr rfl fun b _ => workAt_congr (hsame b)
          exact Or.inr ⟨by rw [busWork, busWork, hsum, hfree, hfree'], hasks, hsame⟩
      | poll hn hc hreq hr hat => exact Or.inl (hcycle.poll_work hw hok hn hc hreq hr hat)

/-! ## Waiting for memory -/

theorem Controller.queues_of_not_requests {c : Controller} (h : c.requestsTransaction = false) :
    c.busReqQueue = [] ∧ c.maxPriorityQueue = [] := by
  simpa [Controller.requestsTransaction] using h

/-- **Nobody waits for nothing.** When nobody moves, and memory has no read, there is nothing
left to do. -/
theorem AllStill.drained (hstill : AllStill ps s mid)
    (hsilent : Silent mid.interconnect s'.interconnect) (hw : Working ps h s) (hok : s.Ok ps Q)
    (htracker : ∀ m, memoryAt s.interconnect (ps.numProcessors + 1) = some m → m.memTracker = []) :
    Drained ps s := by
  obtain ⟨m, hm, _⟩ := hok.valid.memory
  have hm := memoryAt_of_nodeAt hm
  -- memory has no answer for anybody
  obtain ⟨hb, hq⟩ : m.bursting = false ∧ m.busReqQueue = [] := by
    obtain ⟨m₁, hm₁, hs⟩ := hstill.memory m hm
    obtain ⟨hlock, hreq⟩ := hsilent.asks _ _ (nodeAt_of_memoryAt hm₁)
    have hq₁ : m₁.busReqQueue = [] := by
      have hreq : decide (0 < m₁.busReqQueue.length) = false := hreq
      simpa using hreq
    cases hs with
    | ages hb => exact ⟨hb, hq₁⟩
    | holds hb =>
        have hlock : m.bursting = false := hlock
        rw [hb] at hlock; cases hlock
  refine ⟨fun a p hp => ?_, fun m' hm' => ?_⟩
  · obtain ⟨p₁, hp₁, ⟨c₁, hc, hc₁⟩, _, hempty⟩ := hstill.processor a p hp
    obtain ⟨_, hreq⟩ := hsilent.asks _ _ hp₁
    have hreq : p₁.cacheController.requestsTransaction = false := hreq
    rw [hc₁] at hreq
    obtain ⟨hbus, hmax⟩ : c₁.busReqQueue = [] ∧ c₁.maxPriorityQueue = [] :=
      Controller.queues_of_not_requests (c := c₁.settle) hreq
    have hi := (hok.valid.nodes a _ hp).2.inv.controller
    cases hc with
    | rests hs hpending heq =>
        rw [heq] at hbus hmax
        exact ⟨hempty hpending, hpending, hbus, hmax⟩
    | waits hmiss haway heq =>
        exfalso
        rw [heq] at hbus
        cases (hi.miss hmiss).stage with
        | queued _ _ hone => rw [hbus] at hone; cases hone
        | out _ hout =>
            -- the read is out, so memory should have it
            cases hw.answers a _ m (controllerAt_of_nodeAt hp) hm hout with
            | tracked hmem => rw [htracker m hm] at hmem; cases hmem
            | burst hburst => rw [hb] at hburst; cases hburst
            | queued hmem => rw [hq] at hmem; cases hmem
        | answered h0 => rw [haway] at h0; cases h0
  · rw [hm] at hm'; cases hm'
    exact ⟨htracker m hm, hb, hq⟩

theorem patienceOf_of_memoryAt {ic : Interconnect Node} {m : Memory}
    (hm : memoryAt ic (ps.numProcessors + 1) = some m) : patienceOf ps ic = m.patience := by
  rw [patienceOf, hm]; rfl

/-- **Every tick leaves less to do**, unless nothing is left. -/
theorem Cycle.workLeft_lt (hcycle : Cycle ps Q s mid req s') (hw : Working ps h s)
    (hlen : 2 ≤ ps.burstLength) (hlen' : ps.burstLength < 2 ^ 32)
    (hlatency : ps.memoryLatency < 2 ^ 32) (hok : s.Ok ps Q) (hok' : s'.Ok ps Q) :
    workLeft ps s' < workLeft ps s ∨ workLeft ps s' ≤ workLeft ps s ∧ Drained ps s := by
  obtain ⟨m₂, hm₂, _⟩ := hok'.valid.memory
  have hm₂ := memoryAt_of_nodeAt hm₂
  -- one unit of work is worth more than all of memory's patience
  have hless (hlt : busWork ps s'.interconnect < busWork ps s.interconnect) :
      workLeft ps s' < workLeft ps s := by
    have hpatience : patienceOf ps s'.interconnect ≤ ps.memoryLatency + 2 := by
      have hpaced := (hw.cycle hlen hlen' hok hok' hcycle).paced m₂ hm₂
      rw [patienceOf_of_memoryAt hm₂, ← hpaced.readLatency]
      exact m₂.patience_le
    have hmul := Nat.mul_le_mul_right (ps.memoryLatency + 3) (Nat.succ_le_of_lt hlt)
    rw [Nat.succ_mul] at hmul
    rw [workLeft, workLeft]
    omega
  rcases hcycle.tick_work hw hlen hlen' hok hok' with hlt | ⟨heq, hstill⟩ <;>
    rcases hcycle.bus_work hw hlen hlen' hok hok' with hlt' | ⟨heq', hsilent⟩
  · exact Or.inl (hless (by omega))
  · exact Or.inl (hless (by omega))
  · exact Or.inl (hless (by omega))
  obtain ⟨m, hm, _⟩ := hok.valid.memory
  have hm := memoryAt_of_nodeAt hm
  obtain ⟨m₁, hm₁, hs⟩ := hstill.memory m hm
  have hsame : m₂ = m₁ := by
    have hnode := hsilent.same (ps.numProcessors + 1)
    rw [nodeAt_of_memoryAt hm₁, nodeAt_of_memoryAt hm₂] at hnode
    cases hnode; rfl
  have hbus : busWork ps s'.interconnect = busWork ps s.interconnect := heq'.trans heq
  have hp := hw.paced m hm
  rw [workLeft, workLeft, hbus, patienceOf_of_memoryAt hm, patienceOf_of_memoryAt hm₂, hsame]
  cases hs with
  | holds hb =>
      obtain ⟨hlock, _⟩ := hsilent.asks _ _ (nodeAt_of_memoryAt hm₁)
      rw [show m.bursting = false from hlock] at hb; cases hb
  | ages hb hyoung =>
      by_cases hempty : m.memTracker = []
      · refine Or.inr ⟨?_, hstill.drained hsilent hw hok fun m' hm' => ?_⟩
        · have hnone : m.updateReadAges.patience = 0 := by
            rw [Memory.patience, Memory.updateReadAges, hempty]
            rfl
          omega
        · rw [hm] at hm'; cases hm'
          exact hempty
      · have hlt := Memory.patience_updateReadAges hempty (by rw [hp.readLatency]; exact hlatency)
          hyoung
        exact Or.inl (by omega)

/-! ## Rest -/

theorem Controller.Transitioned.of_free {c c' : Controller} (hs : Controller.Transitioned c c')
    (hi : c.Inv) (hp : c.pendingInstructionFlag = false) : c' = c.idleAction := by
  have hidle : c.currentState = .idleState := by
    by_contra hne
    rw [hi.busy hne] at hp; cases hp
  cases hs with
  | rest => rfl
  | retire hs => rcases hs with hs | hs | hs <;> rw [hidle] at hs <;> cases hs
  | wait hm => exact absurd hm (Controller.not_missing_of hidle)
  | invalidateQueued hs | loadDropped hs | loadFilled hs | storeDropped hs | storeFilled hs =>
      rw [hidle] at hs; cases hs
  | loadHit _ hp' | loadMiss _ hp' | storeHit _ hp' | storeShared _ hp' | storeMiss _ hp' =>
      rw [hp] at hp'; cases hp'

/-- A processor with an empty queue and a free controller stays as it is. -/
theorem Processor.Inv.tick_drained {p p' : Processor} (hi : p.Inv Q) (hq : p.instrQueue = [])
    (hp : p.cacheController.pendingInstructionFlag = false) (htick : p.tick = .ok p') :
    p'.instrQueue = [] ∧ p'.cacheController = p.cacheController.idleAction.settle := by
  obtain ⟨c₁, hs, hc₁⟩ := hi.controller.tick
  have hidle := hs.of_free hi.controller hp
  subst hidle
  rw [Processor.tick, hc₁, Outcome.ok_bind, Processor.transitionState] at htick
  obtain ⟨next, hnext, htick⟩ := Outcome.bind_eq_ok.mp htick
  cases next with
  | idleState | memoryReturnWaitState => cases htick; exact ⟨hq, rfl⟩
  | checkOpTypeState =>
      simp [Processor.callActionFunction, Processor.checkOpTypeAction,
        Processor.getNextInstruction, hq] at htick

/-- **What is drained stays drained.** -/
theorem Drained.cycle (hd : Drained ps s) (hcycle : Cycle ps Q s mid req s') (hok : s.Ok ps Q)
    (hok' : s'.Ok ps Q) : Drained ps s' := by
  have processor {a : Nat} (ha : 1 ≤ a ∧ a ≤ ps.numProcessors) :
      ∃ p p₁ c₂, ProcessorCycle ps Q a s mid req s' p p₁ c₂ ∧ p₁.instrQueue = []
        ∧ p₁.cacheController.pendingInstructionFlag = false
        ∧ p₁.cacheController.busReqQueue = [] ∧ p₁.cacheController.maxPriorityQueue = [] := by
    obtain ⟨p, p₁, c₂, hc⟩ := hcycle.processor hok hok' ha
    obtain ⟨hq, hp, hbus, hmax⟩ := hd.processor a p hc.before
    obtain ⟨hq₁, hc₁⟩ := hc.inv.tick_drained hq hp hc.tick
    exact ⟨p, p₁, c₂, hc, hq₁, by rw [hc₁]; rfl, by rw [hc₁]; exact hbus, by rw [hc₁]; exact hmax⟩
  obtain ⟨m₁, hm₁, htracker, hb, hq⟩ : ∃ m₁,
      memoryAt mid.interconnect (ps.numProcessors + 1) = some m₁ ∧ m₁.memTracker = []
        ∧ m₁.bursting = false ∧ m₁.busReqQueue = [] := by
    obtain ⟨m, hm, _⟩ := hok.valid.memory
    have hm := memoryAt_of_nodeAt hm
    obtain ⟨htracker, hb, hq⟩ := hd.memory m hm
    obtain ⟨m₁, ht, hm₁⟩ := hcycle.ticks.memory _ m hm
    have hnone : m.updateReadAges.memTracker = [] := by
      rw [Memory.updateReadAges, htracker]; rfl
    refine ⟨m₁, hm₁, ?_⟩
    cases ht with
    | age => exact ⟨hnone, hb, hq⟩
    | start _ hget => rw [hnone] at hget; cases hget
    | finish h0 | nullBurst h0 | hold h0 => rw [hb] at h0; cases h0
  -- nobody has anything for the bus
  have hreq : req = none := by
    cases hcycle.bus with
    | rest | poll => rfl
    | @transfer a n _ _ _ hn _ hasks _ _ _ _ =>
        exfalso
        cases n with
        | processor p₁ =>
            obtain ⟨_, _, _, hc, _, _, hbus, hmax⟩ := processor (hcycle.valid.nodes a _ hn).1
            rw [hc.between] at hn; cases hn
            have hasks : p₁.cacheController.requestsTransaction = true := hasks
            rw [Controller.requestsTransaction, hbus, hmax] at hasks; cases hasks
        | memory m =>
            obtain ⟨rfl, _⟩ := hcycle.valid.nodes a _ hn
            rw [nodeAt_of_memoryAt hm₁] at hn; cases hn
            have hasks : m₁.requestsTransaction = true := hasks
            rw [Memory.requestsTransaction, hq] at hasks; cases hasks
  subst hreq
  refine ⟨fun a p₂ hp₂ => ?_, fun m₂ hm₂ => ?_⟩
  · obtain ⟨p, p₁, c₂, hc, hq₁, hp₁, hbus, hmax⟩ := processor (hok'.valid.nodes a _ hp₂).1
    rw [hc.after] at hp₂; cases hp₂
    cases hc.passed
    exact ⟨hq₁, hp₁, hbus, hmax⟩
  · obtain ⟨m', hm', hpassed⟩ := hcycle.event.memoryPassed hcycle.valid hcycle.bus hm₁
    rw [hm₂] at hm'; cases hm'
    cases hpassed with
    | polled | idle => exact ⟨htracker, hb, hq⟩

/-! ## Runs -/

/-- One tick of a system with its history. -/
def TickStep (hs hs' : List TickRecord × System) : Prop := System.exec [.tick] hs = .ok hs'

/-- A reachable system, as far as it matters here. -/
def Reaching (ps : Params) (hs : List TickRecord × System) : Prop :=
  hs.2.Ok ps (fun _ => True) ∧ Working ps hs.1 hs.2

theorem ranking_workLeft (hlen : 2 ≤ ps.burstLength) (hlen' : ps.burstLength < 2 ^ 32)
    (hlatency : ps.memoryLatency < 2 ^ 32) :
    Ranking TickStep (Reaching ps) (fun hs => Drained ps hs.2) (fun hs => workLeft ps hs.2) where
  step := by
    intro ⟨h, s⟩ ⟨hok, hw⟩
    obtain ⟨mid, req, s', htick, hcycle, hok'⟩ := System.Ok.tick hok
    refine ⟨(⟨s, req, s'⟩ :: h, s'), ?_, ⟨hok', hw.cycle hlen hlen' hok hok' hcycle⟩,
      fun hd => hd.cycle hcycle hok hok', fun hnot => ?_⟩
    · show System.exec [.tick] (h, s) = _
      rw [System.exec, htick]
      rfl
    · exact (hcycle.workLeft_lt hw hlen hlen' hlatency hok hok').resolve_right fun h0 => hnot h0.2

theorem exec_of_moves {k : Nat} {hs hs' : List TickRecord × System} (hm : Moves TickStep k hs hs') :
    System.exec (List.replicate k .tick) hs = .ok hs' := by
  induction hm with
  | refl => rfl
  | head hstep _ ih =>
      rw [List.replicate_succ, ← List.singleton_append, System.exec_append,
        show System.exec [.tick] _ = _ from hstep, Outcome.ok_bind]
      exact ih

/-- The calls that insert. -/
def Event.isInsertion : Event → Bool
  | .insertInstruction _ _ => true
  | .tick => false

/-- How many ticks suffice: for each instruction its lookup, and all that may come of it. -/
def completionBound (ps : Params) (events : List Event) : Nat :=
  2 * (events.countP Event.isInsertion * (lookupPrice ps + 1)
    + (ps.numProcessors + 1) * ps.burstLength) * (ps.memoryLatency + 3)

/-- An instruction that is inserted is worth its price. -/
theorem busWork_insertInstruction (hok : s.Ok ps Q) {i : Instruction} {n : Nat}
    (heq : s.insertInstruction i n = .ok s') :
    busWork ps s'.interconnect ≤ busWork ps s.interconnect + 2 * (lookupPrice ps + 1) := by
  obtain ⟨p, hp, hlock, hat⟩ := hok.inserted heq
  have hn := hok.insertInstruction_lt heq
  have hsum : totalWork ps s'.interconnect ≤ totalWork ps s.interconnect + (lookupPrice ps + 1) := by
    refine sum_le_sum_add (i := n + 1) (Finset.mem_Icc.mpr ⟨by omega, by omega⟩) ?_
      fun b _ hba => Nat.le_of_eq (workAt_congr ((hat b).trans (if_neg hba)))
    rw [workAt_of_nodeAt ((hat (n + 1)).trans (if_pos rfl)), workAt_of_nodeAt hp]
    show (p.processInstruction i).work ps ≤ p.work ps + _
    unfold Processor.processInstruction
    split
    · simp only [Processor.work, Processor.insertInstruction, List.length_append,
        List.length_singleton, Nat.succ_mul]
      omega
    · exact Nat.le_add_right _ _
  rw [busWork, busWork, hlock]
  omega

theorem System.Initial.workLeft_le (hs : s.Initial ps) : workLeft ps s ≤ completionBound ps [] := by
  have hsum : totalWork ps s.interconnect ≤ (ps.numProcessors + 1) * ps.burstLength := by
    rw [← card_addresses, ← smul_eq_mul]
    refine Finset.sum_le_card_nsmul _ _ _ fun a ha => ?_
    rcases mem_addresses ha with hr | rfl
    · obtain ⟨p, hp, _⟩ := (hs.ok fun _ => True).valid.processor hr.1 hr.2
      have hnew := hs.processor a p hp
      rw [workAt_of_nodeAt hp, hnew]
      show (0 : Nat) * _ + (0 * _ + 0 + 0 + 0 + (ps.burstLength - 0)) ≤ _
      omega
    · obtain ⟨m, hm, _⟩ := (hs.ok fun _ => True).valid.memory
      rw [workAt_of_nodeAt hm, hs.memory _ m (memoryAt_of_nodeAt hm)]
      show (0 : Nat) * _ + 0 + 0 ≤ _
      omega
  obtain ⟨m, hm, _⟩ := (hs.ok fun _ => True).valid.memory
  have hm := memoryAt_of_nodeAt hm
  have hpatience : patienceOf ps s.interconnect = 0 := by
    rw [patienceOf_of_memoryAt hm, hs.memory _ m hm]
    rfl
  rw [workLeft, completionBound, busWork, hs.free, hpatience]
  refine Nat.mul_le_mul_right _ ?_
  show 2 * totalWork ps s.interconnect + 0 ≤ 2 * (0 * _ + _)
  omega

/-- What is left to do is bounded by what was given to the system. -/
theorem System.run_workLeft (hlen : 2 ≤ ps.burstLength) (hlen' : ps.burstLength < 2 ^ 32)
    (hlatency : ps.memoryLatency < 2 ^ 32) {events : List Event}
    (hrun : System.run ps events = .ok (h, s)) :
    s.Ok ps (fun _ => True) ∧ Working ps h s ∧ workLeft ps s ≤ completionBound ps events := by
  refine System.run_events_induct
    (P := fun events h s => Working ps h s ∧ workLeft ps s ≤ completionBound ps events)
    ?_ ?_ ?_ (fun e _ => ?_) hrun
  · intro past h s s' i n hok _ hi heq ⟨hw, hle⟩
    refine ⟨hw.insertInstruction hok hi heq, ?_⟩
    obtain ⟨_, hins⟩ := hok.of_insertInstruction hi heq
    have hbus := busWork_insertInstruction hok heq
    have hpatience : patienceOf ps s'.interconnect = patienceOf ps s.interconnect := by
      rw [patienceOf, hins.memory, ← patienceOf]
    have hone : (past ++ [Event.insertInstruction i n]).countP Event.isInsertion
        = past.countP Event.isInsertion + 1 := List.countP_append
    have hmul := Nat.mul_le_mul_right (ps.memoryLatency + 3) hbus
    have hbound : completionBound ps (past ++ [.insertInstruction i n])
        = completionBound ps past + 2 * (lookupPrice ps + 1) * (ps.memoryLatency + 3) := by
      rw [completionBound, completionBound, hone, ← Nat.add_mul]
      have hprice := Nat.add_mul (past.countP Event.isInsertion) 1 (lookupPrice ps + 1)
      congr 1
      omega
    rw [Nat.add_mul] at hmul
    rw [workLeft] at hle
    rw [workLeft, hpatience, hbound]
    omega
  · intro past h s mid req s' hok hok' hcycle ⟨hw, hle⟩
    refine ⟨hw.cycle hlen hlen' hok hok' hcycle, ?_⟩
    have hsame : completionBound ps (past ++ [.tick]) = completionBound ps past := by
      have hcount : (past ++ [Event.tick]).countP Event.isInsertion
          = past.countP Event.isInsertion := List.countP_append
      rw [completionBound, completionBound, hcount]
    rw [hsame]
    rcases hcycle.workLeft_lt hw hlen hlen' hlatency hok hok' with hlt | ⟨hle', _⟩ <;> omega
  · exact fun s hs => ⟨hs.working hlen, hs.workLeft_le⟩
  · cases e <;> trivial

theorem givenTo_ticks (a k : Nat) : givenTo a (List.replicate k .tick) = [] := by
  induction k with
  | zero => rfl
  | succ k ih => exact ih

/-- **Every instruction completes.** Whatever was done to a system, after so many more ticks it is
drained, and stays so: every load and store that a processor was given is handed over, counted,
and found to be a hit or a miss, and nobody waits for anything. -/
theorem every_instruction_completes (ps : Params) (hlen : 2 ≤ ps.burstLength)
    (hlen' : ps.burstLength < 2 ^ 32) (hlatency : ps.memoryLatency < 2 ^ 32) (events : List Event)
    (h : List TickRecord) (s : System) (hrun : System.run ps events = .ok (h, s)) (k : Nat)
    (hk : completionBound ps events ≤ k) :
    ∃ h' s', System.run ps (events ++ List.replicate k .tick) = .ok (h', s') ∧ Drained ps s'
      ∧ ∀ a p, s'.interconnect.nodeAt a = some (.processor p) →
        handedOver a h' = givenTo a events
        ∧ p.numberMemoryOperations = (givenTo a events).length
        ∧ (givenTo a events).length = p.cacheController.loadHits + p.cacheController.loadMisses
          + p.cacheController.storeHits + p.cacheController.storeMisses := by
  obtain ⟨hok, hw, hle⟩ := System.run_workLeft hlen hlen' hlatency hrun
  obtain ⟨⟨h', s'⟩, hmoves, _, hd⟩ := (ranking_workLeft hlen hlen' hlatency).reaches k
    (s := (h, s)) ⟨hok, hw⟩ (Nat.le_trans hle hk)
  have hrun' : System.run ps (events ++ List.replicate k .tick) = .ok (h', s') := by
    rw [System.run_append, hrun, Outcome.ok_bind]
    exact exec_of_moves hmoves
  refine ⟨h', s', hrun', hd, fun a p hp => ?_⟩
  obtain ⟨hgiven, hops, hcounted⟩ := (System.run_allFollow hrun').2 a p hp
  obtain ⟨hempty, hpending, _⟩ := hd.processor a p hp
  rw [givenTo_append, givenTo_ticks, List.append_nil, hempty, List.append_nil] at hgiven
  rw [Controller.waiting_of_not_pending hpending, Nat.add_zero] at hcounted
  refine ⟨hgiven.symm, ?_, ?_⟩
  · rw [hgiven, hops]
  · rw [hgiven, hops, hcounted]
    rfl

/-- Two processors that contend for a line, one of which has another access to make. -/
def contended : List Event :=
  [.insert .store 64 0, .insert .load 128 0, .insert .store 64 1, .tick]

theorem every_instruction_completes_contended : ∃ h' s', System.run ⟨2, .mesi, 1, 2⟩
    (contended ++ List.replicate (completionBound ⟨2, .mesi, 1, 2⟩ contended) .tick) = .ok (h', s')
      ∧ Drained ⟨2, .mesi, 1, 2⟩ s'
      ∧ ∀ a p, s'.interconnect.nodeAt a = some (.processor p) →
        handedOver a h' = givenTo a contended := by
  obtain ⟨h, s, hrun, -⟩ := System.exists_run ⟨2, .mesi, 1, 2⟩ contended (fun _ _ => true)
    (by decide +kernel)
  obtain ⟨h', s', hrun', hd, hhanded⟩ := every_instruction_completes ⟨2, .mesi, 1, 2⟩ (by decide)
    (by decide) (by decide) _ h s hrun _ (Nat.le_refl _)
  exact ⟨h', s', hrun', hd, fun a p hp => (hhanded a p hp).1⟩

end CoherenceSim
