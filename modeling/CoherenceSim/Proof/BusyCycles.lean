import CoherenceSim.Proof.SystemTick

/-!
# Busy cycles

The arbitration serves a node in one of three places: the holder of the lock, a node that
asks for maximum priority, or the first in the queue that wants something. `busyCycles` is
incremented in the first and in the last of them. It falls behind by one in every tick that
takes the second.
-/

namespace CoherenceSim

open BusNode

namespace Interconnect

variable {ν : Type}

/-- Does some node satisfy `f`? -/
def anyNode (f : ν → Bool) (ic : Interconnect ν) : Bool :=
  ic.nodes.keys.any fun a => (ic.nodeAt a).any f

/-! ## What is counted -/

theorem deliverTo_counts [BusNode ν] {ic ic' : Interconnect ν} {r : BusRequest} {a : Nat}
    (h : ic.deliverTo r a = .ok ic') :
    ic'.busyCycles = ic.busyCycles ∧ ic'.nodeLocked = ic.nodeLocked := by
  obtain ⟨n, _, h⟩ := Outcome.bind_eq_ok.mp h
  obtain ⟨n', _, h⟩ := Outcome.bind_eq_ok.mp h
  cases h
  exact ⟨rfl, rfl⟩

theorem deliver_counts [BusNode ν] {r : BusRequest} (l : List Nat) :
    ∀ {ic ic' : Interconnect ν}, l.foldlM (fun ic a => ic.deliverTo r a) ic = .ok ic' →
      ic'.busyCycles = ic.busyCycles ∧ ic'.nodeLocked = ic.nodeLocked := by
  induction l with
  | nil => intro ic ic' h; cases h; exact ⟨rfl, rfl⟩
  | cons a l ih =>
      intro ic ic' h
      rw [List.foldlM_cons] at h
      obtain ⟨ic₁, h₁, h⟩ := Outcome.bind_eq_ok.mp h
      have hfirst := deliverTo_counts h₁
      have hrest := ih h
      exact ⟨hrest.1.trans hfirst.1, hrest.2.trans hfirst.2⟩

theorem polled_counts [BusNode ν] (ic : Interconnect ν) (a : Nat) (n : ν) :
    (ic.polled a n).busyCycles = ic.busyCycles ∧ (ic.polled a n).nodeLocked = requestsLock n := by
  refine ⟨?_, (relocked_polled ic a n).nodeLocked⟩
  unfold polled
  split <;> rfl

theorem finish_counts [BusNode ν] {ic ic' : Interconnect ν}
    (h : (ic.collectBusStatistics >>= Interconnect.updatePriorityQueue) = .ok ic') :
    ic'.busyCycles = ic.busyCycles ∧ ic'.nodeLocked = ic.nodeLocked := by
  obtain ⟨ic₁, h₁, h⟩ := Outcome.bind_eq_ok.mp h
  obtain ⟨count, _, h₁⟩ := Outcome.bind_eq_ok.mp h₁
  cases h₁
  unfold Interconnect.updatePriorityQueue at h
  split at h
  · split at h
    · cases h; exact ⟨rfl, rfl⟩
    · cases h
  · cases h; exact ⟨rfl, rfl⟩

variable [BusNode ν] [LawfulBusNode ν]

/-- Serving a node counts nothing. It reports whether a request was taken or the lock given. -/
theorem serviceBusNode_counts {ic ic' : Interconnect ν} {a : Nat} {served : Bool}
    {req : Option BusRequest} (h : ic.serviceBusNode a = .ok (served, req, ic')) :
    ic'.busyCycles = ic.busyCycles ∧ served = (req.isSome || ic'.nodeLocked) := by
  obtain ⟨n, hn⟩ : ∃ n, ic.nodeAt a = some n := by
    obtain ⟨n, hn, _⟩ := Outcome.bind_eq_ok.mp h
    unfold getNode at hn
    split at hn
    · rename_i hn'
      exact ⟨_, hn'⟩
    · cases hn
  rw [serviceBusNode_eq hn] at h
  obtain ⟨hbusy, hlocked⟩ := polled_counts ic a n
  split at h
  · obtain ⟨⟨r, n'⟩, _, h⟩ := Outcome.bind_eq_ok.mp h
    -- the request goes to everybody or to one node
    dsimp only at h
    split at h
    · obtain ⟨ic₁, h₁, h⟩ := Outcome.bind_eq_ok.mp h
      cases h
      exact ⟨(deliver_counts _ h₁).1.trans hbusy, rfl⟩
    · obtain ⟨ic₁, h₁, h⟩ := Outcome.bind_eq_ok.mp h
      cases h
      exact ⟨(deliverTo_counts h₁).1.trans hbusy, rfl⟩
  · cases h
    exact ⟨hbusy, hlocked.symm⟩

/-- The ordinary scan of a free bus counts the tick in which it found something. -/
theorem serviceInOrder_counts (l : List Nat) : ∀ {ic ic' : Interconnect ν} {req : Option BusRequest},
    ic.nodeLocked = false → ic.serviceInOrder l = .ok (req, ic') →
    ic'.busyCycles = ic.busyCycles + (req.isSome || ic'.nodeLocked).toNat := by
  induction l with
  | nil =>
      intro ic ic' req hfree h
      cases h
      rw [hfree]
      rfl
  | cons a l ih =>
      intro ic ic' req hfree h
      obtain ⟨⟨served, req₁, ic₁⟩, h₁, h⟩ := Outcome.bind_eq_ok.mp h
      obtain ⟨hbusy, hserved⟩ := serviceBusNode_counts h₁
      cases served with
      | true =>
          cases h
          show ic₁.busyCycles + 1 = ic.busyCycles + (req.isSome || ic₁.nodeLocked).toNat
          rw [hbusy, ← hserved]
          rfl
      | false =>
          have hfree₁ : ic₁.nodeLocked = false := by
            cases hl : ic₁.nodeLocked with
            | false => rfl
            | true => rw [hl, Bool.or_true] at hserved; cases hserved
          rw [← hbusy]
          exact ih hfree₁ h

omit [BusNode ν] [LawfulBusNode ν] in
theorem anyNode_iff {f : ν → Bool} {ic : Interconnect ν} :
    ic.anyNode f = true ↔ ∃ a n, ic.nodeAt a = some n ∧ f n = true := by
  rw [anyNode, List.any_eq_true]
  constructor
  · rintro ⟨a, _, ha⟩
    cases hn : ic.nodeAt a with
    | none => rw [hn] at ha; cases ha
    | some n => rw [hn] at ha; exact ⟨a, n, hn, ha⟩
  · rintro ⟨a, n, hn, hf⟩
    refine ⟨a, nodeAt_isSome.mp (by rw [hn]; rfl), ?_⟩
    rw [hn]
    exact hf

omit [LawfulBusNode ν] in
theorem LockOk.lockHeld {ic : Interconnect ν} (h : ic.LockOk) :
    ic.anyNode hasLock = ic.nodeLocked := by
  rw [Bool.eq_iff_iff, anyNode_iff]
  constructor
  · rintro ⟨a, n, hn, hl⟩
    exact ((h.lock a n hn).mp hl).1
  · intro hl
    obtain ⟨n, hn⟩ := Option.isSome_iff_exists.mp (h.locked hl)
    exact ⟨_, n, hn, (h.lock _ n hn).mpr ⟨hl, rfl⟩⟩

/-- **What a tick counts**: itself, if it was busy, and did not serve a node for its maximum
priority. -/
theorem Shape.tick_counts {ic ic' : Interconnect ν} {req : Option BusRequest} (hs : ic.Shape)
    (h : ic.tick = .ok (req, ic')) :
    ic'.busyCycles = ic.busyCycles + (if ic.nodeLocked then 1
      else if ic.anyNode requestsMaxPriority then 0 else (req.isSome || ic'.nodeLocked).toNat) := by
  have finish {req₁ : Option BusRequest} {ic₁ : Interconnect ν} (h : (do
        let ic₂ ← ic₁.collectBusStatistics
        pure (req₁, ← ic₂.updatePriorityQueue)) = (.ok (req, ic') : Outcome _)) :
      req₁ = req ∧ ic'.busyCycles = ic₁.busyCycles ∧ ic'.nodeLocked = ic₁.nodeLocked := by
    obtain ⟨ic₂, h₂, h⟩ := Outcome.bind_eq_ok.mp h
    obtain ⟨ic₃, h₃, h⟩ := Outcome.bind_eq_ok.mp h
    cases h
    exact ⟨rfl, finish_counts (Outcome.bind_eq_ok.mpr ⟨ic₂, h₂, h₃⟩)⟩
  cases hl : ic.nodeLocked with
  | true =>
      rw [Interconnect.tick, hl, if_pos rfl] at h
      obtain ⟨⟨_, _, ic₁⟩, h₁, h⟩ := Outcome.bind_eq_ok.mp h
      obtain ⟨_, hbusy, _⟩ := finish h
      rw [hbusy]
      show ic₁.busyCycles + 1 = ic.busyCycles + 1
      rw [(serviceBusNode_counts h₁).1]
  | false =>
      rw [Interconnect.tick, hl, if_neg (by simp)] at h
      obtain ⟨⟨_, ic₁⟩, h₁, h⟩ := Outcome.bind_eq_ok.mp h
      obtain ⟨rfl, hbusy, hlocked⟩ := finish h
      rw [hbusy, hlocked, if_neg (by simp)]
      obtain ⟨res, hres, h₁⟩ := Outcome.bind_eq_ok.mp h₁
      obtain ⟨res', hres', hspec⟩ := findMaxPriority_spec ic.priorityQueue fun a ha =>
        hs.exists_node ha
      rw [hres] at hres'
      cases hres'
      cases res with
      | some a =>
          -- served for its maximum priority, and not counted
          obtain ⟨n, hn, hmax⟩ := hspec
          obtain ⟨⟨_, _, ic₂⟩, h₂, h₁⟩ := Outcome.bind_eq_ok.mp h₁
          cases h₁
          rw [if_pos (anyNode_iff.mpr ⟨a, n, hn, hmax⟩)]
          exact (serviceBusNode_counts h₂).1
      | none =>
          have hnone : ¬ ic.anyNode requestsMaxPriority = true := by
            rw [anyNode_iff]
            rintro ⟨a, n, hn, hmax⟩
            have ha : a ∈ ic.priorityQueue := (hs.queue a).mpr (nodeAt_isSome.mp (by rw [hn]; rfl))
            rw [hspec a ha n hn] at hmax
            cases hmax
          rw [if_neg hnone]
          exact serviceInOrder_counts _ hl h₁

end Interconnect

/-! ## Runs -/

/-- `Interconnect::Tick` was busy: it transferred a request, or a node held the lock as it
began or as it ended. -/
def TickRecord.busy (x : TickRecord) : Bool :=
  x.sent.isSome || x.before.interconnect.anyNode hasLock || x.after.interconnect.anyNode hasLock

/-- `Interconnect::Tick` found the bus free and a node that asks for maximum priority. -/
def TickRecord.servesMaxPriority (x : TickRecord) : Bool :=
  match x.before.tickNodes with
  | .ok mid => !mid.interconnect.anyNode hasLock && mid.interconnect.anyNode requestsMaxPriority
  | .error _ => false

variable {ps : Params} {Q : Instruction → Prop} {h : List TickRecord} {s mid s' : System}
  {req : Option BusRequest}

theorem System.tickNodes_busyCycles (hmid : s.tickNodes = .ok mid) :
    mid.interconnect.busyCycles = s.interconnect.busyCycles := by
  have tick_all (l : List Nat) : ∀ (s s' : System), l.foldlM tickProcessor s = .ok s' →
      s'.interconnect.busyCycles = s.interconnect.busyCycles := by
    induction l with
    | nil => intro s s' h; cases h; rfl
    | cons a l ih =>
        intro s s' h
        rw [List.foldlM_cons] at h
        obtain ⟨s₁, h₁, h⟩ := Outcome.bind_eq_ok.mp h
        obtain ⟨p, _, h₁⟩ := Outcome.bind_eq_ok.mp h₁
        obtain ⟨p', _, h₁⟩ := Outcome.bind_eq_ok.mp h₁
        cases h₁
        exact (ih _ _ h).trans rfl
  obtain ⟨s₁, h₁, hmid⟩ := Outcome.bind_eq_ok.mp hmid
  obtain ⟨m, _, hmid⟩ := Outcome.bind_eq_ok.mp hmid
  obtain ⟨m', _, hmid⟩ := Outcome.bind_eq_ok.mp hmid
  cases hmid
  have htick := tick_all _ _ _ h₁
  exact htick

theorem Interconnect.addNode_busyCycles {ic ic' : Interconnect Node} {n : Node} {a : Nat}
    (h : ic.addNode n a = .ok ic') : ic'.busyCycles = ic.busyCycles := by
  obtain ⟨_, _, h⟩ := Outcome.bind_eq_ok.mp h
  obtain ⟨_, _, h⟩ := Outcome.bind_eq_ok.mp h
  cases h
  rfl

theorem System.new_busyCycles
    (heq : System.new ps.numProcessors ps.controllerType ps.memoryLatency ps.burstLength = .ok s) :
    s.interconnect.busyCycles = 0 := by
  have add_all (l : List Nat) : ∀ ic ic' : Interconnect Node,
      addProcessors ps.controllerType ps.burstLength l ic = .ok ic' →
      ic'.busyCycles = ic.busyCycles := by
    induction l with
    | nil => intro ic ic' h; cases h; rfl
    | cons i l ih =>
        intro ic ic' h
        obtain ⟨ic₁, h₁, h⟩ := Outcome.bind_eq_ok.mp h
        exact (ih _ _ h).trans (Interconnect.addNode_busyCycles h₁)
  obtain ⟨ic₁, h₁, heq⟩ := Outcome.bind_eq_ok.mp heq
  obtain ⟨ic₂, h₂, heq⟩ := Outcome.bind_eq_ok.mp heq
  cases heq
  exact (Interconnect.addNode_busyCycles h₂).trans (add_all _ _ _ h₁)

/-- A node that asks for maximum priority has a request. -/
theorem requestsTransaction_of_maxPriority {n : Node} (h : requestsMaxPriority n = true) :
    requestsTransaction n = true := by
  cases n with
  | memory m => cases h
  | processor p =>
      have h : decide (0 < p.cacheController.maxPriorityQueue.length) = true := h
      show (_ || decide (0 < p.cacheController.maxPriorityQueue.length)) = true
      rw [h, Bool.or_true]

/-- A node that is served for its maximum priority does transfer a request. -/
theorem Interconnect.BusTick.sent_of_maxPriority {ic ic' : Interconnect Node}
    (hb : BusTick ic req ic') (hfree : ic.nodeLocked = false)
    (hmax : ic.anyNode requestsMaxPriority = true) : req.isSome = true := by
  obtain ⟨a, n, hn, hmax⟩ := anyNode_iff.mp hmax
  cases hb with
  | rest _ hidle =>
      have := (hidle a n hn).2
      rw [requestsTransaction_of_maxPriority hmax] at this
      cases this
  | poll _ hc hreq =>
      cases hc with
      | locked hl => rw [hfree] at hl; cases hl
      | maxPriority _ hmax' =>
          rw [requestsTransaction_of_maxPriority hmax'] at hreq
          cases hreq
      | inOrder _ hno => rw [hno a n hn] at hmax; cases hmax
  | transfer => rfl

/-- **One cycle's count.** -/
theorem Cycle.busyCycles (hok : s.Ok ps Q) (hok' : s'.Ok ps Q) (hc : Cycle ps Q s mid req s') :
    s'.interconnect.busyCycles + (TickRecord.servesMaxPriority ⟨s, req, s'⟩).toNat
      = s.interconnect.busyCycles + (TickRecord.busy ⟨s, req, s'⟩).toNat := by
  have htick : mid.interconnect.tick = .ok (req, s'.interconnect) := by
    obtain ⟨⟨req', ic'⟩, htick, h⟩ := Outcome.bind_eq_ok.mp hc.tickInterconnect
    cases h
    exact htick
  have hcount := hc.valid.shape.tick_counts htick
  rw [System.tickNodes_busyCycles hc.tickNodes] at hcount
  have hserves : TickRecord.servesMaxPriority ⟨s, req, s'⟩
      = (!mid.interconnect.nodeLocked && mid.interconnect.anyNode requestsMaxPriority) := by
    simp only [TickRecord.servesMaxPriority, hc.tickNodes, hc.valid.lock.lockHeld]
  have hbusy : TickRecord.busy ⟨s, req, s'⟩
      = (req.isSome || mid.interconnect.nodeLocked || s'.interconnect.nodeLocked) := by
    simp only [TickRecord.busy, hok.valid.lock.lockHeld, hok'.valid.lock.lockHeld,
      hc.ticks.nodeLocked]
  rw [hserves, hbusy, hcount]
  cases hl : mid.interconnect.nodeLocked with
  | true => simp
  | false =>
      cases hmax : mid.interconnect.anyNode requestsMaxPriority with
      | true => simp [hc.bus.sent_of_maxPriority hl hmax]
      | false => simp

/-- **What the counter is worth**: it lacks the ticks that served a node for its maximum
priority. -/
theorem Run.busyCycles (hrun : Run ps h s) :
    s.interconnect.busyCycles + h.countP (·.servesMaxPriority) = h.countP (·.busy) := by
  induction hrun with
  | new heq => exact System.new_busyCycles heq
  | @insertInstruction h s s' i n hrun heq ih =>
      obtain ⟨p, _, rfl⟩ := hrun.ok.insertInstruction_eq heq
      exact ih
  | @tick h s s' req hrun heq ih =>
      obtain ⟨mid, req', s₁, heq', hcycle, hok'⟩ := hrun.ok.tick
      rw [heq] at heq'
      cases heq'
      have hstep := hcycle.busyCycles hrun.ok hok'
      rw [TickRecord.countP_cons, TickRecord.countP_cons]
      omega

/-- The bus has counted the ticks in which it was busy, and no others. -/
def CountsBusyCycles (h : List TickRecord) (s : System) : Prop :=
  s.interconnect.busyCycles = h.countP (·.busy)

instance (h : List TickRecord) (s : System) : Decidable (CountsBusyCycles h s) := by
  unfold CountsBusyCycles; infer_instance

/-- **When the busy cycles are counted exactly**: when no tick found the bus free and a node that
asks for maximum priority. -/
theorem busy_cycles_counted (ps : Params) (h : List TickRecord) (s : System)
    (hrun : Run ps h s) :
    CountsBusyCycles h s ↔ ∀ x ∈ h, x.servesMaxPriority = false := by
  have hcount := hrun.busyCycles
  rw [CountsBusyCycles]
  constructor
  · intro heq
    have hzero : h.countP (·.servesMaxPriority) = 0 := by omega
    exact TickRecord.countP_eq_zero.mp hzero
  · intro hnone
    have hzero : h.countP (·.servesMaxPriority) = 0 := TickRecord.countP_eq_zero.mpr hnone
    omega

/-- Two processors store to one line, and the first has to give it up: its write-back is served
for its maximum priority, and the counter misses that tick. -/
theorem not_countsBusyCycles : ∃ h s, Run ⟨2, .mesi, 1, 2⟩ h s ∧ ¬ CountsBusyCycles h s := by
  obtain ⟨h, s, hrun, hmiss⟩ := Run.of_run ⟨2, .mesi, 1, 2⟩
    ([.insert .store 64 0, .insert .store 64 1] ++ List.replicate 12 .tick)
    (fun h s => decide (¬ CountsBusyCycles h s)) (by decide +kernel)
  exact ⟨h, s, hrun, of_decide_eq_true hmiss⟩

theorem busy_cycles_counted_one_store : ∃ h s, Run ⟨2, .mesi, 1, 2⟩ h s
    ∧ 3 ≤ s.interconnect.busyCycles ∧ CountsBusyCycles h s := by
  obtain ⟨h, s, hrun, hp⟩ := Run.of_run ⟨2, .mesi, 1, 2⟩
    (.insert .store 64 0 :: List.replicate 8 .tick)
    (fun h s => decide (3 ≤ s.interconnect.busyCycles ∧ ∀ x ∈ h, x.servesMaxPriority = false))
    (by decide +kernel)
  obtain ⟨hlen, hnone⟩ := of_decide_eq_true hp
  exact ⟨h, s, hrun, hlen, (busy_cycles_counted _ h s hrun).mpr hnone⟩

end CoherenceSim
