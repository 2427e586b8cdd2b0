import CoherenceSim.Proof.BusyCycles
import CoherenceSim.Proof.PrivateTraffic

/-!
# A processor that runs alone

The others are given nothing to do, and so the bus is free whenever this processor wants it, and
memory has no read but its one. What is left of a cycle is what the processor's controller does,
what memory does, and at most one transfer between the two; `LoneBus` says which.
-/

namespace CoherenceSim

open BusNode Interconnect

/-- Node `b` has any lines only if it is node `a`. -/
def OnlyAt (a b _key : Nat) : Prop := b = a

variable {ps : Params} {Q : Instruction → Prop} {a : Nat} {ic ic' : Interconnect Node}
  {req : Option BusRequest}

/-! ## The others -/

/-- A controller that has no lines asks for nothing. -/
theorem Controller.Keeps.silent {c : Controller} (hk : c.Keeps fun _ => False) (h : c.Inv) :
    c.requestsTransaction = false ∧ c.maxPriorityQueue = [] := by
  have hurgent : c.maxPriorityQueue = [] :=
    List.eq_nil_iff_forall_not_mem.mpr fun r hr => hk.queued r hr
  have hrest := (h.rest fun hm => hk.awaiting h hm).busReqQueue
  exact ⟨by simp [requestsTransaction, hurgent, hrest], hurgent⟩

/-- The bus before its turn, if only the processor at `a` has lines: its controller and the memory
are all that can ask for it. -/
structure LoneNodes (ps : Params) (Q : Instruction → Prop) (a : Nat) (ic : Interconnect Node)
    (c : Controller) (m : Memory) : Prop where
  valid : Valid ps Q ic
  fresh : AllFresh ic
  kept : ∀ b d, controllerAt ic b = some d → d.Keeps (OnlyAt a b)
  controller : controllerAt ic a = some c
  memory : memoryAt ic (ps.numProcessors + 1) = some m
  bursting : c.bursting = false
  owner : ic.nodeLocked = true → ic.lockedAddress = ps.numProcessors + 1

namespace LoneNodes

variable {c : Controller} {m : Memory}

theorem silent (h : LoneNodes ps Q a ic c m) {b : Nat} {d : Controller}
    (hd : controllerAt ic b = some d) (hb : b ≠ a) :
    d.requestsTransaction = false ∧ d.maxPriorityQueue = [] := by
  have hk := h.kept b d hd
  exact Controller.Keeps.silent ⟨fun i hi => hb (hk.current i hi), fun k hk' => hb (hk.cached k hk'),
    fun r hr => hb (hk.queued r hr)⟩ (h.valid.controller hd).inv

/-- No controller asks for the lock. -/
theorem not_requestsLock (h : LoneNodes ps Q a ic c m) {b : Nat} {p : Processor}
    (hp : ic.nodeAt b = some (.processor p)) : p.cacheController.bursting = false := by
  have hc := controllerAt_of_nodeAt hp
  by_cases hb : b = a
  · subst hb
    rw [h.controller] at hc; cases hc
    exact h.bursting
  · rw [Bool.eq_false_iff]
    intro hburst
    have hasks := requestsTransaction_of_bursting (h.fresh b _ hc).settled hburst
    rw [(h.silent hc hb).1] at hasks
    cases hasks

/-- Whoever is polled and sends nothing is the memory. -/
theorem eq_memory (h : LoneNodes ps Q a ic c m) {b : Nat} {n : Node} (hn : ic.nodeAt b = some n)
    (hc : ic.Chosen b n) (hno : requestsTransaction n = false) :
    b = ps.numProcessors + 1 ∧ n = .memory m ∧ (ic.nodeLocked = true ∨ m.bursting = true) := by
  have atMemory (hb : b = ps.numProcessors + 1) : n = .memory m := by
    rw [hb, nodeAt_of_memoryAt h.memory] at hn
    exact (Option.some.inj hn).symm
  cases hc with
  | locked hl hb =>
      have hb := hb.trans (h.owner hl)
      exact ⟨hb, atMemory hb, Or.inl hl⟩
  | maxPriority _ hm =>
      rw [requestsTransaction_of_maxPriority hm] at hno
      cases hno
  | inOrder _ _ hasks =>
      have hlock : requestsLock n = true := hasks.resolve_right (by simp [hno])
      cases n with
      | processor p =>
          have hfree := h.not_requestsLock hn
          rw [show p.cacheController.bursting = true from hlock] at hfree
          cases hfree
      | memory m' =>
          have hb : b = ps.numProcessors + 1 := (h.valid.nodes b _ hn).1
          cases atMemory hb
          exact ⟨hb, rfl, Or.inr hlock⟩

end LoneNodes

/-! ## The bus -/

/-- What the bus half of a cycle makes of the controller, the memory and the lock. -/
inductive LoneBus (a : Nat) (c : Controller) (m : Memory) (locked : Bool) :
    Option BusRequest → Controller → Memory → Bool → Prop
  | rests : locked = false → c.requestsTransaction = false → m.busReqQueue = [] →
      m.bursting = false → LoneBus a c m locked none c m false
  | polls : locked = true ∨ m.bursting = true → m.busReqQueue = [] →
      LoneBus a c m locked none c { m with nodeIsLocked := m.bursting } m.bursting
  | commands {r : BusRequest} {c' : Controller} : locked = false → r.sourceAddress = a →
      Controller.Sent c.polled r c' →
      LoneBus a c m locked (some r) c' (m.acceptBusTransaction r) false
  | answers {r : BusRequest} {rest : List BusRequest} {c' : Controller} :
      m.busReqQueue = r :: rest → r.sourceAddress ≠ a →
      (if Receives r a then Controller.Snooped r c c' else c' = c) →
      LoneBus a c m locked (some r) c'
        { m with
          nodeIsLocked := m.bursting
          busReqQueue := rest
          memSendCounts := m.memSendCounts + 1 }
        m.bursting

variable {c : Controller} {m : Memory}

/-- **The bus of a processor that runs alone.** -/
theorem LoneNodes.bus (h : LoneNodes ps Q a ic c m) (hev : BusEvent ps ic req ic')
    (hb : BusTick ic req ic') : ∃ c' m', controllerAt ic' a = some c'
      ∧ memoryAt ic' (ps.numProcessors + 1) = some m'
      ∧ LoneBus a c m ic.nodeLocked req c' m' ic'.nodeLocked
      ∧ (ic'.nodeLocked = true → ic'.lockedAddress = ps.numProcessors + 1) := by
  obtain ⟨p, hp, rfl⟩ := nodeAt_of_controllerAt h.controller
  have hrange := (h.valid.controller h.controller).range
  have hm := nodeAt_of_memoryAt h.memory
  cases hev with
  | quiet _ _ howner _ =>
      cases hb with
      | rest hfree hno hfree' hat =>
          obtain ⟨_, hasks⟩ := hno a _ hp
          obtain ⟨hburst, hnone⟩ := hno _ _ hm
          refine ⟨_, m, controllerAt_of_nodeAt ((hat a).trans hp),
            memoryAt_of_nodeAt ((hat _).trans hm), ?_, fun h0 => (howner h0).1⟩
          rw [hfree']
          exact .rests hfree hasks (by simpa [requestsTransaction, Memory.requestsTransaction]
            using hnone) hburst
      | @poll b n _ hn hc hno hr hat =>
          obtain ⟨rfl, rfl, hwhy⟩ := h.eq_memory hn hc hno
          refine ⟨_, _, controllerAt_of_nodeAt ((hat a).trans ((if_neg (by omega)).trans hp)),
            memoryAt_of_nodeAt ((hat _).trans ((if_pos rfl).trans
              (congrArg some (relock_memory m)))), ?_, fun h0 => (howner h0).1⟩
          rw [hr.nodeLocked]
          exact .polls hwhy (by simpa [requestsTransaction, Memory.requestsTransaction] using hno)
  | @controller b d d' r _ hd hsrc _ howner _ hs hd' _ hmem hlocked _ =>
      -- whoever sends has a line to ask for
      have hkept := h.kept b d hd
      obtain rfl : b = a := (hs.keeps (h.valid.controller hd).inv.frame
        ⟨hkept.current, hkept.cached, hkept.queued⟩).1
      rw [h.controller] at hd; cases hd
      have hfree : ic.nodeLocked = false := by
        rw [Bool.eq_false_iff]
        intro hl
        have := (howner hl).symm.trans (h.owner hl)
        omega
      refine ⟨d', _, hd', hmem _ m h.memory, ?_, fun h0 => ?_⟩
      · rw [hlocked, h.bursting]
        exact .commands hfree hsrc hs
      · rw [hlocked, h.bursting] at h0
        cases h0
  | memory hm' hsrc _ _ _ hq hm'' hother hlocked howner =>
      rw [h.memory] at hm'; cases hm'
      have hheard := hother a _ h.controller
      have hne : ¬ ps.numProcessors + 1 = a := by omega
      split at hheard
      · rename_i hrec
        obtain ⟨c', hs, hc'⟩ := hheard
        refine ⟨c', _, hc', hm'', ?_, fun h0 => howner (hlocked ▸ h0)⟩
        rw [hlocked]
        exact .answers hq (hsrc ▸ hne) (by rw [if_pos hrec]; exact hs)
      · rename_i hrec
        refine ⟨_, _, hheard, hm'', ?_, fun h0 => howner (hlocked ▸ h0)⟩
        rw [hlocked]
        exact .answers hq (hsrc ▸ hne) (by rw [if_neg hrec])

/-- What a cycle adds to `busyCycles`. -/
def busyStep (c : Controller) (locked : Bool) (req : Option BusRequest) (locked' : Bool) : Nat :=
  if locked = false ∧ c.maxPriorityQueue ≠ [] then 0 else (req.isSome || locked || locked').toNat

theorem LoneNodes.busyCycles (h : LoneNodes ps Q a ic c m) (htick : ic.tick = .ok (req, ic')) :
    ic'.busyCycles = ic.busyCycles + busyStep c ic.nodeLocked req ic'.nodeLocked := by
  obtain ⟨p, hp, rfl⟩ := nodeAt_of_controllerAt h.controller
  have hmax : ic.anyNode requestsMaxPriority = true ↔ p.cacheController.maxPriorityQueue ≠ [] := by
    rw [anyNode_iff]
    constructor
    · rintro ⟨b, n, hn, hasks⟩
      cases n with
      | memory => cases hasks
      | processor d =>
          have hasks : decide (0 < d.cacheController.maxPriorityQueue.length) = true := hasks
          by_cases hb : b = a
          · subst hb
            rw [hp] at hn; cases hn
            exact List.ne_nil_of_length_pos (of_decide_eq_true hasks)
          · rw [(h.silent (controllerAt_of_nodeAt hn) hb).2] at hasks
            cases hasks
    · intro hne
      exact ⟨a, _, hp, decide_eq_true (List.length_pos_iff.mpr hne)⟩
  rw [h.valid.shape.tick_counts htick, busyStep]
  cases hl : ic.nodeLocked <;> simp [hmax]

end CoherenceSim
