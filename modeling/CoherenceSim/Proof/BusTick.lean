import CoherenceSim.Lib.Outcome
import CoherenceSim.Model.Interconnect

/-!
# One tick of the interconnect

The arbitration loop polls nodes in a rotating order and grants and releases locks on the
way. `BusTick` says what a whole tick amounts to: at most one node is chosen and, if it
has a request, its request is taken and delivered once to everyone it is meant for.

That the poll leaves no other trace rests on `LockOk`: when the bus is not locked no node
has a lock, so releasing the lock of a polled node changes nothing.
-/

namespace CoherenceSim

open BusNode

/-- What the interconnect relies on: `grantLock` and `releaseLock` do what they say, and
have no influence on what a node asks for. -/
class LawfulBusNode (ν : Type) [BusNode ν] : Prop where
  hasLock_grantLock (n : ν) : hasLock (grantLock n) = true
  hasLock_releaseLock (n : ν) : hasLock (releaseLock n) = false
  releaseLock_of_not (n : ν) : hasLock n = false → releaseLock n = n
  requestsTransaction_grantLock (n : ν) : requestsTransaction (grantLock n) = requestsTransaction n
  requestsTransaction_releaseLock (n : ν) :
    requestsTransaction (releaseLock n) = requestsTransaction n

namespace Interconnect

variable {ν : Type}

/-- The node at an address. -/
def nodeAt (ic : Interconnect ν) (address : Nat) : Option ν := ic.nodes.find? address

/-- The two lists of addresses agree. -/
structure Shape (ic : Interconnect ν) : Prop where
  sorted : OrdMap.Sorted ic.nodes
  queue : ∀ a, a ∈ ic.priorityQueue ↔ a ∈ ic.nodes.keys

/-! ## Writing through a pointer -/

@[simp] theorem nodeAt_putNode (ic : Interconnect ν) (a : Nat) (n : ν) (b : Nat) :
    (ic.putNode a n).nodeAt b = if b = a then some n else ic.nodeAt b :=
  OrdMap.find?_assign a n ic.nodes b

theorem nodeAt_isSome {ic : Interconnect ν} {a : Nat} :
    (ic.nodeAt a).isSome ↔ a ∈ ic.nodes.keys := OrdMap.find?_isSome

theorem getNode_eq {ic : Interconnect ν} {a : Nat} {n : ν} (h : ic.nodeAt a = some n) :
    ic.getNode a = .ok n := by
  rw [nodeAt] at h
  simp [getNode, h]

theorem Shape.putNode {ic : Interconnect ν} (h : ic.Shape) {a : Nat} {m : ν}
    (hm : ic.nodeAt a = some m) (n : ν) :
    (ic.putNode a n).Shape ∧ (ic.putNode a n).nodes.keys = ic.nodes.keys := by
  have hkeys : (ic.putNode a n).nodes.keys = ic.nodes.keys :=
    OrdMap.keys_assign h.sorted (nodeAt_isSome.mp (by rw [hm]; rfl))
  refine ⟨⟨OrdMap.sorted_assign h.sorted, fun b => ?_⟩, hkeys⟩
  rw [hkeys]
  exact h.queue b

theorem Shape.exists_node {ic : Interconnect ν} (h : ic.Shape) {a : Nat}
    (ha : a ∈ ic.priorityQueue) : ∃ n, ic.nodeAt a = some n :=
  Option.isSome_iff_exists.mp (nodeAt_isSome.mpr ((h.queue a).mp ha))

/-! ## What a tick does -/

variable [BusNode ν]

/-- **Mutual exclusion.** The node with the lock is the one at `lockedAddress`, and there
is one exactly when `nodeLocked` is set. -/
structure LockOk (ic : Interconnect ν) : Prop where
  lock : ∀ a n, ic.nodeAt a = some n →
    (hasLock n = true ↔ ic.nodeLocked = true ∧ a = ic.lockedAddress)
  locked : ic.nodeLocked = true → (ic.nodeAt ic.lockedAddress).isSome

/-- The lock of a node after it was polled. -/
def relock (n : ν) : ν := if requestsLock n then grantLock n else releaseLock n

/-- The node that a tick serves. -/
inductive Chosen (ic : Interconnect ν) (a : Nat) (n : ν) : Prop
  | locked : ic.nodeLocked = true → a = ic.lockedAddress → Chosen ic a n
  | maxPriority : ic.nodeLocked = false → requestsMaxPriority n = true → Chosen ic a n
  | inOrder : ic.nodeLocked = false →
      (∀ b m, ic.nodeAt b = some m → requestsMaxPriority m = false) →
      (requestsLock n = true ∨ requestsTransaction n = true) → Chosen ic a n

/-- The nodes that a request is meant for. -/
def Receives (r : BusRequest) (b : Nat) : Prop :=
  if r.targetAddress = BROADCAST_ADX then b ≠ r.sourceAddress else b = r.targetAddress

instance (r : BusRequest) (b : Nat) : Decidable (Receives r b) := by
  unfold Receives; infer_instance

/-- The lock after the node at `a` was served. -/
structure Relocked (ic : Interconnect ν) (a : Nat) (n : ν) (ic' : Interconnect ν) : Prop where
  nodeLocked : ic'.nodeLocked = requestsLock n
  lockedAddress : requestsLock n = true → ic'.lockedAddress = a

/-- What a tick does, with the request that it took. -/
inductive BusTick (ic : Interconnect ν) : Option BusRequest → Interconnect ν → Prop
  | rest {ic' : Interconnect ν} : ic.nodeLocked = false →
      (∀ b n, ic.nodeAt b = some n → requestsLock n = false ∧ requestsTransaction n = false) →
      ic'.nodeLocked = false → (∀ b, ic'.nodeAt b = ic.nodeAt b) → BusTick ic none ic'
  | poll {a : Nat} {n : ν} {ic' : Interconnect ν} : ic.nodeAt a = some n → Chosen ic a n →
      requestsTransaction n = false → Relocked ic a n ic' →
      (∀ b, ic'.nodeAt b = if b = a then some (relock n) else ic.nodeAt b) → BusTick ic none ic'
  | transfer {a : Nat} {n n' : ν} {r : BusRequest} {ic' : Interconnect ν} :
      ic.nodeAt a = some n → Chosen ic a n → requestsTransaction n = true →
      initiateBusTransaction (relock n) = .ok (r, n') → Relocked ic a n ic' →
      (∀ b, ic.nodeAt b = none → ic'.nodeAt b = none) →
      (∀ b m, (if b = a then some n' else ic.nodeAt b) = some m →
        if Receives r b then ∃ m', acceptBusTransaction m r = .ok m' ∧ ic'.nodeAt b = some m'
        else ic'.nodeAt b = some m) → BusTick ic (some r) ic'

/-- The statistics, and the order of the queue, are no part of what a tick does. -/
theorem BusTick.congr {ic ic' ic'' : Interconnect ν} {req : Option BusRequest}
    (h : BusTick ic req ic') (hn : ic''.nodes = ic'.nodes) (hl : ic''.nodeLocked = ic'.nodeLocked)
    (hla : ic''.lockedAddress = ic'.lockedAddress) : BusTick ic req ic'' := by
  have hat : ∀ b, ic''.nodeAt b = ic'.nodeAt b := fun b => by rw [nodeAt, hn, ← nodeAt]
  cases h with
  | rest h₁ h₂ h₃ h₄ => exact .rest h₁ h₂ (hl.trans h₃) fun b => (hat b).trans (h₄ b)
  | poll h₁ h₂ h₃ h₄ h₅ =>
      exact .poll h₁ h₂ h₃ ⟨hl.trans h₄.nodeLocked, fun h0 => hla.trans (h₄.lockedAddress h0)⟩
        fun b => (hat b).trans (h₅ b)
  | transfer h₁ h₂ h₃ h₄ h₅ h₆ h₇ =>
      refine .transfer h₁ h₂ h₃ h₄ ⟨hl.trans h₅.nodeLocked, fun h0 => hla.trans (h₅.lockedAddress h0)⟩
        (fun b hb => (hat b).trans (h₆ b hb)) fun b m hm => ?_
      rw [hat]
      exact h₇ b m hm

/-- What no call on a node changes, a tick does not change. -/
theorem BusTick.map_eq {ic ic' : Interconnect ν} {req : Option BusRequest} (h : BusTick ic req ic')
    {β : Type} {f : ν → β} (hgrant : ∀ n, f (grantLock n) = f n)
    (hrelease : ∀ n, f (releaseLock n) = f n)
    (hinit : ∀ n r n', initiateBusTransaction n = .ok (r, n') → f n' = f n)
    (haccept : ∀ n r n', acceptBusTransaction n r = .ok n' → f n' = f n) (b : Nat) :
    (ic'.nodeAt b).map f = (ic.nodeAt b).map f := by
  have hrelock (n : ν) : f (relock n) = f n := by
    unfold relock
    split
    · exact hgrant n
    · exact hrelease n
  cases h with
  | rest _ _ _ hat => rw [hat]
  | @poll a n _ hn _ _ _ hat =>
      rw [hat]
      split
      · rename_i hba
        rw [hba, hn, Option.map_some, Option.map_some, hrelock]
      · rfl
  | @transfer a n n' r _ hn _ _ hstart _ hnone hat =>
      cases hb : ic.nodeAt b with
      | none => rw [hnone b hb]
      | some m₀ =>
          obtain ⟨m, hm, hf⟩ : ∃ m, (if b = a then some n' else ic.nodeAt b) = some m ∧ f m = f m₀ := by
            by_cases hba : b = a
            · subst hba
              rw [hn] at hb; cases hb
              exact ⟨n', if_pos rfl, (hinit _ _ _ hstart).trans (hrelock n)⟩
            · exact ⟨m₀, (if_neg hba).trans hb, rfl⟩
          have hm' := hat b m hm
          split at hm'
          · obtain ⟨m', hacc, hm'⟩ := hm'
            rw [hm', Option.map_some, Option.map_some, haccept m r m' hacc, hf]
          · rw [hm', Option.map_some, Option.map_some, hf]

/-! ## Visiting nodes -/

/-- Replace a node by what `f` makes of it. -/
def visit (f : ν → Outcome ν) (ic : Interconnect ν) (a : Nat) : Outcome (Interconnect ν) := do
  let n ← ic.getNode a
  pure (ic.putNode a (← f n))

omit [BusNode ν] in
/-- Visit distinct nodes, one after the other: each of them changes once, and nothing else
does. -/
theorem visit_spec {f : ν → Outcome ν} (l : List Nat) : ∀ {ic : Interconnect ν}, ic.Shape →
    l.Nodup → (∀ b ∈ l, ∃ m m', ic.nodeAt b = some m ∧ f m = .ok m') →
    ∃ ic', l.foldlM (visit f) ic = .ok ic' ∧ ic'.Shape
      ∧ ic'.nodeLocked = ic.nodeLocked ∧ ic'.lockedAddress = ic.lockedAddress
      ∧ ic'.nodes.keys = ic.nodes.keys
      ∧ ∀ b, if b ∈ l then ∃ m m', ic.nodeAt b = some m ∧ f m = .ok m' ∧ ic'.nodeAt b = some m'
          else ic'.nodeAt b = ic.nodeAt b := by
  induction l with
  | nil => intro ic hs _ _; exact ⟨ic, rfl, hs, rfl, rfl, rfl, fun b => by simp⟩
  | cons a l ih =>
      intro ic hs hnd hacc
      obtain ⟨ha, hnd⟩ := List.nodup_cons.mp hnd
      obtain ⟨m, m', hm, hm'⟩ := hacc a List.mem_cons_self
      obtain ⟨hs₁, hkeys₁⟩ := hs.putNode hm m'
      obtain ⟨ic', hic', hs', hl', hla', hkeys', hnodes'⟩ := ih hs₁ hnd fun b hb => by
        obtain ⟨x, x', hx, hx'⟩ := hacc b (List.mem_cons_of_mem _ hb)
        have hne : b ≠ a := fun h => ha (h ▸ hb)
        exact ⟨x, x', by rw [nodeAt_putNode, if_neg hne, hx], hx'⟩
      refine ⟨ic', ?_, hs', hl', hla', hkeys'.trans hkeys₁, fun b => ?_⟩
      · rw [List.foldlM_cons, visit, getNode_eq hm]
        simp only [Outcome.ok_bind, hm', Outcome.pure_eq_ok]
        exact hic'
      · have hb := hnodes' b
        by_cases hba : b = a
        · subst hba
          rw [if_neg ha] at hb
          rw [if_pos List.mem_cons_self]
          exact ⟨m, m', hm, hm', by rw [hb, nodeAt_putNode, if_pos rfl]⟩
        · simp only [List.mem_cons, hba, false_or]
          simpa only [nodeAt_putNode, if_neg hba] using hb

/-- A delivery is a visit. -/
theorem deliver_spec {r : BusRequest} (l : List Nat) {ic : Interconnect ν} (h : ic.Shape)
    (hnd : l.Nodup) (hacc : ∀ b ∈ l, ∃ m m', ic.nodeAt b = some m
      ∧ acceptBusTransaction m r = .ok m') :
    ∃ ic', l.foldlM (fun ic b => ic.deliverTo r b) ic = .ok ic' ∧ ic'.Shape
      ∧ ic'.nodeLocked = ic.nodeLocked ∧ ic'.lockedAddress = ic.lockedAddress
      ∧ ic'.nodes.keys = ic.nodes.keys
      ∧ ∀ b, if b ∈ l then ∃ m m', ic.nodeAt b = some m ∧ acceptBusTransaction m r = .ok m'
            ∧ ic'.nodeAt b = some m'
          else ic'.nodeAt b = ic.nodeAt b :=
  visit_spec (f := (acceptBusTransaction · r)) l h hnd hacc

/-! ## The scans, and what surrounds them -/

theorem findMaxPriority_spec {ic : Interconnect ν} (l : List Nat)
    (hl : ∀ a ∈ l, ∃ n, ic.nodeAt a = some n) :
    ∃ res, ic.findMaxPriority l = .ok res ∧ match res with
      | some a => ∃ n, ic.nodeAt a = some n ∧ requestsMaxPriority n = true
      | none => ∀ a ∈ l, ∀ n, ic.nodeAt a = some n → requestsMaxPriority n = false := by
  induction l with
  | nil => exact ⟨none, rfl, by simp⟩
  | cons a l ih =>
      obtain ⟨n, hn⟩ := hl a List.mem_cons_self
      cases hp : requestsMaxPriority n with
      | true => exact ⟨some a, by simp [findMaxPriority, getNode_eq hn, hp], n, hn, hp⟩
      | false =>
          obtain ⟨res, hres, hspec⟩ := ih fun b hb => hl b (List.mem_cons_of_mem _ hb)
          refine ⟨res, by simp [findMaxPriority, getNode_eq hn, hp, hres], ?_⟩
          cases res with
          | some b => exact hspec
          | none =>
              intro b hb m hm
              rcases List.mem_cons.mp hb with rfl | hb
              · rw [hn] at hm; cases hm; exact hp
              · exact hspec b hb m hm

theorem contention_spec {ic : Interconnect ν} (l : List Nat)
    (hl : ∀ a ∈ l, ∃ n, ic.nodeAt a = some n) : ∃ count, ic.contention l = .ok count := by
  induction l with
  | nil => exact ⟨0, rfl⟩
  | cons a l ih =>
      obtain ⟨n, hn⟩ := hl a List.mem_cons_self
      obtain ⟨count, hcount⟩ := ih fun b hb => hl b (List.mem_cons_of_mem _ hb)
      exact ⟨_, by rw [contention, getNode_eq hn, hcount]; rfl⟩

omit [BusNode ν] in
theorem Shape.updatePriorityQueue {ic : Interconnect ν} (h : ic.Shape) :
    ∃ q, ic.updatePriorityQueue = .ok { ic with priorityQueue := q }
      ∧ ∀ a, a ∈ q ↔ a ∈ ic.priorityQueue := by
  unfold Interconnect.updatePriorityQueue
  by_cases hpos : 0 < ic.getNodeCount
  · obtain ⟨p, hp⟩ := List.exists_mem_of_length_pos hpos
    have hmem : p.1 ∈ ic.priorityQueue := (h.queue p.1).mpr (List.mem_map_of_mem hp)
    rw [if_pos hpos]
    cases hq : ic.priorityQueue with
    | nil => rw [hq] at hmem; cases hmem
    | cons first rest => exact ⟨rest ++ [first], rfl, fun a => by simp [or_comm]⟩
  · exact ⟨ic.priorityQueue, by rw [if_neg hpos]; rfl, fun _ => Iff.rfl⟩

/-- What remains of a tick after a node was served: statistics and rotation. -/
theorem Shape.finish {ic : Interconnect ν} (h : ic.Shape) :
    ∃ ic', (ic.collectBusStatistics >>= Interconnect.updatePriorityQueue) = .ok ic' ∧ ic'.Shape
      ∧ ic'.nodes = ic.nodes ∧ ic'.nodeLocked = ic.nodeLocked
      ∧ ic'.lockedAddress = ic.lockedAddress := by
  obtain ⟨count, hcount⟩ := contention_spec ic.priorityQueue fun a ha => h.exists_node ha
  have h₁ : Shape { ic with
      numTicks := ic.numTicks + 1
      totalBusContentionCount := ic.totalBusContentionCount + count } := ⟨h.sorted, h.queue⟩
  obtain ⟨q, hq, hmem⟩ := h₁.updatePriorityQueue
  refine ⟨{ ic with
    numTicks := ic.numTicks + 1
    totalBusContentionCount := ic.totalBusContentionCount + count
    priorityQueue := q }, ?_, ⟨h.sorted, fun a => (hmem a).trans (h.queue a)⟩, rfl, rfl, rfl⟩
  simp [collectBusStatistics, hcount, hq]

/-! ## Serving one node -/

/-- Whatever this node sends, those it is meant for will accept, and nobody touches a lock. -/
def Deliverable (ic : Interconnect ν) (a : Nat) (n : ν) : Prop :=
  requestsTransaction n = true → ∃ r n', initiateBusTransaction (relock n) = .ok (r, n')
    ∧ hasLock n' = requestsLock n
    ∧ (r.targetAddress ≠ BROADCAST_ADX → r.targetAddress ∈ ic.nodes.keys)
    ∧ ∀ b m, (if b = a then some n' else ic.nodeAt b) = some m → Receives r b →
        ∃ m', acceptBusTransaction m r = .ok m' ∧ hasLock m' = hasLock m

/-- The interconnect after a node was polled. -/
def polled (ic : Interconnect ν) (a : Nat) (n : ν) : Interconnect ν :=
  (if requestsLock n then { ic with lockedAddress := a, nodeLocked := true }
    else { ic with nodeLocked := false }).putNode a (relock n)

theorem nodeAt_polled (ic : Interconnect ν) (a : Nat) (n : ν) (b : Nat) :
    (ic.polled a n).nodeAt b = if b = a then some (relock n) else ic.nodeAt b := by
  unfold polled
  split <;> rw [nodeAt_putNode] <;> rfl

theorem relocked_polled (ic : Interconnect ν) (a : Nat) (n : ν) : ic.Relocked a n (ic.polled a n) := by
  constructor
  · unfold polled
    split
    · rename_i h; rw [h]; rfl
    · rename_i h; rw [Bool.eq_false_iff.mpr h]; rfl
  · intro h
    rw [polled, if_pos h]; rfl

theorem Shape.polled {ic : Interconnect ν} (h : ic.Shape) {a : Nat} {n : ν}
    (hn : ic.nodeAt a = some n) :
    (ic.polled a n).Shape ∧ (ic.polled a n).nodes.keys = ic.nodes.keys := by
  unfold Interconnect.polled
  split
  · have hlocked : Shape { ic with lockedAddress := a, nodeLocked := true } := ⟨h.sorted, h.queue⟩
    exact hlocked.putNode hn _
  · have hfree : Shape { ic with nodeLocked := false } := ⟨h.sorted, h.queue⟩
    exact hfree.putNode hn _

variable [LawfulBusNode ν]

theorem hasLock_relock (n : ν) : hasLock (relock n) = requestsLock n := by
  unfold relock
  split
  · rename_i h; rw [LawfulBusNode.hasLock_grantLock, h]
  · rename_i h; rw [LawfulBusNode.hasLock_releaseLock, Bool.eq_false_iff.mpr h]

theorem serviceBusNode_eq {ic : Interconnect ν} {a : Nat} {n : ν} (h : ic.nodeAt a = some n) :
    ic.serviceBusNode a =
      if requestsTransaction n then do
        let (request, txNode) ← initiateBusTransaction (relock n)
        let ic := (ic.polled a n).putNode a txNode
        if request.targetAddress = BROADCAST_ADX then
          pure (true, some request, ← ic.broadcastBusRequest request)
        else pure (true, some request, ← ic.deliverTo request request.targetAddress)
      else pure (requestsLock n, none, ic.polled a n) := by
  rw [serviceBusNode, getNode_eq h, Outcome.ok_bind]
  cases hl : requestsLock n with
  | true =>
      simp only [if_true, LawfulBusNode.requestsTransaction_grantLock, polled, relock, hl]
  | false =>
      simp only [Bool.false_eq_true, if_false, LawfulBusNode.requestsTransaction_releaseLock, polled,
        relock, hl]

/-- Polling a node that wants nothing, while the bus is free, leaves no trace. -/
theorem Shape.polled_idle {ic : Interconnect ν} (h : ic.Shape) (hl : ic.LockOk)
    (hfree : ic.nodeLocked = false) {a : Nat} {n : ν} (hn : ic.nodeAt a = some n)
    (hreq : requestsLock n = false) : ic.polled a n = ic := by
  have hnot : hasLock n = false := by
    refine Bool.eq_false_iff.mpr fun h0 => ?_
    rw [((hl.lock a n hn).mp h0).1] at hfree; cases hfree
  rw [Interconnect.polled, hreq, if_neg (by simp), relock, hreq, if_neg (by simp),
    LawfulBusNode.releaseLock_of_not n hnot, Interconnect.putNode, OrdMap.assign_find? h.sorted hn,
    ← hfree]

/-- Serving a node that has a request. -/
theorem Shape.serve {ic : Interconnect ν} (h : ic.Shape) {a : Nat} {n : ν}
    (hn : ic.nodeAt a = some n) (hreq : requestsTransaction n = true) (hd : ic.Deliverable a n) :
    ∃ r n' ic', ic.serviceBusNode a = .ok (true, some r, ic')
      ∧ initiateBusTransaction (relock n) = .ok (r, n') ∧ ic.Relocked a n ic' ∧ ic'.Shape
      ∧ ic'.nodes.keys = ic.nodes.keys
      ∧ ∀ b m, (if b = a then some n' else ic.nodeAt b) = some m →
        if Receives r b then ∃ m', acceptBusTransaction m r = .ok m' ∧ ic'.nodeAt b = some m'
        else ic'.nodeAt b = some m := by
  obtain ⟨r, n', hinit, _, htarget, hacc⟩ := hd hreq
  obtain ⟨hs₁, hkeys₁⟩ := h.polled hn
  obtain ⟨hs₂, hkeys₂⟩ := hs₁.putNode (a := a) (m := relock n) (by rw [nodeAt_polled, if_pos rfl]) n'
  have hnode : ∀ b, ((ic.polled a n).putNode a n').nodeAt b
      = if b = a then some n' else ic.nodeAt b := by
    intro b
    rw [nodeAt_putNode, nodeAt_polled]
    split <;> rfl
  have hlock := relocked_polled ic a n
  generalize hic₂ : (ic.polled a n).putNode a n' = ic₂ at hs₂ hkeys₂ hnode
  have hl₂ : ic₂.nodeLocked = requestsLock n := by rw [← hic₂]; exact hlock.nodeLocked
  have hla₂ : requestsLock n = true → ic₂.lockedAddress = a := by
    rw [← hic₂]; exact hlock.lockedAddress
  -- the addresses that get the request, each of them once
  have deliver {l : List Nat} (hl : ∀ b, b ∈ l ↔ b ∈ ic.nodes.keys ∧ Receives r b)
      (hnd : l.Nodup) :
      ∃ ic', l.foldlM (fun ic b => ic.deliverTo r b) ic₂ = .ok ic' ∧ ic.Relocked a n ic'
        ∧ ic'.Shape ∧ ic'.nodes.keys = ic.nodes.keys
        ∧ ∀ b m, (if b = a then some n' else ic.nodeAt b) = some m →
          if Receives r b then ∃ m', acceptBusTransaction m r = .ok m' ∧ ic'.nodeAt b = some m'
          else ic'.nodeAt b = some m := by
    obtain ⟨ic', hic', hs', hl', hla', hkeys', hnodes'⟩ := deliver_spec l hs₂ hnd fun b hb => by
      obtain ⟨hkey, hrec⟩ := (hl b).mp hb
      rw [← hkeys₁, ← hkeys₂, ← nodeAt_isSome] at hkey
      obtain ⟨m, hm⟩ := Option.isSome_iff_exists.mp hkey
      obtain ⟨m', hm', _⟩ := hacc b m (by rw [← hnode b, hm]) hrec
      exact ⟨m, m', hm, hm'⟩
    refine ⟨ic', hic', ⟨hl'.trans hl₂, fun h0 => hla'.trans (hla₂ h0)⟩, hs',
      hkeys'.trans (hkeys₂.trans hkeys₁), fun b m hm => ?_⟩
    have hkey : b ∈ ic.nodes.keys := by
      rw [← hkeys₁, ← hkeys₂, ← nodeAt_isSome, hnode b, hm]; rfl
    have hb := hnodes' b
    rw [← hnode b] at hm
    by_cases hrec : Receives r b
    · rw [if_pos ((hl b).mpr ⟨hkey, hrec⟩)] at hb
      rw [if_pos hrec]
      obtain ⟨x, m', hx, hm', h'⟩ := hb
      rw [hm] at hx; cases hx
      exact ⟨m', hm', h'⟩
    · rw [if_neg fun h0 => hrec ((hl b).mp h0).2] at hb
      rw [if_neg hrec, hb, hm]
  by_cases hbc : r.targetAddress = BROADCAST_ADX
  · obtain ⟨ic', hic', hrest⟩ := deliver (l := ic₂.nodes.keys.filter (· ≠ r.sourceAddress))
      (fun b => by rw [List.mem_filter, hkeys₂, hkeys₁, Receives, if_pos hbc]; simp)
      ((OrdMap.keys_nodup hs₂.sorted).filter _)
    refine ⟨r, n', ic', ?_, hinit, hrest⟩
    rw [serviceBusNode_eq hn, if_pos hreq, hinit]
    simp only [Outcome.ok_bind, hic₂, hbc, if_true]
    rw [broadcastBusRequest, hic']
    rfl
  · obtain ⟨ic', hic', hrest⟩ := deliver (l := [r.targetAddress])
      (fun b => by
        rw [List.mem_singleton, Receives, if_neg hbc]
        exact ⟨fun h0 => ⟨h0 ▸ htarget hbc, h0⟩, And.right⟩)
      (by simp)
    refine ⟨r, n', ic', ?_, hinit, hrest⟩
    rw [serviceBusNode_eq hn, if_pos hreq, hinit]
    simp only [Outcome.ok_bind, hic₂, hbc, if_false]
    have hone : ic₂.deliverTo r r.targetAddress = .ok ic' := by
      cases hd : ic₂.deliverTo r r.targetAddress with
      | error e => simp [hd] at hic'
      | ok x => simpa [hd] using hic'
    rw [hone]
    rfl

/-! ## Choosing a node -/

/-- Serving a chosen node is a tick, up to the statistics. -/
theorem Shape.serve_chosen {ic : Interconnect ν} (h : ic.Shape) {a : Nat} {n : ν}
    (hn : ic.nodeAt a = some n) (hc : ic.Chosen a n) (hd : ic.Deliverable a n) :
    ∃ served req ic', ic.serviceBusNode a = .ok (served, req, ic') ∧ BusTick ic req ic' ∧ ic'.Shape
      ∧ ic'.nodes.keys = ic.nodes.keys
      ∧ (served = false → requestsLock n = false ∧ requestsTransaction n = false) := by
  cases hreq : requestsTransaction n with
  | false =>
      obtain ⟨hs, hkeys⟩ := h.polled hn
      refine ⟨requestsLock n, none, ic.polled a n, ?_, ?_, hs, hkeys, fun h0 => ⟨h0, rfl⟩⟩
      · rw [serviceBusNode_eq hn, hreq]; rfl
      · exact .poll hn hc hreq (relocked_polled ic a n) (nodeAt_polled ic a n)
  | true =>
      obtain ⟨r, n', ic', hserve, hinit, hlock, hs, hkeys, hnodes⟩ := h.serve hn hreq hd
      refine ⟨true, some r, ic', hserve, ?_, hs, hkeys, fun h0 => (by cases h0)⟩
      refine .transfer hn hc hreq hinit hlock (fun b hb => ?_) hnodes
      rw [← Option.not_isSome_iff_eq_none, nodeAt_isSome, hkeys, ← nodeAt_isSome, hb]
      simp

/-- The ordinary scan, on a bus that is free. -/
theorem Shape.serviceInOrder_spec {ic : Interconnect ν} (h : ic.Shape) (hl : ic.LockOk)
    (hfree : ic.nodeLocked = false)
    (hmax : ∀ b m, ic.nodeAt b = some m → requestsMaxPriority m = false)
    (hd : ∀ a n, ic.nodeAt a = some n → ic.Chosen a n → ic.Deliverable a n) (l : List Nat)
    (hmem : ∀ a ∈ l, ∃ n, ic.nodeAt a = some n)
    (hidle : ∀ b n, ic.nodeAt b = some n → b ∉ l →
      requestsLock n = false ∧ requestsTransaction n = false) :
    ∃ req ic', ic.serviceInOrder l = .ok (req, ic') ∧ BusTick ic req ic' ∧ ic'.Shape
      ∧ ic'.nodes.keys = ic.nodes.keys := by
  induction l with
  | nil =>
      exact ⟨none, ic, rfl, .rest hfree (fun b n hn => hidle b n hn List.not_mem_nil) hfree
        fun _ => rfl, h, rfl⟩
  | cons a l ih =>
      obtain ⟨n, hn⟩ := hmem a List.mem_cons_self
      cases hw : requestsLock n || requestsTransaction n with
      | true =>
          have hc : ic.Chosen a n := .inOrder hfree hmax (by simpa using hw)
          obtain ⟨served, req, ic', hserve, hbus, hs, hkeys, hnot⟩ := h.serve_chosen hn hc (hd a n hn hc)
          have hserved : served = true := by
            by_contra h0
            obtain ⟨h₁, h₂⟩ := hnot (by simpa using h0)
            rw [h₁, h₂] at hw; cases hw
          refine ⟨req, { ic' with busyCycles := ic'.busyCycles + 1 }, ?_, hbus.congr rfl rfl rfl,
            ⟨hs.sorted, hs.queue⟩, hkeys⟩
          rw [serviceInOrder, hserve, hserved]; rfl
      | false =>
          obtain ⟨h₁, h₂⟩ : requestsLock n = false ∧ requestsTransaction n = false := by
            simpa using hw
          obtain ⟨req, ic', hrest, hspec⟩ := ih (fun b hb => hmem b (List.mem_cons_of_mem _ hb))
            fun b m hm hb => by
              by_cases hba : b = a
              · subst hba
                rw [hn] at hm; cases hm
                exact ⟨h₁, h₂⟩
              · exact hidle b m hm (by simp [hba, hb])
          refine ⟨req, ic', ?_, hspec⟩
          rw [serviceInOrder, serviceBusNode_eq hn, h₂, h₁, h.polled_idle hl hfree hn h₁]
          exact hrest

/-! ## The whole tick -/

/-- **No fault in `Tick`**, and nothing but what `BusTick` says. -/
theorem Shape.tick {ic : Interconnect ν} (h : ic.Shape) (hl : ic.LockOk)
    (hd : ∀ a n, ic.nodeAt a = some n → ic.Chosen a n → ic.Deliverable a n) :
    ∃ req ic', ic.tick = .ok (req, ic') ∧ BusTick ic req ic' ∧ ic'.Shape
      ∧ ic'.nodes.keys = ic.nodes.keys := by
  have finish {req : Option BusRequest} {ic₁ : Interconnect ν} (hbus : BusTick ic req ic₁)
      (hs : ic₁.Shape) (hkeys : ic₁.nodes.keys = ic.nodes.keys) :
      ∃ ic', (do pure (req, ← ic₁.collectBusStatistics >>= Interconnect.updatePriorityQueue))
          = .ok (req, ic')
        ∧ BusTick ic req ic' ∧ ic'.Shape ∧ ic'.nodes.keys = ic.nodes.keys := by
    obtain ⟨ic', hic', hs', hn, hl, hla⟩ := hs.finish
    exact ⟨ic', by rw [hic']; rfl, hbus.congr hn hl hla, hs', by rw [hn, hkeys]⟩
  have hfinish {req : Option BusRequest} {ic₁ : Interconnect ν} :
      (do let ic ← ic₁.collectBusStatistics; pure (req, ← ic.updatePriorityQueue))
        = (do pure (req, ← ic₁.collectBusStatistics >>= Interconnect.updatePriorityQueue) :
            Outcome (Option BusRequest × Interconnect ν)) := by
    cases ic₁.collectBusStatistics <;> rfl
  cases hlocked : ic.nodeLocked with
  | true =>
      obtain ⟨n, hn⟩ := Option.isSome_iff_exists.mp (hl.locked hlocked)
      have hc : ic.Chosen ic.lockedAddress n := .locked hlocked rfl
      obtain ⟨served, req, ic₁, hserve, hbus, hs, hkeys, _⟩ := h.serve_chosen hn hc (hd _ n hn hc)
      have hbusy : BusTick ic req { ic₁ with busyCycles := ic₁.busyCycles + 1 } :=
        hbus.congr rfl rfl rfl
      obtain ⟨ic', hic', hspec⟩ := finish hbusy ⟨hs.sorted, hs.queue⟩ hkeys
      refine ⟨req, ic', ?_, hspec⟩
      rw [Interconnect.tick, hlocked, if_pos rfl, hserve]
      simp only [Outcome.ok_bind, Outcome.pure_eq_ok]
      rw [← hic', ← hfinish]
      rfl
  | false =>
      obtain ⟨res, hres, hspec⟩ := findMaxPriority_spec ic.priorityQueue fun a ha => h.exists_node ha
      have hservice : ∃ req ic₁, ic.serviceBusNodes = .ok (req, ic₁) ∧ BusTick ic req ic₁ ∧ ic₁.Shape
          ∧ ic₁.nodes.keys = ic.nodes.keys := by
        cases res with
        | some a =>
            obtain ⟨n, hn, hmax⟩ := hspec
            have hc : ic.Chosen a n := .maxPriority hlocked hmax
            obtain ⟨served, req, ic₁, hserve, hbus, hs, hkeys, _⟩ := h.serve_chosen hn hc (hd _ n hn hc)
            exact ⟨req, ic₁, by simp [serviceBusNodes, hres, hserve], hbus, hs, hkeys⟩
        | none =>
            have hmem {b : Nat} {m : ν} (hm : ic.nodeAt b = some m) : b ∈ ic.priorityQueue :=
              (h.queue b).mpr (nodeAt_isSome.mp (by rw [hm]; rfl))
            obtain ⟨req, ic₁, hserve, hrest⟩ := h.serviceInOrder_spec hl hlocked
              (fun b m hm => hspec b (hmem hm) m hm) hd ic.priorityQueue
              (fun a ha => h.exists_node ha) fun b m hm hb => absurd (hmem hm) hb
            exact ⟨req, ic₁, by simp [serviceBusNodes, hres, hserve], hrest⟩
      obtain ⟨req, ic₁, hserve, hbus, hs, hkeys⟩ := hservice
      obtain ⟨ic', hic', hspec⟩ := finish hbus hs hkeys
      refine ⟨req, ic', ?_, hspec⟩
      rw [Interconnect.tick, hlocked, if_neg (by simp), hserve]
      simp only [Outcome.ok_bind, Outcome.pure_eq_ok]
      rw [← hic', ← hfinish]
      rfl

/-- **Preserved by every tick.** -/
theorem BusTick.lockOk {ic ic' : Interconnect ν} {req : Option BusRequest} (h : BusTick ic req ic')
    (hl : ic.LockOk) (hd : ∀ a n, ic.nodeAt a = some n → ic.Chosen a n → ic.Deliverable a n) :
    ic'.LockOk := by
  -- a chosen node has the lock already, or nobody has
  have others {a : Nat} {n : ν} (hn : ic.nodeAt a = some n) (hc : ic.Chosen a n) {b : Nat} {m : ν}
      (hm : ic.nodeAt b = some m) (hba : b ≠ a) : hasLock m = false := by
    refine Bool.eq_false_iff.mpr fun h0 => ?_
    obtain ⟨h₁, h₂⟩ := (hl.lock b m hm).mp h0
    cases hc with
    | locked _ ha => exact hba (h₂.trans ha.symm)
    | maxPriority hfree _ => rw [hfree] at h₁; cases h₁
    | inOrder hfree _ _ => rw [hfree] at h₁; cases h₁
  have relocked {a : Nat} {n : ν} (hr : ic.Relocked a n ic') {n' : ν}
      (hn' : hasLock n' = requestsLock n) (hat : ic'.nodeAt a = some n')
      (hothers : ∀ b m, b ≠ a → ic'.nodeAt b = some m → hasLock m = false) : ic'.LockOk := by
    refine ⟨fun b m hm => ?_, fun hlocked => ?_⟩
    · by_cases hba : b = a
      · subst hba
        rw [hat] at hm; cases hm
        rw [hn', hr.nodeLocked]
        exact ⟨fun h0 => ⟨h0, (hr.lockedAddress h0).symm⟩, And.left⟩
      · rw [hothers b m hba hm]
        refine ⟨fun h0 => (by cases h0), fun ⟨h₁, h₂⟩ => ?_⟩
        rw [hr.nodeLocked] at h₁
        exact absurd (h₂.trans (hr.lockedAddress h₁)) hba
    · rw [hr.nodeLocked] at hlocked
      rw [hr.lockedAddress hlocked, hat]; rfl
  cases h with
  | rest hfree hidle hfree' hat =>
      refine ⟨fun b m hm => ?_, fun h0 => by rw [hfree'] at h0; cases h0⟩
      rw [hat] at hm
      rw [hl.lock b m hm, hfree, hfree']
      simp
  | poll hn hc hreq hr hat =>
      refine relocked hr (hasLock_relock _) (by rw [hat, if_pos rfl]) fun b m hba hm => ?_
      rw [hat, if_neg hba] at hm
      exact others hn hc hm hba
  | @transfer a n n' r _ hn hc hreq hinit hr hnone hat =>
      obtain ⟨r₀, n₀, hinit₀, hn', _, hacc⟩ := hd a n hn hc hreq
      rw [hinit] at hinit₀
      cases hinit₀
      have accepted {b : Nat} {m : ν} (hm : (if b = a then some n' else ic.nodeAt b) = some m) :
          ∃ m', ic'.nodeAt b = some m' ∧ hasLock m' = hasLock m := by
        have hb := hat b m hm
        split at hb
        · rename_i hrec
          obtain ⟨m', hm', h'⟩ := hb
          obtain ⟨x, hx, hlock⟩ := hacc b m hm hrec
          rw [hm'] at hx; cases hx
          exact ⟨m', h', hlock⟩
        · exact ⟨m, hb, rfl⟩
      obtain ⟨x, hx, hxl⟩ := accepted (b := a) (m := n') (if_pos rfl)
      refine relocked hr (hxl.trans hn') hx fun b m' hba hm' => ?_
      cases hm : ic.nodeAt b with
      | none => rw [hnone b hm] at hm'; cases hm'
      | some m =>
          obtain ⟨y, hy, hyl⟩ := accepted (b := b) (m := m) (by rw [if_neg hba, hm])
          rw [hm'] at hy; cases hy
          rw [hyl, others hn hc hm hba]

end Interconnect

end CoherenceSim
