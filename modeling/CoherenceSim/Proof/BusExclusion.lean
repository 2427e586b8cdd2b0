import CoherenceSim.Proof.SystemTick

/-!
# The bus has one owner at a time
-/

namespace CoherenceSim

open BusNode Interconnect

/-- At most one node has the lock; there is one exactly when `nodeLocked` is set, and then
it is the node at `lockedAddress`. -/
structure MutualExclusion (ic : Interconnect Node) : Prop where
  unique : ∀ a b n m, ic.nodeAt a = some n → ic.nodeAt b = some m →
    hasLock n = true → hasLock m = true → a = b
  nodeLocked : ic.nodeLocked = true ↔ ∃ a n, ic.nodeAt a = some n ∧ hasLock n = true
  lockedAddress : ∀ a n, ic.nodeAt a = some n → hasLock n = true → a = ic.lockedAddress

theorem Interconnect.LockOk.mutualExclusion {ic : Interconnect Node} (h : ic.LockOk) :
    MutualExclusion ic := by
  have haddr {a : Nat} {n : Node} (hn : ic.nodeAt a = some n) (hl : hasLock n = true) :
      a = ic.lockedAddress := ((h.lock a n hn).mp hl).2
  refine ⟨fun a b n m hn hm hl hl' => (haddr hn hl).trans (haddr hm hl').symm, ⟨fun h0 => ?_, ?_⟩,
    fun a n hn hl => haddr hn hl⟩
  · obtain ⟨n, hn⟩ := Option.isSome_iff_exists.mp (h.locked h0)
    exact ⟨_, n, hn, (h.lock _ n hn).mpr ⟨h0, rfl⟩⟩
  · rintro ⟨a, n, hn, hl⟩
    exact ((h.lock a n hn).mp hl).1

/-- A request that was on the bus came from one node, which is the one with the lock if any
has it, and went once to everyone it is meant for. -/
def DeliveredOnce (ic : Interconnect Node) (r : BusRequest) (ic' : Interconnect Node) : Prop :=
  ∃ n n', ic.nodeAt r.sourceAddress = some n
    ∧ (ic.nodeLocked = true → r.sourceAddress = ic.lockedAddress)
    ∧ initiateBusTransaction (relock n) = .ok (r, n')
    ∧ ∀ b m, (if b = r.sourceAddress then some n' else ic.nodeAt b) = some m →
      if Receives r b then ∃ m', acceptBusTransaction m r = .ok m' ∧ ic'.nodeAt b = some m'
      else ic'.nodeAt b = some m

/-- No request was taken: nothing but the lock of a node may have changed. -/
def NothingTaken (ic ic' : Interconnect Node) : Prop :=
  ∀ b n, ic.nodeAt b = some n → ic'.nodeAt b = some n ∨ ic'.nodeAt b = some (relock n)

variable {ps : Params} {Q : Instruction → Prop}

/-- A tick that took nothing. -/
theorem Interconnect.BusTick.nothingTaken {ic ic' : Interconnect Node} (h : BusTick ic none ic') :
    NothingTaken ic ic' := by
  cases h with
  | rest _ _ _ hat => exact fun b n hn => Or.inl ((hat b).trans hn)
  | poll hn _ _ _ hat =>
      intro b m hm
      rw [hat]
      split
      · rename_i hba
        rw [hba, hn] at hm; cases hm
        exact Or.inr rfl
      · exact Or.inl hm

/-- A tick that took a request. -/
theorem Cycle.deliveredOnce {s mid s' : System} {r : BusRequest} (h : Cycle ps Q s mid (some r) s') :
    DeliveredOnce mid.interconnect r s'.interconnect := by
  cases h.bus with
  | @transfer a n n' _ _ hn hc hreq hinit _ _ hat =>
      -- the address of the node is the one its requests carry
      obtain ⟨r₀, n₀, hinit₀, _, _, _, hsrc, _⟩ := (h.valid.nodes a n hn).serve
        (fun p hp => by subst hp; exact h.fresh a _ (controllerAt_of_nodeAt hn)) hreq
      rw [hinit] at hinit₀; cases hinit₀
      subst hsrc
      refine ⟨n, n', hn, fun hl => ?_, hinit, hat⟩
      cases hc with
      | locked _ ha => exact ha
      | maxPriority hfree _ => rw [hfree] at hl; cases hl
      | inOrder hfree _ _ => rw [hfree] at hl; cases hl

/-- **Mutual exclusion on the bus**: in every reachable state at most one node has the
lock, and every tick takes at most one request, from the node with the lock if there is one,
and delivers it once. -/
theorem bus_mutual_exclusion (ps : Params) (h : List TickRecord) (s : System)
    (hrun : Run ps h s) :
    MutualExclusion s.interconnect ∧ ∀ rec ∈ h, ∃ mid, rec.before.tickNodes = .ok mid
      ∧ mid.tickInterconnect = .ok (rec.sent, rec.after)
      ∧ MutualExclusion mid.interconnect
      ∧ (rec.sent = none → NothingTaken mid.interconnect rec.after.interconnect)
      ∧ ∀ r, rec.sent = some r → DeliveredOnce mid.interconnect r rec.after.interconnect := by
  refine ⟨hrun.ok.valid.lock.mutualExclusion, fun rec hrec => ?_⟩
  obtain ⟨mid, hcycle⟩ := hrun.cycle rec hrec
  refine ⟨mid, hcycle.tickNodes, hcycle.tickInterconnect, hcycle.valid.lock.mutualExclusion,
    fun h0 => ?_, fun r h0 => ?_⟩
  · rw [h0] at hcycle
    exact hcycle.bus.nothingTaken
  · rw [h0] at hcycle
    exact hcycle.deliveredOnce

/-- Two stores to one line, and enough ticks for several transfers. -/
theorem bus_mutual_exclusion_two_stores : ∃ h s, Run ⟨2, .mesi, 1, 2⟩ h s
    ∧ 3 ≤ (h.filter (·.sent.isSome)).length ∧ MutualExclusion s.interconnect := by
  obtain ⟨h, s, hrun, hlen⟩ := Run.of_run ⟨2, .mesi, 1, 2⟩
    ([.insert .store 64 0, .insert .store 64 1] ++ List.replicate 12 .tick)
    (fun h _ => decide (3 ≤ (h.filter (·.sent.isSome)).length)) (by decide +kernel)
  exact ⟨h, s, hrun, of_decide_eq_true hlen, (bus_mutual_exclusion _ h s hrun).1⟩

end CoherenceSim
