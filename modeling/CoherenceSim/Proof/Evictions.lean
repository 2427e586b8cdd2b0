import CoherenceSim.Proof.SystemTick

/-!
# Evictions

`UpdateCacheLoad_Action` and `UpdateCacheStore_Action` make room for a line by evicting
another, and mean to write a modified one back. But `CacheSet::evict` has invalidated the line
by the time it is asked whether it is modified. So the write-back is never queued: of the
steps of a controller only the two fills drop a line, and neither touches a queue.
-/

namespace CoherenceSim

/-- In this step of the controller's state machine, the line of this address is modified
before and not in the cache afterwards. -/
structure Controller.EvictsModified (c c' : Controller) (adx : Nat) : Prop where
  step : c.transitionState = .ok c'
  modified : c.cache.isModified adx = .ok true
  gone : c'.cache.contains adx = .ok false

/-- The step queues a `BUSWRITE` of the line with maximum priority. -/
def Controller.QueuesWriteBack (c c' : Controller) (adx : Nat) : Prop :=
  ∃ new, c'.maxPriorityQueue = new ++ c.maxPriorityQueue
    ∧ ∃ r ∈ new, r.commandCode = .busWrite ∧ r.payload = c.cache.getLineAlignedAddress adx

/-- Dirty evictions are written back, in every reachable state. -/
def WritesBackEvictions (ps : Params) : Prop :=
  ∀ h s, Run ps h s → ∀ a c c' adx, controllerAt s.interconnect a = some c →
    c.EvictsModified c' adx → c.QueuesWriteBack c' adx

namespace Controller

variable {c c' : Controller} {adx : Nat}

theorem not_queuesWriteBack (h : c'.maxPriorityQueue = c.maxPriorityQueue) :
    ¬ c.QueuesWriteBack c' adx := by
  rintro ⟨new, hnew, r, hr, _⟩
  rw [h] at hnew
  obtain rfl := List.self_eq_append_left.mp hnew
  cases hr

/-- A line stays when another, or itself, is given a state. -/
theorem get_put_ne_none {a : Nat} {m : MESI} {k : Cache} (hput : c.cache.Put a (some m) k)
    (hm : c.cache.get adx ≠ none) : k.get adx ≠ none := by
  rw [Cache.get, hput.stateAt]
  split
  · simp
  · exact hm

/-- **Only fills drop lines**, and they leave the queue alone. -/
theorem Transitioned.drops (hs : Transitioned c c') (hm : c.cache.get adx ≠ none)
    (hgone : c'.cache.get adx = none) :
    (c'.currentState = .updateCacheLdState ∨ c'.currentState = .updateCacheStState)
      ∧ c'.maxPriorityQueue = c.maxPriorityQueue := by
  cases hs with
  | rest | retire | wait | invalidateQueued | loadMiss | storeShared | storeMiss | loadDropped
  | storeDropped => exact absurd hgone hm
  | loadHit _ _ _ _ hput => exact absurd hgone (get_put_ne_none hput hm)
  | storeHit _ _ _ _ _ hput => exact absurd hgone (get_put_ne_none hput hm)
  | loadFilled => exact ⟨Or.inl rfl, rfl⟩
  | storeFilled => exact ⟨Or.inr rfl, rfl⟩

/-- What such a step is, and that it queues nothing. -/
theorem EvictsModified.drops (hev : c.EvictsModified c' adx) (h : c.Inv) :
    (c'.currentState = .updateCacheLdState ∨ c'.currentState = .updateCacheStState)
      ∧ ¬ c.QueuesWriteBack c' adx := by
  obtain ⟨c₁, hstep, hs⟩ := h.transitionState
  rw [hev.step] at hstep; cases hstep
  have hm : c.cache.get adx ≠ none := by rw [h.cache.isModified_iff.mp hev.modified]; simp
  have hgone : c'.cache.get adx = none := by
    have hcontains := hev.gone
    rw [(hs.inv h).cache.contains] at hcontains
    simpa using hcontains
  obtain ⟨hstate, hqueue⟩ := hs.drops hm hgone
  exact ⟨hstate, not_queuesWriteBack hqueue⟩

end Controller

/-- **No dirty eviction is ever written back.** Whenever a modified line leaves the cache of a
controller in a step of its own, it has run an update action, and that has queued nothing. -/
theorem evictions_lost (ps : Params) (h : List TickRecord) (s : System) (hrun : Run ps h s)
    (a : Nat) (c c' : Controller) (adx : Nat) (hc : controllerAt s.interconnect a = some c)
    (hev : c.EvictsModified c' adx) :
    (c'.currentState = .updateCacheLdState ∨ c'.currentState = .updateCacheStState)
      ∧ ¬ c.QueuesWriteBack c' adx :=
  hev.drops (hrun.ok.valid.controller hc).inv

/-- Five stores to one set of four lines, up to the tick in which the fifth evicts the first. -/
def fiveStores : List Event :=
  [.insert .store 0 0, .insert .store 0x8000 0, .insert .store 0x10000 0,
    .insert .store 0x18000 0, .insert .store 0x20000 0] ++ List.replicate 29 .tick

theorem run_fiveStores : ∃ h s c c', Run ⟨1, .mi, 1, 2⟩ h s
    ∧ controllerAt s.interconnect 1 = some c ∧ c.EvictsModified c' 0 := by
  obtain ⟨h, s, hrun, hp⟩ := Run.of_run ⟨1, .mi, 1, 2⟩ fiveStores
    (fun _ s => (controllerAt s.interconnect 1).any fun (c : Controller) =>
      decide (c.cache.isModified 0 = Except.ok true)
        && c.transitionState.toOption.any fun (c' : Controller) =>
          decide (c'.cache.contains 0 = Except.ok false))
    (by decide +kernel)
  obtain ⟨c, hc, hp⟩ := (Option.any_eq_true _ _).mp hp
  obtain ⟨hmod, hgone⟩ := Bool.and_eq_true_iff.mp hp
  obtain ⟨c', hstep, hgone⟩ := Outcome.any_toOption.mp hgone
  exact ⟨h, s, c, c', hrun, hc, hstep, of_decide_eq_true hmod, of_decide_eq_true hgone⟩

theorem not_writesBackEvictions : ¬ WritesBackEvictions ⟨1, .mi, 1, 2⟩ := by
  intro hclaim
  obtain ⟨h, s, c, c', hrun, hc, hev⟩ := run_fiveStores
  have hinv := (hrun.ok.valid.controller hc).inv
  exact (hev.drops hinv).2 (hclaim h s hrun 1 c c' 0 hc hev)

theorem evictions_lost_five_stores : ∃ h s c c', Run ⟨1, .mi, 1, 2⟩ h s
    ∧ controllerAt s.interconnect 1 = some c ∧ c.EvictsModified c' 0
    ∧ ¬ c.QueuesWriteBack c' 0 := by
  obtain ⟨h, s, c, c', hrun, hc, hev⟩ := run_fiveStores
  exact ⟨h, s, c, c', hrun, hc, hev,
    (evictions_lost _ h s hrun 1 c c' 0 hc hev).2⟩

end CoherenceSim
