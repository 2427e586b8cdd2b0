import CoherenceSim.Proof.OwnLines
import CoherenceSim.Proof.Retention

/-!
# Private lines miss once

If a processor shares no line with any other, and no set of the cache gets more of its lines than
it has room for, then its first access to each line misses and all others hit, whatever the other
processors do and whichever protocol is run.

Nobody asks for its lines, so no flag is set while the controller waits for one, and the answer is
brought in. There it stays, since nobody invalidates it and the sets have room. Of memory it does
not matter what it answers.
-/

namespace CoherenceSim

open BusNode

/-- No set gets more of these lines than it has room for. -/
def LinesFit (keys : Finset Nat) : Prop :=
  ∀ set, (keys.filter (· % NUM_SETS = set)).card ≤ LINES_PER_SET

theorem linesOf_append (l l' : List Instruction) :
    linesOf (l ++ l') = linesOf l ∪ linesOf l' := by
  rw [linesOf, List.map_append, List.toFinset_append]
  rfl

theorem linesOf_subset {l : List Instruction} {keys : Finset Nat} (hl : ∀ i ∈ l, i.key ∈ keys) :
    linesOf l ⊆ keys := by
  intro k hk
  obtain ⟨i, hi, rfl⟩ := mem_linesOf.mp hk
  exact hl i hi

theorem LinesFit.mono {keys keys' : Finset Nat} (h : LinesFit keys') (hsub : keys ⊆ keys') :
    LinesFit keys :=
  fun set => (Finset.card_le_card (Finset.filter_subset_filter _ hsub)).trans (h set)

namespace Controller

variable {c c' : Controller} {d : BusRequest} {adx : Nat} {opcode : Opcode}

/-! ## Lookups -/

/-- The instruction that is pending and was not looked up yet. -/
def fetched (c : Controller) : List Instruction :=
  if c.pendingInstructionFlag = true ∧ c.currentState = .idleState
    then c.currentInstruction.toList else []

theorem fetched_of_busy (hs : c.currentState ≠ .idleState) : c.fetched = [] :=
  if_neg fun h => hs h.2

theorem fetched_of_not_pending (hp : c.pendingInstructionFlag = false) : c.fetched = [] :=
  if_neg fun h => by rw [hp] at h; cases h.1

theorem Instructs.linesOf_fetched (hi : c.Instructs opcode adx) (ok : c.cache.Ok)
    (hs : c.currentState = .idleState) (hp : c.pendingInstructionFlag = true) :
    linesOf c.fetched = {lineKey adx} := by
  obtain ⟨i, hcurrent, hkey⟩ := hi.key ok
  rw [fetched, if_pos ⟨hp, hs⟩, hcurrent, ← hkey]
  rfl

theorem Inv.length_fetched (h : c.Inv) : c.fetched.length = c.waiting := by
  unfold fetched Controller.waiting
  split
  · rename_i hwait
    obtain ⟨i, hi, _⟩ := h.serves hwait.1
    rw [hi]
    rfl
  · rfl

/-- After a step nothing waits to be looked up. -/
theorem Transitioned.fetched (hs : Transitioned c c') : c'.fetched = [] := by
  cases hs with
  | rest | retire => exact fetched_of_not_pending rfl
  | wait hm =>
      refine fetched_of_busy ?_
      rcases hm with hs | hs <;> simp [hs]
  | invalidateQueued | loadHit | loadMiss | storeHit | storeShared | storeMiss | loadDropped
  | loadFilled | storeDropped | storeFilled =>
      exact fetched_of_busy (by exact fun h => by cases h)

/-! ## A controller that nobody disturbs -/

/-- The controller has looked these lines up, and holds them all, but for the one that it waits
for. It has missed each of them once. -/
structure Warm (looked : Finset Nat) (c : Controller) : Prop where
  undisturbed : c.Undisturbed
  cached : ∀ k, c.cache.stateAt k ≠ none ↔
    k ∈ looked ∧ ¬ (c.Missing ∧ k = lineKey c.awaitingDataLocalAddress)
  awaited : c.Missing → lineKey c.awaitingDataLocalAddress ∈ looked
  misses : c.loadMisses + c.storeMisses = looked.card

variable {looked : Finset Nat}

theorem Warm.cached_of_not_missing (hw : c.Warm looked) (hm : ¬ c.Missing) (k : Nat) :
    c.cache.stateAt k ≠ none ↔ k ∈ looked := by
  rw [hw.cached]
  exact and_iff_left fun h0 => hm h0.1

/-- A line that is held was looked up before. -/
theorem Warm.mem_of_held (hw : c.Warm looked) {m : MESI} (hm : c.cache.get adx = some m) :
    lineKey adx ∈ looked := by
  refine ((hw.cached _).mp fun h0 => ?_).1
  rw [Cache.get, h0] at hm
  cases hm

/-- A change to a line that is held, which is held after it. -/
theorem Warm.cached_put (hw : c.Warm looked) (hn : ¬ c.Missing) {m m' : MESI} {k : Cache}
    (hm : c.cache.get adx = some m) (hput : c.cache.Put adx (some m') k) :
    ∀ key, k.stateAt key ≠ none ↔ key ∈ looked := by
  intro key
  rw [hput.stateAt]
  split
  · rename_i h0
    exact iff_of_true (by simp) (h0 ▸ hw.mem_of_held hm)
  · exact hw.cached_of_not_missing hn key

/-- A line that comes into a set with room. -/
theorem Warm.cached_filled (hw : c.Warm looked) (h : c.Inv) (hm : c.Missing) {m : MESI} {k : Cache}
    (hfill : c.cache.Filled c.awaitingDataLocalAddress m k) (hret : c.cache.Retains k) :
    ∀ key, k.stateAt key ≠ none ↔ key ∈ looked := by
  intro key
  by_cases h0 : key = lineKey c.awaitingDataLocalAddress
  · have hget := hfill.get
    rw [h0]
    rw [Cache.get] at hget
    exact iff_of_true (by simp [hget]) (hw.awaited hm)
  · constructor
    · intro hkey
      rcases hfill.others key h0 with h1 | h1
      · exact ((hw.cached key).mp (h1 ▸ hkey)).1
      · exact absurd h1 hkey
    · intro hkey
      exact hret.held h.cache hfill.ok ((hw.cached key).mpr ⟨hkey, fun h1 => h0 h1.2⟩)

/-- The set of the line that is waited for has room. -/
theorem Warm.hasRoom (hw : c.Warm looked) (h : c.Inv) (hm : c.Missing) (hfits : LinesFit looked) :
    c.cache.isFull c.awaitingDataLocalAddress = .ok false :=
  h.cache.hasRoom (fun k hk => ((hw.cached k).mp hk).1) (hw.awaited hm) (h.miss hm).absent (hfits _)

/-- After a step that looks up no new line, and ends in no miss. -/
theorem Warm.again (hw : c.Warm looked) (hold : looked ∪ linesOf c.fetched = looked)
    (hn : ¬ c'.Missing) (hcached : ∀ k, c'.cache.stateAt k ≠ none ↔ k ∈ looked)
    (hflags : c'.Undisturbed)
    (hmisses : c'.loadMisses + c'.storeMisses = c.loadMisses + c.storeMisses) :
    c'.Warm (looked ∪ linesOf c.fetched) := by
  rw [hold]
  exact ⟨hflags, fun k => (hcached k).trans (and_iff_left fun h0 => hn h0.1).symm,
    fun h0 => absurd h0 hn, hmisses.trans hw.misses⟩

/-- After a step that misses a line: it was not looked up before. -/
theorem Warm.missed (hw : c.Warm looked) (hnew : linesOf c.fetched = {lineKey adx})
    (hn : ¬ c.Missing) (hm : c.cache.get adx = none) (hm' : c'.Missing)
    (hcache : c'.cache = c.cache) (hadx : c'.awaitingDataLocalAddress = adx)
    (hflags : c'.Undisturbed)
    (hmisses : c'.loadMisses + c'.storeMisses = c.loadMisses + c.storeMisses + 1) :
    c'.Warm (looked ∪ linesOf c.fetched) := by
  have hfirst : lineKey adx ∉ looked := fun h0 => (hw.cached_of_not_missing hn _).mpr h0 hm
  rw [hnew, Finset.union_comm, ← Finset.insert_eq]
  refine ⟨hflags, fun k => ?_, fun _ => ?_, ?_⟩
  · rw [hcache, hadx, hw.cached_of_not_missing hn, Finset.mem_insert]
    constructor
    · exact fun hk => ⟨Or.inr hk, fun h0 => hfirst (h0.2 ▸ hk)⟩
    · exact fun hk => hk.1.resolve_left fun h0 => hk.2 ⟨hm', h0⟩
  · rw [hadx]
    exact Finset.mem_insert_self _ _
  · rw [hmisses, hw.misses, Finset.card_insert_of_notMem hfirst]

theorem union_linesOf_nil (hnone : c.fetched = []) : looked ∪ linesOf c.fetched = looked := by
  rw [hnone]
  exact Finset.union_empty looked

/-- A hit is on a line that was looked up before. -/
theorem Warm.union_of_hit (hw : c.Warm looked) (hnew : linesOf c.fetched = {lineKey adx}) {m : MESI}
    (hm : c.cache.get adx = some m) : looked ∪ linesOf c.fetched = looked := by
  rw [hnew]
  exact Finset.union_eq_left.mpr (Finset.singleton_subset_iff.mpr (hw.mem_of_held hm))

/-- **Preserved by a step**, which may look one more line up. -/
theorem Warm.transitioned (hw : c.Warm looked) (h : c.Inv) (hfits : LinesFit looked)
    (heq : c.transitionState = .ok c') (hs : Transitioned c c') :
    c'.Warm (looked ∪ linesOf c.fetched) := by
  have hflags := hw.undisturbed
  cases hs with
  | rest hs hp =>
      exact hw.again (union_linesOf_nil (fetched_of_not_pending hp))
        (not_missing_of (s := .idleState) hs) (hw.cached_of_not_missing (not_missing_of hs))
        ⟨rfl, rfl, rfl⟩ rfl
  | retire hs =>
      have hbusy : c.fetched = [] := by
        rcases hs with hs | hs | hs <;> exact fetched_of_busy (by simp [hs])
      have hn : ¬ c.Missing := by rcases hs with hs | hs | hs <;> exact not_missing_of hs
      exact hw.again (union_linesOf_nil hbusy) (not_missing_of (s := .idleState) rfl)
        (hw.cached_of_not_missing hn) ⟨rfl, rfl, rfl⟩ rfl
  | wait hm =>
      have hbusy : c.fetched = [] := fetched_of_busy (by rcases hm with hs | hs <;> simp [hs])
      rw [union_linesOf_nil hbusy]
      exact hw
  | invalidateQueued hs =>
      exact hw.again (union_linesOf_nil (fetched_of_busy (by simp [hs])))
        (not_missing_of (s := .invalidateWait) rfl) (hw.cached_of_not_missing (not_missing_of hs))
        ⟨hflags.1, hflags.2, hflags.3⟩ rfl
  | loadHit hs hp hi hm hput =>
      exact hw.again (hw.union_of_hit (hi.linesOf_fetched h.cache hs hp) hm)
        (not_missing_of (s := .updateCacheLdState) rfl)
        (hw.cached_put (not_missing_of hs) hm hput) ⟨hflags.1, hflags.2, hflags.3⟩ rfl
  | storeHit hs hp hi hm _ hput =>
      exact hw.again (hw.union_of_hit (hi.linesOf_fetched h.cache hs hp) hm)
        (not_missing_of (s := .updateCacheStState) rfl)
        (hw.cached_put (not_missing_of hs) hm hput) ⟨hflags.1, hflags.2, hflags.3⟩ rfl
  | storeShared hs hp hi hm =>
      exact hw.again (hw.union_of_hit (hi.linesOf_fetched h.cache hs hp) hm)
        (not_missing_of (s := .issueInvalidateState) rfl)
        (hw.cached_of_not_missing (not_missing_of hs)) ⟨hflags.1, hflags.2, hflags.3⟩ rfl
  | loadMiss hs hp hi hm =>
      exact hw.missed (hi.linesOf_fetched h.cache hs hp) (not_missing_of hs) hm (Or.inl rfl) rfl rfl
        ⟨hflags.1, hflags.2, hflags.3⟩ (Nat.add_right_comm _ _ _)
  | storeMiss hs hp hi hm =>
      exact hw.missed (hi.linesOf_fetched h.cache hs hp) (not_missing_of hs) hm (Or.inr rfl) rfl rfl
        ⟨hflags.1, hflags.2, hflags.3⟩ rfl
  | loadDropped _ _ hsaw =>
      rw [hflags.sawBusReadX, hflags.sawInvalidate] at hsaw
      simp at hsaw
  | storeDropped _ _ hsaw =>
      rw [hflags.sawBusRead, hflags.sawBusReadX, hflags.sawInvalidate] at hsaw
      simp at hsaw
  | loadFilled hs hl _ _ _ _ _ hfill =>
      have hret := h.miss_retains (Or.inl hs) hl (hw.hasRoom h (Or.inl hs) hfits) heq
      exact hw.again (union_linesOf_nil (fetched_of_busy (by simp [hs])))
        (not_missing_of (s := .updateCacheLdState) rfl)
        (hw.cached_filled h (Or.inl hs) hfill hret) ⟨hflags.1, hflags.2, hflags.3⟩ rfl
  | storeFilled hs hl _ _ _ hfill =>
      have hret := h.miss_retains (Or.inr hs) hl (hw.hasRoom h (Or.inr hs) hfits) heq
      exact hw.again (union_linesOf_nil (fetched_of_busy (by simp [hs])))
        (not_missing_of (s := .updateCacheStState) rfl)
        (hw.cached_filled h (Or.inr hs) hfill hret) ⟨hflags.1, hflags.2, hflags.3⟩ rfl

theorem Warm.settle (hw : c.Warm looked) : c.settle.Warm looked :=
  ⟨⟨hw.undisturbed.1, hw.undisturbed.2, hw.undisturbed.3⟩, hw.cached, hw.awaited, hw.misses⟩

theorem Warm.polled (hw : c.Warm looked) : c.polled.Warm looked :=
  ⟨⟨hw.undisturbed.1, hw.undisturbed.2, hw.undisturbed.3⟩, hw.cached, hw.awaited, hw.misses⟩

theorem Warm.sent (hw : c.Warm looked) (hs : Sent c d c') : c'.Warm looked := by
  obtain ⟨⟨hread, hreadX, hinvalidate⟩, hcached, hawaited, hmisses⟩ := hw
  cases hs <;> exact ⟨⟨hread, hreadX, hinvalidate⟩, hcached, hawaited, hmisses⟩

theorem Warm.heard (hw : c.Warm looked) (hs : Heard d c c') : c'.Warm looked := by
  obtain ⟨⟨hread, hreadX, hinvalidate⟩, hcached, hawaited, hmisses⟩ := hw
  cases hs <;> exact ⟨⟨hread, hreadX, hinvalidate⟩, hcached, hawaited, hmisses⟩

end Controller

/-! ## Runs -/

variable {ps : Params} {h : List TickRecord} {s mid s' : System} {req : Option BusRequest}
  {keys : Finset Nat} {a b : Nat} {c c' : Controller}

theorem Passed.fetched (hp : Passed ps b c req c') : c'.fetched = c.fetched := by
  obtain ⟨hs, hflag, hcurrent⟩ := hp.sameState
  rw [Controller.fetched, hs, hflag, hcurrent, ← Controller.fetched]

/-- Preserved by the bus. -/
theorem Passed.warm {looked : Finset Nat} (hp : Passed ps a c req c') (hi : c.Inv)
    (hk : c.Keeps (Allotted keys a a)) (hw : c.Warm looked)
    (helse : ∀ r, req = some r → r.sourceAddress ≠ a → r.Elsewhere keys) : c'.Warm looked := by
  have hflags := hw.undisturbed
  cases hp with
  | quiet | missed =>
      exact ⟨⟨hflags.1, hflags.2, hflags.3⟩, hw.cached, hw.awaited, hw.misses⟩
  | sent _ _ hs => exact hw.polled.sent hs
  | received hne _ hs => exact hw.heard (hs.heard hi hk (helse _ rfl hne))

namespace Processor

variable {p p' : Processor} {o : Option Instruction}

/-- What is handed over waits to be looked up. -/
theorem Turn.fetched (ht : p.Turn c o p') (hnone : c.fetched = []) :
    p'.cacheController.fetched = o.toList := by
  cases ht with
  | rests | waits => exact hnone
  | handsOver _ _ _ hidle => exact if_pos ⟨rfl, hidle⟩

theorem Turn.warm (ht : p.Turn c o p') {looked : Finset Nat} (hw : c.Warm looked) :
    p'.cacheController.Warm looked := by
  cases ht with
  | rests | waits => exact hw
  | handsOver =>
      obtain ⟨⟨hread, hreadX, hinvalidate⟩, hcached, hawaited, hmisses⟩ := hw
      exact ⟨⟨hread, hreadX, hinvalidate⟩, hcached, hawaited, hmisses⟩

end Processor

/-- What was handed over is looked up, or about to be, and the controller has kept it. -/
structure Kept (keys : Finset Nat) (a : Nat) (h : List TickRecord) (c : Controller) : Prop where
  handed : ∀ i ∈ handedOver a h, i.key ∈ keys
  warm : ∃ looked, handedOver a h = looked ++ c.fetched ∧ c.Warm (linesOf looked)

theorem kept_new : Kept keys a [] ((Controller.new ps.controllerType ps.burstLength).setAddress a) :=
  ⟨fun _ hi => (by cases hi), [], rfl, ⟨rfl, rfl, rfl⟩,
    fun k => iff_of_false (fun hk => hk (Cache.stateAt_new k)) fun hk => (by cases hk.1),
    fun hm => (by rcases hm with hm | hm <;> cases hm), rfl⟩

/-- **Preserved by a cycle.** -/
theorem Kept.cycle (hfits : LinesFit keys) {p p₁ : Processor} {c₂ : Controller}
    (hc : PrivateCycle ps keys a s mid req s' p p₁ c₂) (hk : Kept keys a h p.cacheController) :
    Kept keys a (⟨s, req, s'⟩ :: h) c₂ := by
  obtain ⟨hhanded, looked, heq, hw⟩ := hk
  obtain ⟨c₁, hc₁, hs, hturn⟩ := hc.cycle.inv.turn hc.cycle.tick
  have hnow : handedOver a (⟨s, req, s'⟩ :: h) = handedOver a h ++ p.handsOver.toList :=
    handedOver_cons hc.cycle.before
  have hsub : linesOf looked ⊆ keys := linesOf_subset fun i hi =>
    hhanded i (by rw [heq]; exact List.mem_append_left _ hi)
  have hw₁ := hw.transitioned hc.cycle.inv.controller (hfits.mono hsub) hc₁ hs
  rw [← linesOf_append] at hw₁
  refine ⟨fun i hi => ?_, looked ++ p.cacheController.fetched, ?_, ?_⟩
  · rw [hnow] at hi
    rcases List.mem_append.mp hi with hi | hi
    · exact hhanded i hi
    · exact hc.handed i (by simpa using hi)
  · rw [hnow, heq, hc.cycle.passed.fetched, hturn.fetched hs.fetched]
  · exact hc.cycle.passed.warm hc.inv hc.kept (hturn.warm hw₁.settle) hc.elsewhere

/-- Of the instructions handed over the controller has looked up all but the one that waits. -/
theorem System.run_looked {events : List Event} (hrun : System.run ps events = .ok (h, s))
    {p : Processor} (hp : s.interconnect.nodeAt a = some (.processor p)) {looked : List Instruction}
    (hhanded : handedOver a h = looked ++ p.cacheController.fetched) :
    (givenTo a events).take p.cacheController.counted = looked := by
  obtain ⟨hok, hfollow⟩ := System.run_allFollow hrun
  obtain ⟨hgiven, hops, hcounted⟩ := hfollow a p hp
  have hlength : looked.length = p.cacheController.counted := by
    have hwaiting : p.cacheController.fetched.length = p.cacheController.waiting :=
      (hok.valid.controller (controllerAt_of_nodeAt hp)).inv.length_fetched
    rw [hhanded, List.length_append] at hops
    omega
  rw [hgiven, hhanded, ← hlength, List.append_assoc, List.take_left]

/-- **Private lines miss once.** Let no line of the instructions given to the processor at this
address be in an instruction given to another processor, and no set of the cache get more of its
lines than it has room for. Then the misses of the processor are as many as the different lines
that it has looked up, and it still holds all of them, but for the one it is waiting for. -/
theorem private_lines_miss_once (ps : Params) (events : List Event) (h : List TickRecord)
    (s : System) (hrun : System.run ps events = .ok (h, s)) (a : Nat)
    (hprivate : ∀ i n, Event.insertInstruction i n ∈ events → Processor.isMemoryOp i = true →
      n + 1 ≠ a → i.key ∉ linesOf (givenTo a events))
    (hfits : LinesFit (linesOf (givenTo a events))) :
    ∀ p, s.interconnect.nodeAt a = some (.processor p) →
      p.cacheController.loadMisses + p.cacheController.storeMisses
          = (linesOf ((givenTo a events).take p.cacheController.counted)).card
      ∧ ∀ i ∈ (givenTo a events).take p.cacheController.counted,
          p.cacheController.cache.get i.address ≠ none
            ∨ p.cacheController.Missing
              ∧ i.key = lineKey p.cacheController.awaitingDataLocalAddress := by
  have hkept := System.run_private_induct (P := Kept (linesOf (givenTo a events)) a) kept_new
    (fun _ _ _ _ _ _ _ _ hc hk => hk.cycle hfits hc) (assigns_of_private hprivate) hrun
  intro p hp
  obtain ⟨_, looked, hhanded, hw⟩ := hkept _ (controllerAt_of_nodeAt hp)
  rw [System.run_looked hrun hp hhanded]
  refine ⟨hw.misses, fun i hi => ?_⟩
  by_cases hwait : p.cacheController.Missing
      ∧ i.key = lineKey p.cacheController.awaitingDataLocalAddress
  · exact Or.inr hwait
  · exact Or.inl ((hw.cached _).mpr ⟨mem_linesOf.mpr ⟨i, hi, rfl⟩, hwait⟩)

/-- Two accesses to a line, while another processor stores to another line of the same set. -/
def sharedSet : List Event :=
  [.insert .load 64 0, .insert .store 72 0, .insert .store 32832 1] ++ List.replicate 40 .tick

theorem private_lines_miss_once_shared_set : ∃ h s p,
    System.run ⟨2, .msi, 1, 2⟩ sharedSet = .ok (h, s)
      ∧ s.interconnect.nodeAt 1 = some (.processor p) ∧ p.cacheController.counted = 2
      ∧ p.cacheController.loadMisses + p.cacheController.storeMisses = 1 := by
  obtain ⟨h, s, hrun, hp⟩ := System.exists_run ⟨2, .msi, 1, 2⟩ sharedSet
    (fun _ s => (controllerAt s.interconnect 1).any fun c => c.counted = 2) (by decide +kernel)
  obtain ⟨c, hc, hcount⟩ := (Option.any_eq_true _ _).mp hp
  have hcount : c.counted = 2 := of_decide_eq_true hcount
  obtain ⟨p, hp, rfl⟩ := nodeAt_of_controllerAt hc
  refine ⟨h, s, p, hrun, hp, hcount, ?_⟩
  have hfits : LinesFit (linesOf (givenTo 1 sharedSet)) := fun _ =>
    (Finset.card_filter_le _ _).trans (by decide +kernel)
  have hprivate (i : Instruction) (n : Nat) (hmem : Event.insertInstruction i n ∈ sharedSet)
      (_ : Processor.isMemoryOp i = true) (hn : n + 1 ≠ 1) :
      i.key ∉ linesOf (givenTo 1 sharedSet) := by
    simp [sharedSet, Event.insert] at hmem
    obtain ⟨_, rfl⟩ | ⟨_, rfl⟩ | ⟨rfl, _⟩ := hmem
    · exact absurd rfl hn
    · exact absurd rfl hn
    · decide +kernel
  rw [(private_lines_miss_once _ _ h s hrun 1 hprivate hfits p hp).1, hcount]
  decide +kernel

end CoherenceSim
