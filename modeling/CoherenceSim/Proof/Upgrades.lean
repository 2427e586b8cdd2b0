import CoherenceSim.Proof.PrivateLines
import CoherenceSim.Proof.PrivateTraffic

/-!
# Private lines are upgraded again and again

What a line is in MSI that nobody shares and that has room, its first access decides for good:
`MODIFIED` if that is a store, and `SHARED` if it is a load. For after the `INVALIDATE` of a store
that finds its line `SHARED` the controller does not get to `UpdateCacheStore_Action`, and the line
stays what it is. So each store to a line that was first loaded sends an `INVALIDATE`, which nobody
heeds.
-/

namespace CoherenceSim

open BusNode

/-- What the first of these accesses to a line is. -/
def openerOf (l : List Instruction) (key : Nat) : Option Opcode :=
  (l.find? fun i => i.key = key).map (·.opcode)

/-- The stores to lines whose first access is a load. -/
def upgrades (l : List Instruction) : Nat :=
  l.countP fun i => i.opcode = .store ∧ openerOf l i.key = some .load

variable {l l' : List Instruction} {i : Instruction} {key : Nat}

theorem openerOf_append_of_mem (h : key ∈ linesOf l) :
    openerOf (l ++ l') key = openerOf l key := by
  obtain ⟨i, hi, hkey⟩ := mem_linesOf.mp h
  have hsome : (l.find? fun i => i.key = key).isSome := by
    rw [List.find?_isSome]
    exact ⟨i, hi, by simpa using hkey⟩
  rw [openerOf, List.find?_append, Option.or_of_isSome hsome, ← openerOf]

theorem openerOf_of_notMem (h : key ∉ linesOf l) : openerOf l key = none := by
  rw [openerOf, Option.map_eq_none_iff, List.find?_eq_none]
  exact fun i hi hkey => h (mem_linesOf.mpr ⟨i, hi, by simpa using hkey⟩)

theorem openerOf_append_of_notMem (h : key ∉ linesOf l) :
    openerOf (l ++ l') key = openerOf l' key := by
  have hnone := openerOf_of_notMem h
  rw [openerOf, Option.map_eq_none_iff] at hnone
  rw [openerOf, List.find?_append, hnone, Option.none_or, ← openerOf]

theorem openerOf_singleton (i : Instruction) : openerOf [i] i.key = some i.opcode := by
  simp [openerOf]

/-- One more access is an upgrade if it is a store, and its line was first loaded. -/
theorem upgrades_append_singleton (l : List Instruction) (i : Instruction) :
    upgrades (l ++ [i])
      = upgrades l + if i.opcode = .store ∧ openerOf l i.key = some .load then 1 else 0 := by
  have hold : l.countP (fun j => j.opcode = .store ∧ openerOf (l ++ [i]) j.key = some .load)
      = upgrades l := by
    refine List.countP_congr fun j hj => ?_
    rw [openerOf_append_of_mem (mem_linesOf.mpr ⟨j, hj, rfl⟩)]
  have hlast : (i.opcode = .store ∧ openerOf (l ++ [i]) i.key = some .load)
      ↔ i.opcode = .store ∧ openerOf l i.key = some .load := by
    by_cases hmem : i.key ∈ linesOf l
    · rw [openerOf_append_of_mem hmem]
    · rw [openerOf_append_of_notMem hmem, openerOf_of_notMem hmem, openerOf_singleton]
      constructor
      · rintro ⟨hs, hl⟩
        rw [hs] at hl
        cases hl
      · rintro ⟨_, hl⟩
        cases hl
  rw [upgrades, List.countP_append, hold, List.countP_singleton]
  simp only [hlast, decide_eq_true_eq]

/-- How many `INVALIDATE`s these accesses cost. -/
def upgradesIn (t : ControllerType) (l : List Instruction) : Nat :=
  if t = .msi then upgrades l else 0

/-- What no upgrade is costs no `INVALIDATE`. -/
theorem upgradesIn_append_singleton {t : ControllerType}
    (hno : t = .msi → i.opcode = .store → openerOf l i.key ≠ some .load) :
    upgradesIn t (l ++ [i]) = upgradesIn t l := by
  unfold upgradesIn
  split
  · rename_i ht
    rw [upgrades_append_singleton, if_neg fun h => hno ht h.1 h.2, Nat.add_zero]
  · rfl

namespace Controller

variable {c c' : Controller} {d : BusRequest} {adx : Nat} {opcode : Opcode}
  {looked : List Instruction}

theorem Instructs.fetched (hi : c.Instructs opcode adx) (ok : c.cache.Ok)
    (hs : c.currentState = .idleState) (hp : c.pendingInstructionFlag = true) :
    ∃ i, c.fetched = [i] ∧ i.opcode = opcode ∧ i.key = lineKey adx := by
  obtain ⟨i, hcurrent, hcode, rfl⟩ := hi
  refine ⟨i, ?_, hcode, (ok.lineKey_getLineAlignedAddress i.isLt).symm⟩
  rw [Controller.fetched, if_pos ⟨hp, hs⟩, hcurrent]
  rfl

/-- The lines are what their first accesses made of them, and the one that is waited for will be. -/
structure Opened (looked : List Instruction) (c : Controller) : Prop where
  cached : ∀ k m, c.cache.stateAt k = some m →
    (m = .shared ↔ c.controllerType = .msi ∧ openerOf looked k = some .load)
  reads : c.currentState = .issueReadState →
    openerOf looked (lineKey c.awaitingDataLocalAddress) = some .load
  readXs : c.currentState = .issueReadXState →
    openerOf looked (lineKey c.awaitingDataLocalAddress) = some .store

/-- What was looked up last opens no line that is held. -/
theorem Opened.append (ho : c.Opened looked) (hw : c.Warm (linesOf looked)) (l : List Instruction) :
    ∀ k m, c.cache.stateAt k = some m →
      (m = .shared ↔ c.controllerType = .msi ∧ openerOf (looked ++ l) k = some .load) := by
  intro k m hm
  have hmem := ((hw.cached k).mp (by rw [hm]; simp)).1
  rw [openerOf_append_of_mem hmem]
  exact ho.cached k m hm

/-- After a step that leaves no miss. -/
theorem Opened.again (ho : c.Opened looked) (hw : c.Warm (linesOf looked)) (l : List Instruction)
    (hn : ¬ c'.Missing) (ht : c'.controllerType = c.controllerType)
    (hcache : ∀ k m, c'.cache.stateAt k = some m → ∃ m', c.cache.stateAt k = some m'
      ∧ (m = .shared ↔ m' = .shared)) : c'.Opened (looked ++ l) := by
  refine ⟨fun k m hm => ?_, fun hs => absurd (Or.inl hs) hn, fun hs => absurd (Or.inr hs) hn⟩
  obtain ⟨m', hm', hiff⟩ := hcache k m hm
  rw [ht, hiff]
  exact ho.append hw l k m' hm'

theorem Opened.filled (ho : c.Opened looked) {m : MESI} {k : Cache}
    (hfill : c.cache.Filled c.awaitingDataLocalAddress m k)
    (hm : m = .shared ↔ c.controllerType = .msi
      ∧ openerOf looked (lineKey c.awaitingDataLocalAddress) = some .load) :
    ∀ key m', k.stateAt key = some m' →
      (m' = .shared ↔ c.controllerType = .msi ∧ openerOf looked key = some .load) := by
  intro key m' hm'
  by_cases hkey : key = lineKey c.awaitingDataLocalAddress
  · have hget := hfill.get
    rw [Cache.get, ← hkey, hm'] at hget
    cases hget
    rw [hkey]
    exact hm
  · rcases hfill.others key hkey with h0 | h0
    · exact ho.cached key m' (h0 ▸ hm')
    · rw [h0] at hm'
      cases hm'

theorem put_shared {m : MESI} {k : Cache} (hm : c.cache.get adx = some m) {m' : MESI}
    (hput : c.cache.Put adx (some m') k) (hiff : m' = .shared ↔ m = .shared) :
    ∀ key n, k.stateAt key = some n → ∃ n', c.cache.stateAt key = some n'
      ∧ (n = .shared ↔ n' = .shared) := by
  intro key n hn
  rw [hput.stateAt] at hn
  split at hn
  · rename_i hkey
    cases hn
    exact ⟨m, hkey ▸ hm, hiff⟩
  · exact ⟨n, hn, Iff.rfl⟩

/-- **Preserved by a step**, which queues an `INVALIDATE` for an upgrade. -/
theorem Opened.transitioned (ho : c.Opened looked) (hw : c.Warm (linesOf looked)) (h : c.Inv)
    (ha : c'.Alone) (hs : Transitioned c c') : c'.Opened (looked ++ c.fetched)
      ∧ c'.maxPriorityQueue.length + upgradesIn c.controllerType looked
        = c.maxPriorityQueue.length + upgradesIn c.controllerType (looked ++ c.fetched) := by
  have hflags := hw.undisturbed
  have same : ∀ key n, c.cache.stateAt key = some n → ∃ n', c.cache.stateAt key = some n'
      ∧ (n = .shared ↔ n' = .shared) := fun _ n hn => ⟨n, hn, Iff.rfl⟩
  -- a step that looks nothing up
  have nothing (hnone : c.fetched = []) (ho' : c'.Opened looked)
      (hq : c'.maxPriorityQueue = c.maxPriorityQueue) : c'.Opened (looked ++ c.fetched)
        ∧ c'.maxPriorityQueue.length + upgradesIn c.controllerType looked
          = c.maxPriorityQueue.length + upgradesIn c.controllerType (looked ++ c.fetched) := by
    rw [hnone, List.append_nil, hq]
    exact ⟨ho', rfl⟩
  have held {adx : Nat} {m : MESI} (hm : c.cache.get adx = some m) :=
    ho.cached (lineKey adx) m hm
  cases hs with
  | rest hs hp =>
      refine nothing (fetched_of_not_pending hp) ⟨ho.cached, fun h0 => ?_, fun h0 => ?_⟩ rfl
      · exact absurd (Or.inl h0) (not_missing_of (s := .idleState) hs)
      · exact absurd (Or.inr h0) (not_missing_of (s := .idleState) hs)
  | retire hs =>
      refine nothing ?_ ⟨ho.cached, fun h0 => (by cases h0), fun h0 => (by cases h0)⟩ rfl
      rcases hs with hs | hs | hs <;> exact fetched_of_busy (by simp [hs])
  | wait hm =>
      exact nothing (fetched_of_busy (by rcases hm with hs | hs <;> simp [hs])) ho rfl
  | invalidateQueued hs =>
      exact nothing (fetched_of_busy (by simp [hs]))
        ⟨ho.cached, fun h0 => (by cases h0), fun h0 => (by cases h0)⟩ rfl
  | loadHit hs hp hi hm hput =>
      obtain ⟨i, hfetched, hcode, hkey⟩ := hi.fetched h.cache hs hp
      rw [hfetched, upgradesIn_append_singleton fun _ h0 => (by rw [hcode] at h0; cases h0)]
      exact ⟨ho.again hw _ (not_missing_of (s := .updateCacheLdState) rfl) rfl
        (put_shared hm hput Iff.rfl), rfl⟩
  | @storeHit _ m _ hs hp hi hm hown hput =>
      obtain ⟨i, hfetched, hcode, hkey⟩ := hi.fetched h.cache hs hp
      have hne : m ≠ .shared := by rcases hown with rfl | rfl <;> simp
      rw [hfetched, upgradesIn_append_singleton fun ht _ h0 =>
        hne ((held hm).mpr ⟨ht, hkey ▸ h0⟩)]
      exact ⟨ho.again hw _ (not_missing_of (s := .updateCacheStState) rfl) rfl
        (put_shared hm hput (iff_of_false (by simp) hne)), rfl⟩
  | storeShared hs hp hi hm =>
      obtain ⟨i, hfetched, hcode, hkey⟩ := hi.fetched h.cache hs hp
      obtain ⟨ht, hload⟩ := (held hm).mp rfl
      rw [hfetched]
      refine ⟨ho.again hw _ (not_missing_of (s := .issueInvalidateState) rfl) rfl same, ?_⟩
      rw [upgradesIn, upgradesIn, if_pos ht, if_pos ht, upgrades_append_singleton,
        if_pos ⟨hcode, hkey.symm ▸ hload⟩]
      exact Nat.add_right_comm _ _ _
  | loadMiss hs hp hi hm =>
      obtain ⟨i, hfetched, hcode, hkey⟩ := hi.fetched h.cache hs hp
      have hnew : lineKey _ ∉ linesOf looked := fun h0 =>
        (hw.cached_of_not_missing (not_missing_of hs) _).mpr h0 hm
      rw [hfetched, upgradesIn_append_singleton fun _ h0 => (by rw [hcode] at h0; cases h0)]
      refine ⟨⟨ho.append hw _, fun _ => ?_, fun h0 => (by cases h0)⟩, rfl⟩
      rw [openerOf_append_of_notMem hnew, ← hkey, openerOf_singleton, hcode]
  | storeMiss hs hp hi hm =>
      obtain ⟨i, hfetched, hcode, hkey⟩ := hi.fetched h.cache hs hp
      have hnew : lineKey _ ∉ linesOf looked := fun h0 =>
        (hw.cached_of_not_missing (not_missing_of hs) _).mpr h0 hm
      rw [hfetched, upgradesIn_append_singleton fun _ _ h0 =>
        (by rw [hkey, openerOf_of_notMem hnew] at h0; cases h0)]
      refine ⟨⟨ho.append hw _, fun h0 => (by cases h0), fun _ => ?_⟩, rfl⟩
      rw [openerOf_append_of_notMem hnew, ← hkey, openerOf_singleton, hcode]
  | loadDropped _ _ hsaw =>
      rw [hflags.sawBusReadX, hflags.sawInvalidate] at hsaw
      simp at hsaw
  | storeDropped _ _ hsaw =>
      rw [hflags.sawBusRead, hflags.sawBusReadX, hflags.sawInvalidate] at hsaw
      simp at hsaw
  | @loadFilled m k hs _ _ _ hallows hmodified _ hfill =>
      -- in MSI only `SHARED` is left
      have hm : m = .shared ↔ c.controllerType = .msi := by
        constructor
        · intro h0
          have hget := hfill.get
          rw [h0] at hget
          cases ht : c.controllerType with
          | mi =>
              rw [ht, h0] at hallows
              cases hallows
          | msi => rfl
          | mesi => exact absurd hget (ha.unshared ht _)
        · intro ht
          rw [ht] at hallows
          refine hallows.resolve_left fun h0 => ?_
          rw [hmodified h0] at ht
          cases ht
      refine nothing (fetched_of_busy (by simp [hs])) ⟨ho.filled hfill ?_, fun h0 => (by cases h0),
        fun h0 => (by cases h0)⟩ rfl
      exact hm.trans (and_iff_left (ho.reads hs)).symm
  | storeFilled hs _ _ _ _ hfill =>
      refine nothing (fetched_of_busy (by simp [hs])) ⟨ho.filled hfill ?_, fun h0 => (by cases h0),
        fun h0 => (by cases h0)⟩ rfl
      refine iff_of_false (by simp) fun h0 => ?_
      rw [ho.readXs hs] at h0
      cases h0.2

theorem Opened.frame (ho : c.Opened looked) {l f : Bool} :
    Opened looked { c with nodeIsLocked := l, bursting := f } :=
  ⟨ho.cached, ho.reads, ho.readXs⟩

theorem Opened.heard (ho : c.Opened looked) (hs : Heard d c c') : c'.Opened looked := by
  cases hs <;> exact ⟨ho.cached, ho.reads, ho.readXs⟩

theorem Opened.sent (ho : c.Opened looked) (hs : Sent c d c') : c'.Opened looked := by
  cases hs <;> exact ⟨ho.cached, ho.reads, ho.readXs⟩

/-- The answers to other requests are none of the `INVALIDATE`s that wait. -/
theorem Alone.uncancelled (ha : c.Alone) (d : BusRequest) :
    uncancelled d c.maxPriorityQueue = c.maxPriorityQueue := by
  unfold Controller.uncancelled
  split
  · refine List.eraseP_of_forall_not fun r hr => ?_
    simp [(ha.urgent r hr).1]
  · rfl

theorem Alone.queue_heard (ha : c.Alone) (hs : Heard d c c') :
    c'.maxPriorityQueue = c.maxPriorityQueue := by
  cases hs <;> exact ha.uncancelled d

/-- An `INVALIDATE` that goes out does not wait any more. -/
theorem Alone.queue_sent (ha : c.Alone) (hs : Sent c d c') :
    c'.maxPriorityQueue.length + (decide (d.commandCode = .invalidate)).toNat
      = c.maxPriorityQueue.length := by
  have popped {r : BusRequest} (hq : c.maxPriorityQueue.getLast? = some r) :
      c.maxPriorityQueue.dropLast.length + 1 = c.maxPriorityQueue.length := by
    have hpos := List.length_pos_of_mem (List.mem_of_mem_getLast? hq)
    rw [List.length_dropLast]
    omega
  have noBurst {r : BusRequest} (hq : c.maxPriorityQueue.getLast? = some r)
      (hb : burstsFor r = true) : False := by
    have hcode := (ha.urgent r (List.mem_of_mem_getLast? hq)).1
    simp [burstsFor, hcode] at hb
  cases hs with
  | nullBurst hq hb | transfer hq hb => exact (noBurst hq hb).elim
  | command hq =>
      rw [(ha.urgent _ (List.mem_of_mem_getLast? hq)).1]
      exact popped hq
  | read =>
      rcases c.missCommand_cases with h0 | ⟨h0, _⟩ <;> simp [missRequest, h0]

end Controller

/-! ## Runs -/

variable {ps : Params} {h : List TickRecord} {s mid s' : System} {req : Option BusRequest}
  {keys : Finset Nat} {a : Nat} {c c' : Controller}

/-- The `INVALIDATE`s that were sent and that wait are the upgrades among the instructions that were
looked up. -/
structure Upgraded (ps : Params) (a : Nat) (h : List TickRecord) (looked : List Instruction)
    (c : Controller) : Prop where
  opened : c.Opened looked
  paid : timesSent (·.IsFrom a .invalidate) h + c.maxPriorityQueue.length
    = upgradesIn ps.controllerType looked

/-- Preserved by the bus. -/
theorem Passed.upgraded {looked : List Instruction} (hp : Passed ps a c req c')
    (hr : a ≤ ps.numProcessors) (hi : c.Inv) (hk : c.Keeps (Allotted keys a a)) (ha : c.Alone)
    (helse : ∀ r, req = some r → r.sourceAddress ≠ a → r.Elsewhere keys)
    (hu : Upgraded ps a h looked c) : Upgraded ps a (⟨s, req, s'⟩ :: h) looked c' := by
  obtain ⟨ho, hpaid⟩ := hu
  cases hp with
  | quiet => exact ⟨ho.frame, hpaid⟩
  | @sent r _ hsrc _ hs =>
      refine ⟨ho.frame.sent hs, ?_⟩
      have hqueue := Controller.Alone.queue_sent (c := c.polled) ha.frame hs
      have hone : (some r).any (fun r => decide (r.IsFrom a .invalidate))
          = decide (r.commandCode = .invalidate) := by
        simp [BusRequest.IsFrom, hsrc]
      rw [timesSent_isFrom_cons, hone]
      change _ = c.maxPriorityQueue.length at hqueue
      omega
  | received hne _ hs =>
      have hheard := hs.heard hi hk (helse _ rfl hne)
      refine ⟨ho.heard hheard, ?_⟩
      rw [ha.queue_heard hheard,
        timesSent_isFrom_of_ne _ _ _ _ _ fun _ h0 => (by cases h0; exact hne)]
      exact hpaid
  | missed hsrc =>
      refine ⟨ho, ?_⟩
      rw [timesSent_isFrom_of_ne _ _ _ _ _ fun _ h0 => (by cases h0; omega)]
      exact hpaid

theorem Processor.Turn.opened {p p' : Processor} {o : Option Instruction} (ht : p.Turn c o p')
    {looked : List Instruction} (ho : c.Opened looked) : p'.cacheController.Opened looked := by
  cases ht with
  | rests | waits => exact ho
  | handsOver _ _ _ hidle =>
      exact ⟨ho.cached, fun h0 => (by rw [show c.currentState = _ from h0] at hidle; cases hidle),
        fun h0 => (by rw [show c.currentState = _ from h0] at hidle; cases hidle)⟩

theorem Processor.Turn.maxPriorityQueue {p p' : Processor} {o : Option Instruction}
    (ht : p.Turn c o p') : p'.cacheController.maxPriorityQueue = c.maxPriorityQueue := by
  cases ht <;> rfl

/-- What holds of the controller of a processor whose lines are private and have room. -/
structure Charges (ps : Params) (keys : Finset Nat) (a : Nat) (h : List TickRecord)
    (c : Controller) : Prop where
  kept : Kept keys a h c
  reads : OnlyReads ps a h c
  upgraded : ∃ looked, handedOver a h = looked ++ c.fetched ∧ Upgraded ps a h looked c

theorem charges_new :
    Charges ps keys a [] ((Controller.new ps.controllerType ps.burstLength).setAddress a) :=
  ⟨kept_new, onlyReads_new, [], rfl,
    ⟨fun k m hm => (by cases (Cache.stateAt_new k).symm.trans hm), fun h0 => (by cases h0),
      fun h0 => (by cases h0)⟩,
    by unfold upgradesIn; split <;> rfl⟩

/-- **Preserved by a cycle.** -/
theorem Charges.cycle (hfits : LinesFit keys) {p p₁ : Processor} {c₂ : Controller}
    (hc : PrivateCycle ps keys a s mid req s' p p₁ c₂) (hk : Charges ps keys a h p.cacheController) :
    Charges ps keys a (⟨s, req, s'⟩ :: h) c₂ := by
  refine ⟨hk.kept.cycle hfits hc, hk.reads.cycle hc, ?_⟩
  obtain ⟨looked, heq, ho, hpaid⟩ := hk.upgraded
  obtain ⟨_, looked', heq', hw⟩ := hk.kept
  obtain rfl : looked' = looked := List.append_cancel_right (heq'.symm.trans heq)
  obtain ⟨c₁, hc₁, hs, hturn⟩ := hc.cycle.inv.turn hc.cycle.tick
  have ha₁ := hk.reads.alone.transitioned hc.cycle.inv.controller hc₁ hs
  obtain ⟨ho₁, hqueue⟩ := ho.transitioned hw hc.cycle.inv.controller ha₁ hs
  have hnow : handedOver a (⟨s, req, s'⟩ :: h) = handedOver a h ++ p.handsOver.toList :=
    handedOver_cons hc.cycle.before
  refine ⟨looked' ++ p.cacheController.fetched, ?_, ?_⟩
  · rw [hnow, heq, hc.cycle.passed.fetched, hturn.fetched hs.fetched]
  · refine hc.cycle.passed.upgraded hc.range.2 hc.inv hc.kept (hturn.alone ha₁.frame) hc.elsewhere
      ⟨hturn.opened ho₁.frame, ?_⟩
    rw [hk.reads.controllerType] at hqueue
    have hsame : p₁.cacheController.maxPriorityQueue = c₁.maxPriorityQueue := hturn.maxPriorityQueue
    rw [hsame]
    omega

/-- The run of a processor whose lines are private and have room. -/
theorem System.run_charges {events : List Event}
    (hprivate : ∀ i n, Event.insertInstruction i n ∈ events → Processor.isMemoryOp i = true →
      n + 1 ≠ a → i.key ∉ linesOf (givenTo a events))
    (hfits : LinesFit (linesOf (givenTo a events))) (hrun : System.run ps events = .ok (h, s)) :
    ∀ c, controllerAt s.interconnect a = some c →
      Charges ps (linesOf (givenTo a events)) a h c :=
  System.run_private_induct charges_new (fun _ _ _ _ _ _ _ _ hc hk => hk.cycle hfits hc)
    (assigns_of_private hprivate) hrun

/-- **Private lines are upgraded again and again.** Let no line of the instructions given to the
processor at this address be in an instruction given to another processor, and no set of the cache
get more of its lines than it has room for. Then in MSI the `INVALIDATE`s that it has sent, and
those that wait, are as many as its stores to lines that it first loaded; in MI and MESI there are
none. -/
theorem private_lines_cost_their_upgrades (ps : Params) (events : List Event) (h : List TickRecord)
    (s : System) (hrun : System.run ps events = .ok (h, s)) (a : Nat)
    (hprivate : ∀ i n, Event.insertInstruction i n ∈ events → Processor.isMemoryOp i = true →
      n + 1 ≠ a → i.key ∉ linesOf (givenTo a events))
    (hfits : LinesFit (linesOf (givenTo a events))) :
    ∀ c, controllerAt s.interconnect a = some c →
      timesSent (·.IsFrom a .invalidate) h + c.maxPriorityQueue.length
        = if ps.controllerType = .msi then upgrades ((givenTo a events).take c.counted) else 0 := by
  intro c hc
  obtain ⟨looked, hhanded, _, hpaid⟩ := (System.run_charges hprivate hfits hrun c hc).upgraded
  obtain ⟨p, hp, rfl⟩ := nodeAt_of_controllerAt hc
  rw [System.run_looked hrun hp hhanded, hpaid]
  rfl

/-- Two stores to a line that was loaded, and one to a line of its own. -/
def loadedFirst : List Event :=
  [.insert .load 64 0, .insert .store 72 0, .insert .store 96 0, .insert .store 64 0]
    ++ List.replicate 60 .tick

theorem private_lines_cost_their_upgrades_two_stores : ∃ h s,
    System.run ⟨2, .msi, 1, 2⟩ loadedFirst = .ok (h, s)
      ∧ timesSent (·.IsFrom 1 .invalidate) h = 2 := by
  obtain ⟨h, s, hrun, hp⟩ := System.exists_run ⟨2, .msi, 1, 2⟩ loadedFirst
    (fun _ s => (controllerAt s.interconnect 1).any fun c =>
      c.counted == 4 && c.maxPriorityQueue.length == 0) (by decide +kernel)
  obtain ⟨c, hc, hcounts⟩ := (Option.any_eq_true _ _).mp hp
  simp only [Bool.and_eq_true, beq_iff_eq] at hcounts
  obtain ⟨hcount, hqueue⟩ := hcounts
  refine ⟨h, s, hrun, ?_⟩
  have hfits : LinesFit (linesOf (givenTo 1 loadedFirst)) := fun _ =>
    (Finset.card_filter_le _ _).trans (by decide +kernel)
  have hprivate (i : Instruction) (n : Nat) (hmem : Event.insertInstruction i n ∈ loadedFirst)
      (_ : Processor.isMemoryOp i = true) (hn : n + 1 ≠ 1) :
      i.key ∉ linesOf (givenTo 1 loadedFirst) := by
    simp [loadedFirst, Event.insert] at hmem
    omega
  have hcost := private_lines_cost_their_upgrades _ _ h s hrun 1 hprivate hfits c hc
  rw [hqueue, hcount] at hcost
  exact hcost.trans (by decide +kernel)

end CoherenceSim
