import CoherenceSim.Proof.OwnLines
import CoherenceSim.Proof.ReadTraffic

/-!
# Private lines cost their misses

All that a processor that shares no line puts on the bus is one read for each miss, and in MSI an
`INVALIDATE` for a store that finds its line `SHARED`. It answers nobody, and it drops no line. In
MESI the data that it waits for can only come from memory, and so its lines are `EXCLUSIVE` or
`MODIFIED`, and need no `INVALIDATE`: that is what the state `EXCLUSIVE` is for.
-/

namespace CoherenceSim

open BusNode

namespace Controller

variable {c c' : Controller} {d : BusRequest}

theorem updateCacheLoad_alone (ok : c.cache.Ok) {adx : Nat} (hl : c.instructionLine = .ok adx)
    (hnew : c.cache.get adx = none) (hflags : c.Undisturbed)
    (hgot : c.gotDataReturnFromBusReadMemory = true) :
    ∃ k, MESIController.updateCacheLoadAction c = .ok { c with cache := k }
      ∧ c.cache.Filled adx .exclusive k := by
  obtain ⟨k₀, k₁, k₂, k, hroom, hins, hset, _, _, hlru, hfill⟩ :=
    fill_spec ok hnew fun k m hok hm => hok.setExclusive hm
  refine ⟨k, ?_, hfill⟩
  simp [MESIController.updateCacheLoadAction, SharingController.updateCacheLoadAction, hl,
    hflags.sawBusRead, hflags.sawBusReadX, hflags.sawInvalidate, ok.contains, hnew, hgot, hroom,
    hins, hset, Controller.updateLRU, hlru]

/-- A load that memory has answered, and that nobody has disturbed, gets the line alone. -/
theorem Inv.load_exclusive (h : c.Inv) (ht : c.controllerType = .mesi)
    (hs : c.currentState = .issueReadState) (hw : c.awaitingDataLocal = false)
    (hflags : c.Undisturbed) (hgot : c.gotDataReturnFromBusReadMemory = true)
    (heq : c.transitionState = .ok c') :
    c'.cache.get c.awaitingDataLocalAddress = some .exclusive := by
  obtain ⟨⟨_, hi⟩, hnew, _, hstage⟩ := h.miss (Or.inl hs)
  have hb := (hstage.answered_of hw).1
  obtain ⟨k, hk, hfill⟩ := updateCacheLoad_alone (c := { c with currentState := .updateCacheLdState })
    h.cache hi.instructionLine hnew ⟨hflags.1, hflags.2, hflags.3⟩ hgot
  have hnext : SharingController.getNextState (SharingController.checkCacheStoreTransition
      fun isExclusive isModified isShared => isExclusive || isModified || isShared) c
        = .ok (.updateCacheLdState, c) := by
    simp [SharingController.getNextState, hs, issueReadTransition, hw, hb]
  have hstep : c.transitionState = MESIController.updateCacheLoadAction
      { c with currentState := .updateCacheLdState } := by
    have hmesi : c.transitionState = MESIController.transitionState 2 c := by
      rw [Controller.transitionState, ht]
    exact hmesi.trans (show sharingTransition _ Cache.setExclusive 2 c = _ from sharing_step hnext)
  rw [hstep, hk] at heq
  cases heq
  exact hfill.get

/-! ## The traffic of a controller whose lines are private -/

/-- Nobody shares a line with the controller, and so it has nothing to answer. -/
structure Alone (c : Controller) : Prop where
  undisturbed : c.Undisturbed
  answered : c.Missing → c.awaitingDataLocal = false → c.gotDataReturnFromBusReadMemory = true
  unshared : c.controllerType = .mesi → ∀ k, c.cache.stateAt k ≠ some .shared
  urgent : ∀ r ∈ c.maxPriorityQueue, r.commandCode = .invalidate ∧ c.controllerType = .msi

theorem Alone.unshared_put (ha : c.Alone) {adx : Nat} {m : MESI} {k : Cache}
    (hput : c.cache.Put adx (some m) k) (hm : c.controllerType = .mesi → m ≠ .shared) :
    c.controllerType = .mesi → ∀ key, k.stateAt key ≠ some .shared := by
  intro ht key h0
  rw [hput.stateAt] at h0
  split at h0
  · exact hm ht (Option.some.inj h0)
  · exact ha.unshared ht key h0

theorem Alone.unshared_filled (ha : c.Alone) {adx : Nat} {m : MESI} {k : Cache}
    (hfill : c.cache.Filled adx m k) (hm : c.controllerType = .mesi → m ≠ .shared) :
    c.controllerType = .mesi → ∀ key, k.stateAt key ≠ some .shared := by
  intro ht key h0
  by_cases hkey : key = lineKey adx
  · have hget := hfill.get
    rw [Cache.get, ← hkey, h0] at hget
    exact hm ht (Option.some.inj hget).symm
  · rcases hfill.others key hkey with h1 | h1
    · exact ha.unshared ht key (h1 ▸ h0)
    · rw [h1] at h0
      cases h0

/-- After a step that leaves the queue alone and does not wait for data that is there. -/
theorem Alone.step (ha : c.Alone) (ht : c'.controllerType = c.controllerType)
    (hflags : c'.Undisturbed) (hwait : c'.Missing → c'.awaitingDataLocal = true)
    (hcache : c.controllerType = .mesi → ∀ k, c'.cache.stateAt k ≠ some .shared)
    (hq : c'.maxPriorityQueue = c.maxPriorityQueue) : c'.Alone :=
  ⟨hflags, fun hm hw => (by rw [hwait hm] at hw; cases hw), fun h0 => hcache (ht ▸ h0),
    fun r hr => ht ▸ ha.urgent r (hq ▸ hr)⟩

/-- **Preserved by a step.** -/
theorem Alone.transitioned (ha : c.Alone) (h : c.Inv) (heq : c.transitionState = .ok c')
    (hs : Transitioned c c') : c'.Alone := by
  have hflags := ha.undisturbed
  have hheld {adx : Nat} {m : MESI} (hm : c.cache.get adx = some m) :
      c.controllerType = .mesi → m ≠ .shared := fun ht h0 => ha.unshared ht _ (h0 ▸ hm)
  cases hs with
  | rest hs =>
      exact ha.step rfl ⟨rfl, rfl, rfl⟩ (fun h0 => absurd h0 (not_missing_of (s := .idleState) hs))
        ha.unshared rfl
  | retire =>
      exact ha.step rfl ⟨rfl, rfl, rfl⟩ (fun h0 => absurd h0 (not_missing_of (s := .idleState) rfl))
        ha.unshared rfl
  | wait => exact ha
  | invalidateQueued =>
      exact ha.step rfl ⟨hflags.1, hflags.2, hflags.3⟩
        (fun h0 => absurd h0 (not_missing_of (s := .invalidateWait) rfl)) ha.unshared rfl
  | loadHit _ _ _ hm hput =>
      exact ha.step rfl ⟨hflags.1, hflags.2, hflags.3⟩
        (fun h0 => absurd h0 (not_missing_of (s := .updateCacheLdState) rfl))
        (ha.unshared_put hput (hheld hm)) rfl
  | storeHit _ _ _ _ _ hput =>
      exact ha.step rfl ⟨hflags.1, hflags.2, hflags.3⟩
        (fun h0 => absurd h0 (not_missing_of (s := .updateCacheStState) rfl))
        (ha.unshared_put hput fun _ => by simp) rfl
  | loadMiss | storeMiss =>
      exact ha.step rfl ⟨hflags.1, hflags.2, hflags.3⟩ (fun _ => rfl) ha.unshared rfl
  | storeShared _ _ _ hm hmi =>
      -- in MESI the line would not be shared
      have hmsi : c.controllerType = .msi := by
        cases ht : c.controllerType with
        | mi => exact absurd ht hmi
        | msi => rfl
        | mesi => exact absurd rfl (hheld hm ht)
      refine ⟨⟨hflags.1, hflags.2, hflags.3⟩,
        fun h0 => absurd h0 (not_missing_of (s := .issueInvalidateState) rfl), ha.unshared,
        fun r hr => ?_⟩
      rcases List.mem_cons.mp hr with rfl | hr
      · exact ⟨rfl, hmsi⟩
      · exact ha.urgent r hr
  | loadDropped _ _ hsaw =>
      rw [hflags.sawBusReadX, hflags.sawInvalidate] at hsaw
      simp at hsaw
  | storeDropped _ _ hsaw =>
      rw [hflags.sawBusRead, hflags.sawBusReadX, hflags.sawInvalidate] at hsaw
      simp at hsaw
  | loadFilled hs hw _ _ _ _ _ hfill =>
      refine ha.step rfl ⟨hflags.1, hflags.2, hflags.3⟩
        (fun h0 => absurd h0 (not_missing_of (s := .updateCacheLdState) rfl))
        (ha.unshared_filled hfill fun ht h0 => ?_) rfl
      have halone := h.load_exclusive ht hs hw hflags (ha.answered (Or.inl hs) hw) heq
      rw [hfill.get, h0] at halone
      cases halone
  | storeFilled _ _ _ _ _ hfill =>
      exact ha.step rfl ⟨hflags.1, hflags.2, hflags.3⟩
        (fun h0 => absurd h0 (not_missing_of (s := .updateCacheStState) rfl))
        (ha.unshared_filled hfill fun _ => by simp) rfl

theorem Alone.frame (ha : c.Alone) {l f : Bool} :
    Alone { c with nodeIsLocked := l, bursting := f } :=
  ⟨⟨ha.undisturbed.1, ha.undisturbed.2, ha.undisturbed.3⟩, ha.answered, ha.unshared, ha.urgent⟩

theorem Alone.heard (ha : c.Alone) (hs : Heard d c c') : c'.Alone := by
  have hflags := ha.undisturbed
  cases hs with
  | answer =>
      exact ⟨⟨hflags.1, hflags.2, hflags.3⟩, fun _ _ => rfl, ha.unshared,
        fun r hr => ha.urgent r (mem_uncancelled hr)⟩
  | nothing =>
      exact ⟨⟨hflags.1, hflags.2, hflags.3⟩, ha.answered, ha.unshared,
        fun r hr => ha.urgent r (mem_uncancelled hr)⟩

/-- What such a controller sends. -/
theorem Alone.sends (ha : c.Alone) (hs : Sent c d c') : d.commandCode = .busRead
    ∨ d.commandCode = .busReadX ∨ d.commandCode = .invalidate ∧ c.controllerType = .msi := by
  have noBurst {r : BusRequest} (hq : c.maxPriorityQueue.getLast? = some r)
      (hb : burstsFor r = true) : False := by
    have hcode := (ha.urgent r (List.mem_of_mem_getLast? hq)).1
    simp [burstsFor, hcode] at hb
  cases hs with
  | nullBurst hq hb => exact (noBurst hq hb).elim
  | transfer hq hb => exact (noBurst hq hb).elim
  | command hq => exact Or.inr (Or.inr (ha.urgent _ (List.mem_of_mem_getLast? hq)))
  | read =>
      show c.missCommand = _ ∨ c.missCommand = _ ∨ _
      rcases c.missCommand_cases with h0 | ⟨h0, _⟩
      · exact Or.inr (Or.inl h0)
      · exact Or.inl h0

theorem Alone.sent (ha : c.Alone) (hs : Sent c d c') : c'.Alone := by
  have hurgent : ∀ r ∈ c'.maxPriorityQueue,
      r.commandCode = .invalidate ∧ c.controllerType = .msi :=
    fun r hr => ha.urgent r (hs.mem_queue hr)
  obtain ⟨⟨hread, hreadX, hinvalidate⟩, hanswered, hunshared, _⟩ := ha
  cases hs <;> exact ⟨⟨hread, hreadX, hinvalidate⟩, hanswered, hunshared, hurgent⟩

end Controller

/-! ## Runs -/

variable {ps : Params} {h : List TickRecord} {s mid s' : System} {req : Option BusRequest}
  {keys : Finset Nat} {a : Nat} {c c' : Controller}

/-- What a node whose lines are private may put on the bus. -/
def BusRequest.Private (ps : Params) (r : BusRequest) : Prop := r.commandCode = .busRead
  ∨ r.commandCode = .busReadX ∨ r.commandCode = .invalidate ∧ ps.controllerType = .msi

/-- The controller at `a` has answered nobody. -/
structure OnlyReads (ps : Params) (a : Nat) (h : List TickRecord) (c : Controller) : Prop where
  alone : c.Alone
  controllerType : c.controllerType = ps.controllerType
  sent : ∀ rec ∈ h, ∀ r, rec.sent = some r → r.sourceAddress = a → r.Private ps

theorem Processor.Turn.alone {p p' : Processor} {o : Option Instruction} (ht : p.Turn c o p')
    (ha : c.Alone) : p'.cacheController.Alone := by
  cases ht with
  | rests | waits => exact ha
  | handsOver =>
      obtain ⟨⟨hread, hreadX, hinvalidate⟩, hanswered, hunshared, hurgent⟩ := ha
      exact ⟨⟨hread, hreadX, hinvalidate⟩, hanswered, hunshared, hurgent⟩

/-- Preserved by the bus. -/
theorem Passed.alone (hp : Passed ps a c req c') (hr : a ≤ ps.numProcessors) (hi : c.Inv)
    (hk : c.Keeps (Allotted keys a a)) (ha : c.Alone) (ht : c.controllerType = ps.controllerType)
    (helse : ∀ r, req = some r → r.sourceAddress ≠ a → r.Elsewhere keys) :
    c'.Alone ∧ c'.controllerType = ps.controllerType
      ∧ ∀ r, req = some r → r.sourceAddress = a → r.Private ps := by
  cases hp with
  | quiet => exact ⟨ha.frame, ht, fun r h0 => by cases h0⟩
  | @sent r _ _ _ hs =>
      have ha : c.polled.Alone := ha.frame
      refine ⟨ha.sent hs, hs.sameNode.controllerType.trans ht, fun r' h0 _ => ?_⟩
      cases h0
      rw [BusRequest.Private, ← ht]
      exact ha.sends hs
  | @received r _ hne _ hs =>
      refine ⟨ha.heard (hs.heard hi hk (helse r rfl hne)), hs.sameNode.controllerType.trans ht,
        fun r' h0 hsrc => ?_⟩
      cases h0
      exact absurd hsrc hne
  | missed hsrc =>
      refine ⟨ha, ht, fun r' h0 hsrc' => ?_⟩
      cases h0
      omega

/-- **Preserved by a cycle.** -/
theorem OnlyReads.cycle {p p₁ : Processor} {c₂ : Controller}
    (hc : PrivateCycle ps keys a s mid req s' p p₁ c₂) (ho : OnlyReads ps a h p.cacheController) :
    OnlyReads ps a (⟨s, req, s'⟩ :: h) c₂ := by
  obtain ⟨c₁, hc₁, hs, hturn⟩ := hc.cycle.inv.turn hc.cycle.tick
  have hcontrollerType : p₁.cacheController.controllerType = ps.controllerType := by
    have hsame : p₁.cacheController.controllerType = c₁.controllerType := by
      generalize p.handsOver = o at hturn
      cases hturn <;> rfl
    rw [hsame, hs.sameNode.controllerType, ho.controllerType]
  have halone₁ := ho.alone.transitioned hc.cycle.inv.controller hc₁ hs
  have halone : p₁.cacheController.Alone := hturn.alone halone₁.frame
  obtain ⟨halone', htype', hsent⟩ :=
    hc.cycle.passed.alone hc.range.2 hc.inv hc.kept halone hcontrollerType hc.elsewhere
  refine ⟨halone', htype', fun rec hrec r h0 hsrc => ?_⟩
  rcases List.mem_cons.mp hrec with rfl | hrec
  · exact hsent r h0 hsrc
  · exact ho.sent rec hrec r h0 hsrc

theorem onlyReads_new :
    OnlyReads ps a [] ((Controller.new ps.controllerType ps.burstLength).setAddress a) :=
  ⟨⟨⟨rfl, rfl, rfl⟩, fun hm => (by rcases hm with hm | hm <;> cases hm),
    fun _ k h0 => (by cases (Cache.stateAt_new k).symm.trans h0),
    fun r hr => (by cases hr)⟩, rfl, fun rec hrec => (by cases hrec)⟩

/-- Requests that are all reads, counted. -/
theorem timesSent_of_reads (hreads : ∀ rec ∈ h, ∀ r, rec.sent = some r → r.sourceAddress = a →
      r.commandCode = .busRead ∨ r.commandCode = .busReadX) :
    timesSent (fun r => r.sourceAddress = a) h
      = timesSent (·.IsFrom a .busRead) h + timesSent (·.IsFrom a .busReadX) h := by
  induction h with
  | nil => rfl
  | cons rec older ih =>
      obtain ⟨s, req, s'⟩ := rec
      rw [timesSent_cons, timesSent_isFrom_cons, timesSent_isFrom_cons,
        ih fun rec hrec => hreads rec (List.mem_cons_of_mem _ hrec)]
      have hone : (req.any fun r => decide (r.sourceAddress = a)).toNat
          = (req.any fun r => decide (r.IsFrom a .busRead)).toNat
            + (req.any fun r => decide (r.IsFrom a .busReadX)).toNat := by
        cases req with
        | none => rfl
        | some r =>
            by_cases hsrc : r.sourceAddress = a
            · rcases hreads _ List.mem_cons_self r rfl hsrc with h0 | h0 <;>
                simp [BusRequest.IsFrom, hsrc, h0]
            · simp [BusRequest.IsFrom, hsrc]
      omega

/-- The ordinary queue is the read of a miss, or empty. -/
theorem Controller.Inv.length_busReqQueue (h : c.Inv) : c.busReqQueue.length ≤ 1
    ∧ c.busReqQueue.length = c.queuedReads .busRead + c.queuedReads .busReadX := by
  have hone : c.busReqQueue = [] ∨ c.busReqQueue = [c.missRequest] := by
    by_cases hm : c.Missing
    · cases (h.miss hm).stage with
      | queued _ _ hq => exact Or.inr hq
      | out _ _ hq => exact Or.inl hq
      | answered _ _ hq => exact Or.inl hq
    · exact Or.inl (h.rest hm).busReqQueue
  rcases hone with hq | hq
  · simp [Controller.queuedReads, hq]
  · rcases c.missCommand_cases with h0 | ⟨h0, _⟩ <;>
      simp [Controller.queuedReads, hq, Controller.missRequest, h0]

/-- **Private lines cost their misses.** Let no line of the instructions given to the processor at
this address be in an instruction given to another processor. Then all that it puts on the bus are
reads, and in MSI `INVALIDATE`s; in MESI it holds no line `SHARED`. But for MSI, its requests on the
bus are as many as its misses, but for one that may be about to go out. -/
theorem private_lines_cost_their_misses (ps : Params) (events : List Event) (h : List TickRecord)
    (s : System) (hrun : System.run ps events = .ok (h, s)) (a : Nat)
    (hprivate : ∀ i n, Event.insertInstruction i n ∈ events → Processor.isMemoryOp i = true →
      n + 1 ≠ a → i.key ∉ linesOf (givenTo a events)) :
    ∀ c, controllerAt s.interconnect a = some c →
      (∀ rec ∈ h, ∀ r, rec.sent = some r → r.sourceAddress = a → r.commandCode = .busRead
        ∨ r.commandCode = .busReadX ∨ r.commandCode = .invalidate ∧ ps.controllerType = .msi)
      ∧ (ps.controllerType = .mesi → ∀ adx, c.cache.get adx ≠ some .shared)
      ∧ (ps.controllerType ≠ .msi → timesSent (fun r => r.sourceAddress = a) h
          + c.busReqQueue.length = c.loadMisses + c.storeMisses ∧ c.busReqQueue.length ≤ 1) := by
  have honly := System.run_private_induct (P := OnlyReads ps a) onlyReads_new
    (fun _ _ _ _ _ _ _ _ hc ho => ho.cycle hc) (assigns_of_private hprivate) hrun
  intro c hc
  obtain ⟨halone, htype, hsent⟩ := honly c hc
  refine ⟨hsent, fun ht adx => halone.unshared (htype.trans ht) _, fun hmsi => ?_⟩
  have hreads : ∀ rec ∈ h, ∀ r, rec.sent = some r → r.sourceAddress = a →
      r.commandCode = .busRead ∨ r.commandCode = .busReadX := by
    intro rec hrec r h0 hsrc
    rcases hsent rec hrec r h0 hsrc with h1 | h1 | h1
    · exact Or.inl h1
    · exact Or.inr h1
    · exact absurd h1.2 hmsi
  have hrun := Run.of_system_run hrun
  obtain ⟨hone, hlength⟩ := (hrun.ok.valid.controller hc).inv.length_busReqQueue
  have hcharged := hrun.charged a c hc
  have hread := hcharged.reads .busRead (Or.inl rfl)
  have hreadX := hcharged.reads .busReadX (Or.inr rfl)
  -- every miss is served by one of the two commands
  have hmisses : c.missesOf .busRead + c.missesOf .busReadX = c.loadMisses + c.storeMisses := by
    rw [Controller.missesOf, Controller.missesOf]
    cases c.controllerType <;> simp [ControllerType.loadCommand]
  rw [timesSent_of_reads hreads]
  omega

/-- A load and a store of one line, while another processor stores to another line. -/
def loadThenStore : List Event :=
  [.insert .load 64 0, .insert .store 72 0, .insert .store 96 1] ++ List.replicate 40 .tick

theorem private_lines_cost_their_misses_load_store : ∃ h s c,
    System.run ⟨2, .mesi, 1, 2⟩ loadThenStore = .ok (h, s)
      ∧ controllerAt s.interconnect 1 = some c ∧ c.loadMisses + c.storeMisses = 1
      ∧ timesSent (fun r => r.sourceAddress = 1) h + c.busReqQueue.length = 1 := by
  obtain ⟨h, s, hrun, hp⟩ := System.exists_run ⟨2, .mesi, 1, 2⟩ loadThenStore
    (fun _ s => (controllerAt s.interconnect 1).any fun c => c.loadMisses + c.storeMisses = 1)
    (by decide +kernel)
  obtain ⟨c, hc, hmisses⟩ := (Option.any_eq_true _ _).mp hp
  have hmisses : c.loadMisses + c.storeMisses = 1 := of_decide_eq_true hmisses
  have hprivate (i : Instruction) (n : Nat) (hmem : Event.insertInstruction i n ∈ loadThenStore)
      (_ : Processor.isMemoryOp i = true) (hn : n + 1 ≠ 1) :
      i.key ∉ linesOf (givenTo 1 loadThenStore) := by
    simp [loadThenStore, Event.insert] at hmem
    obtain ⟨_, rfl⟩ | ⟨_, rfl⟩ | ⟨rfl, _⟩ := hmem
    · exact absurd rfl hn
    · exact absurd rfl hn
    · decide +kernel
  have hcost := (private_lines_cost_their_misses _ _ h s hrun 1 hprivate c hc).2.2 (by simp)
  exact ⟨h, s, c, hrun, hc, hmisses, hcost.1.trans hmisses⟩

end CoherenceSim
