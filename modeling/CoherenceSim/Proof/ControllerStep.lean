import CoherenceSim.Proof.ControllerTick

/-!
# A tick keeps the controller's invariant
-/

namespace CoherenceSim

namespace Controller

variable {c c' : Controller}

theorem not_missing_of {s : ControllerState} (hs : c.currentState = s)
    (h : s ≠ .issueReadState := by simp) (h' : s ≠ .issueReadXState := by simp) : ¬ c.Missing := by
  rintro (hm | hm)
  · exact h (hs ▸ hm)
  · exact h' (hs ▸ hm)

/-- Only the geometry of the cache matters to a line's address. -/
theorem Instructs.of_cache {opcode : Opcode} {adx : Nat} (h : c.Instructs opcode adx)
    (ok : c.cache.Ok) (ok' : c'.cache.Ok) (hi : c'.currentInstruction = c.currentInstruction) :
    c'.Instructs opcode adx := by
  obtain ⟨i, h0, hop, hadx⟩ := h
  refine ⟨i, hi.trans h0, hop, ?_⟩
  rw [ok'.getLineAlignedAddress i.isLt, ← ok.getLineAlignedAddress i.isLt, hadx]


/-- The parts of the invariant that a step through the cache has to establish. -/
theorem Inv.allows_of_put (h : c.Inv) {adx : Nat} {v : Option MESI} {k : Cache}
    (hput : c.cache.Put adx v k) (hv : ∀ m, v = some m → c.controllerType.Allows m) :
    ∀ key m, k.stateAt key = some m → c.controllerType.Allows m := by
  intro key m hm
  rw [hput.stateAt] at hm
  split at hm
  · exact hv m hm
  · exact h.allows key m hm

theorem Inv.allows_of_filled (h : c.Inv) {adx : Nat} {m : MESI} {k : Cache}
    (hfill : c.cache.Filled adx m k) (hv : c.controllerType.Allows m) :
    ∀ key m, k.stateAt key = some m → c.controllerType.Allows m := by
  intro key m' hm
  by_cases hkey : key = lineKey adx
  · rw [hkey] at hm
    have := hfill.get.symm.trans hm
    cases this; exact hv
  · rcases hfill.others key hkey with h0 | h0
    · exact h.allows key m' (h0 ▸ hm)
    · rw [h0] at hm; cases hm

/-- A request that the controller builds for an aligned address. -/
theorem Inv.urgent_cons (h : c.Inv) {code : CommandCode} {adx : Nat} (ha : Aligned adx)
    (hcode : c.controllerType.Urgent code) :
    ∀ r ∈ c.makeRequest code adx :: c.maxPriorityQueue,
      UrgentRequest c.controllerType c.nodeAddress r := by
  intro r hr
  rcases List.mem_cons.mp hr with rfl | hr
  · refine ⟨hcode, rfl, rfl, ?_⟩
    show Aligned (c.cache.getLineAlignedAddress adx)
    rw [h.cache.getLineAlignedAddress_of_aligned ha]; exact ha
  · exact h.urgent r hr

theorem Inv.miss_instructs (h : c.Inv) {s : ControllerState} {opcode : Opcode}
    (hs : c.currentState = s) (hm : c.Missing) (hop : ∀ o, s.Serves o → o = opcode) :
    c.Instructs opcode c.awaitingDataLocalAddress := by
  obtain ⟨_, i, hi, rfl, hadx⟩ := (h.miss hm).line
  have hne : c.currentState ≠ .idleState := by rcases hm with hm | hm <;> rw [hm] <;> simp
  obtain ⟨i', hi', hserve⟩ := h.serves (h.busy hne)
  rw [hi] at hi'; cases hi'
  rw [hs] at hserve
  exact ⟨i, hi, hop _ hserve, hadx⟩

theorem MissStage.busReqQueue_of (h : c.MissStage) (hw : c.awaitingDataLocal = false) :
    c.busReqQueue = [] ∧ c.Unburdened := by
  cases h with
  | queued h => rw [hw] at h; cases h
  | out h => rw [hw] at h; cases h
  | answered _ _ hq _ hu => exact ⟨hq, hu⟩

/-- At the end of a miss the controller is at rest. -/
theorem Inv.atRest_of_answered (h : c.Inv) (hm : c.Missing) (hw : c.awaitingDataLocal = false) :
    c.AtRest :=
  ⟨hw, ((h.miss hm).stage.answered_of hw).1, ((h.miss hm).stage.busReqQueue_of hw).1⟩

/-- A step to a state in which the controller is at rest, but not idle. -/
theorem Inv.finish (h : c.Inv) (hr : c.AtRest) (hp : c.pendingInstructionFlag = true)
    {s : ControllerState} {opcode : Opcode} {adx : Nat} (hi : c.Instructs opcode adx)
    (hserve : s.Serves opcode)
    (hs : s ≠ .idleState ∧ s ≠ .issueReadState ∧ s ≠ .issueReadXState)
    (hmi : c.controllerType = .mi → s ≠ .issueInvalidateState ∧ s ≠ .invalidateWait)
    {k : Cache} (hk : k.Ok) (hal : ∀ key m, k.stateAt key = some m → c.controllerType.Allows m)
    {q : List BusRequest} (hq : ∀ r ∈ q, UrgentRequest c.controllerType c.nodeAddress r)
    {n₁ n₂ n₃ n₄ : Nat} {f : Bool} {w : CommandCode} :
    Inv { c with
      loadHits := n₁
      loadMisses := n₂
      storeHits := n₃
      storeMisses := n₄
      cache := k
      outgoingCommandWaitFlag := f
      outgoingCommandWaitCode := w
      maxPriorityQueue := q
      currentState := s } where
  cache := hk
  allows := hal
  urgent := hq
  busy _ := hp
  serves _ := by
    obtain ⟨i, hi, rfl, _⟩ := hi
    exact ⟨i, hi, hserve⟩
  dispatched := h.dispatched
  idle h0 := absurd h0 hs.1
  rest _ := ⟨hr.awaitingDataLocal, hr.awaitingBusRead, hr.busReqQueue⟩
  miss h0 := (h0.elim hs.2.1 hs.2.2).elim
  mi h0 := ⟨(h.mi h0).1, (h.mi h0).2.1, hmi h0⟩

/-- A step to a state in which the controller waits for its line. -/
theorem Inv.start (h : c.Inv) (hr : c.AtRest) (hclear : ¬ c.GotData)
    (hp : c.pendingInstructionFlag = true) {s : ControllerState} {opcode : Opcode} {adx : Nat}
    (hi : c.Instructs opcode adx) (hserve : s.Serves opcode)
    (hs : s = .issueReadState ∨ s = .issueReadXState) (hnew : c.cache.get adx = none)
    {code : CommandCode}
    (hcode : code = if s = .issueReadXState then .busReadX else c.controllerType.loadCommand)
    {n₁ n₂ : Nat} :
    Inv { c.queueBusCommand code adx with
      loadMisses := n₁
      storeMisses := n₂
      currentState := s
      queuedBusRead := true
      awaitingDataLocal := true
      awaitingDataLocalAddress := adx } where
  cache := h.cache
  allows := h.allows
  urgent := h.urgent
  busy _ := hp
  serves _ := by
    obtain ⟨i, hi, rfl, _⟩ := hi
    exact ⟨i, hi, hserve⟩
  dispatched := h.dispatched
  idle h0 := by rcases hs with rfl | rfl <;> cases h0
  rest h0 := absurd hs h0
  miss _ := by
    refine ⟨⟨opcode, hi⟩, hnew, rfl, .queued rfl hr.awaitingBusRead ?_ hclear⟩
    show c.makeRequest code adx :: c.busReqQueue = [_]
    rw [hr.busReqQueue, makeRequest, h.cache.getLineAlignedAddress_of_aligned (hi.aligned h.cache),
      hcode]
    rfl
  mi h0 := ⟨(h.mi h0).1, (h.mi h0).2.1, by rcases hs with rfl | rfl <;> simp⟩

/-- **Preserved by `transitionState`.** -/
theorem Transitioned.inv (hs : Transitioned c c') (h : c.Inv) : c'.Inv := by
  cases hs with
  | rest hs hp =>
      have hr := h.rest (not_missing_of hs)
      exact
        { cache := h.cache
          allows := h.allows
          urgent := h.urgent
          busy := fun hne => absurd hs hne
          serves := fun hp => (by cases hp)
          dispatched := h.dispatched
          idle := fun _ => ⟨by simp [GotData, idleAction], rfl, rfl, rfl, rfl⟩
          rest := fun _ => ⟨hr.awaitingDataLocal, rfl, hr.busReqQueue⟩
          miss := fun hm => absurd hm (not_missing_of hs)
          mi := fun hmi => ⟨rfl, rfl, (h.mi hmi).2.2⟩ }
  | retire hs =>
      have hr : c.AtRest := h.rest (by rcases hs with hs | hs | hs <;> exact not_missing_of hs)
      exact
        { cache := h.cache
          allows := h.allows
          urgent := h.urgent
          busy := fun hne => absurd rfl hne
          serves := fun hp => (by cases hp)
          dispatched := h.dispatched
          idle := fun _ => ⟨by simp [GotData, idleAction], rfl, rfl, rfl, rfl⟩
          rest := fun _ => ⟨hr.awaitingDataLocal, rfl, hr.busReqQueue⟩
          miss := fun hm => absurd hm (not_missing_of (s := .idleState) rfl)
          mi := fun _ => ⟨rfl, rfl, by simp [idleAction], by simp [idleAction]⟩ }
  | wait => exact h
  | invalidateQueued hs =>
      have hrest := h.rest (not_missing_of hs)
      have hp := h.busy (by rw [hs]; simp)
      obtain ⟨i, hi, hop⟩ := h.serves hp
      rw [hs] at hop
      exact h.finish (s := .invalidateWait) hrest hp ⟨i, hi, hop, rfl⟩ rfl (by simp)
        (fun hmi => absurd hs (h.mi hmi).2.2.1) h.cache h.allows h.urgent
  | loadHit hs hp hi hm hput =>
      have hrest := h.rest (not_missing_of hs)
      exact h.finish (s := .updateCacheLdState) hrest hp hi rfl (by simp) (by simp) hput.ok
        (h.allows_of_put hput fun _ h0 => h.allows _ _ (hm.trans h0)) h.urgent
  | loadMiss hs hp hi hm =>
      have hrest := h.rest (not_missing_of hs)
      exact h.start (s := .issueReadState) hrest (h.idle hs).noData hp hi rfl (Or.inl rfl) hm rfl
  | storeHit hs hp hi hm hown hput =>
      have hrest := h.rest (not_missing_of hs)
      exact h.finish (s := .updateCacheStState) hrest hp hi rfl (by simp) (by simp) hput.ok
        (h.allows_of_put hput fun _ h0 => by cases h0; exact ControllerType.allows_modified _)
        h.urgent
  | storeShared hs hp hi hm hmi =>
      have hrest := h.rest (not_missing_of hs)
      -- an invalidate is urgent for any controller but an MI one, which has no shared line
      exact h.finish (s := .issueInvalidateState) hrest hp hi rfl (by simp)
        (fun h0 => absurd h0 hmi) h.cache h.allows (h.urgent_cons (hi.aligned h.cache)
          (ControllerType.urgent_of_ne_mi hmi (Or.inr (Or.inl rfl))))
  | storeMiss hs hp hi hm =>
      have hrest := h.rest (not_missing_of hs)
      exact h.start (s := .issueReadXState) hrest (h.idle hs).noData hp hi rfl (Or.inr rfl) hm rfl
  | loadDropped hs hw hsaw =>
      have hrest := h.atRest_of_answered (Or.inl hs) hw
      have hp := h.busy (by rw [hs]; simp)
      have hi := h.miss_instructs hs (Or.inl hs) fun _ h0 => h0
      exact h.finish (s := .updateCacheLdState) hrest hp hi rfl (by simp) (by simp) h.cache
        h.allows h.urgent
  | loadFilled hs hw hx hv hal hmod hexc hfill =>
      have hrest := h.atRest_of_answered (Or.inl hs) hw
      have hp := h.busy (by rw [hs]; simp)
      have hi := h.miss_instructs hs (Or.inl hs) fun _ h0 => h0
      exact h.finish (s := .updateCacheLdState) hrest hp hi rfl (by simp) (by simp) hfill.ok
        (h.allows_of_filled hfill hal) h.urgent
  | storeDropped hs hw hsaw =>
      have hrest := h.atRest_of_answered (Or.inr hs) hw
      have hp := h.busy (by rw [hs]; simp)
      have hi := h.miss_instructs hs (Or.inr hs) fun _ h0 => h0
      -- the line that is dropped is written back at once
      exact h.finish (s := .updateCacheStState) hrest hp hi rfl (by simp) (by simp) h.cache
        h.allows (h.urgent_cons (hi.aligned h.cache) (ControllerType.urgent_busWrite _))
  | storeFilled hs hw hr hx hv hfill =>
      have hrest := h.atRest_of_answered (Or.inr hs) hw
      have hp := h.busy (by rw [hs]; simp)
      have hi := h.miss_instructs hs (Or.inr hs) fun _ h0 => h0
      exact h.finish (s := .updateCacheStState) hrest hp hi rfl (by simp) (by simp) hfill.ok
        (h.allows_of_filled hfill (ControllerType.allows_modified _)) h.urgent

end Controller

end CoherenceSim
