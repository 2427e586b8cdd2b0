import CoherenceSim.Proof.ControllerInv

/-!
# What a controller does in a tick

`transitionState` is a step of a nine-state machine that sometimes takes two steps at
once, with fallible cache operations all along. `Transitioned` lists what can come out of
it, as so many explicit successors; the first theorem of the module says that one of them
does, without a fault, from every state that satisfies the invariant.
-/

namespace CoherenceSim

/-- `c'` is `c` with the line of this address brought in, at the cost of perhaps another. -/
structure Cache.Filled (c : Cache) (adx : Nat) (m : MESI) (c' : Cache) : Prop where
  ok : c'.Ok
  get : c'.get adx = some m
  others : ∀ k, k ≠ lineKey adx → c'.stateAt k = c.stateAt k ∨ c'.stateAt k = none

namespace Controller

variable {c : Controller}

/-! ## Making room -/

/-- **The evicted line is never seen modified**: all that `makeRoom` changes is the cache. -/
theorem makeRoom_spec (ok : c.cache.Ok) (adx : Nat) :
    ∃ k, c.makeRoom adx = .ok { c with cache := k } ∧ k.Ok ∧ k.isFull adx = .ok false
      ∧ ∀ key, k.stateAt key = c.cache.stateAt key ∨ k.stateAt key = none := by
  obtain ⟨full, hfull⟩ := ok.isFull adx
  cases full with
  | false => exact ⟨c.cache, by simp [makeRoom, hfull], ok, hfull, fun _ => Or.inl rfl⟩
  | true =>
      obtain ⟨line, k, k₀, m, hev, hok, _, _, _, hmesi, hroom, hst⟩ := ok.evictLineInSet hfull
      refine ⟨k, ?_, hok, hroom, fun key => ?_⟩
      · simp [makeRoom, hfull, hev, CacheLine.isModified, hmesi]
      · rw [hst key]
        split
        · exact Or.inr rfl
        · exact Or.inl rfl

/-- The operations by which an update action brings a line in. -/
theorem fill_spec (ok : c.cache.Ok) {adx : Nat} (hnew : c.cache.get adx = none) {m : MESI}
    {setState : Cache → Nat → Outcome Cache}
    (hset : ∀ (k : Cache) (m₀ : MESI), k.Ok → k.get adx = some m₀ →
      ∃ k', setState k adx = .ok k' ∧ k.Put adx (some m) k') :
    ∃ k₀ k₁ k₂ k₃, c.makeRoom adx = .ok { c with cache := k₀ } ∧ k₀.insertLine adx = .ok k₁
      ∧ setState k₁ adx = .ok k₂ ∧ k₂.Ok ∧ k₂.get adx = some m ∧ k₂.updateLRU adx = .ok k₃
      ∧ c.cache.Filled adx m k₃ := by
  obtain ⟨k₀, hroom, ok₀, hfree, hst₀⟩ := makeRoom_spec ok adx
  have hnew₀ : k₀.get adx = none := by
    rcases hst₀ (lineKey adx) with h | h
    · rw [Cache.get, h, ← Cache.get, hnew]
    · exact h
  obtain ⟨k₁, hins, hp₁⟩ := ok₀.insertLine hfree hnew₀
  obtain ⟨k₂, hset₂, hp₂⟩ := hset k₁ _ hp₁.ok hp₁.get_self
  obtain ⟨k₃, hlru, hp₃⟩ := hp₂.ok.updateLRU hp₂.get_self
  refine ⟨k₀, k₁, k₂, k₃, hroom, hins, hset₂, hp₂.ok, hp₂.get_self, hlru, hp₃.ok, hp₃.get_self,
    fun key hkey => ?_⟩
  rw [hp₃.stateAt, if_neg hkey, hp₂.stateAt, if_neg hkey, hp₁.stateAt, if_neg hkey]
  exact hst₀ key

/-! ## The steps -/

/-- What `transitionState` can make of a controller. -/
inductive Transitioned (c : Controller) : Controller → Prop
  | rest : c.currentState = .idleState → c.pendingInstructionFlag = false →
      Transitioned c c.idleAction
  | retire : c.currentState = .updateCacheLdState ∨ c.currentState = .updateCacheStState
        ∨ c.currentState = .invalidateWait →
      Transitioned c { c with currentState := .idleState }.idleAction
  | wait : c.Missing → c.awaitingDataLocal = true → Transitioned c c
  | invalidateQueued : c.currentState = .issueInvalidateState →
      Transitioned c { c with currentState := .invalidateWait }
  | loadHit {adx : Nat} {m : MESI} {k : Cache} : c.currentState = .idleState →
      c.pendingInstructionFlag = true → c.Instructs .load adx → c.cache.get adx = some m →
      c.cache.Put adx (some m) k →
      Transitioned c
        { c with loadHits := c.loadHits + 1, currentState := .updateCacheLdState, cache := k }
  | loadMiss {adx : Nat} : c.currentState = .idleState →
      c.pendingInstructionFlag = true → c.Instructs .load adx → c.cache.get adx = none →
      Transitioned c
        { c.queueBusCommand c.controllerType.loadCommand adx with
          loadMisses := c.loadMisses + 1
          currentState := .issueReadState
          queuedBusRead := true
          awaitingDataLocal := true
          awaitingDataLocalAddress := adx }
  | storeHit {adx : Nat} {m : MESI} {k : Cache} : c.currentState = .idleState →
      c.pendingInstructionFlag = true → c.Instructs .store adx → c.cache.get adx = some m →
      m = .modified ∨ m = .exclusive → c.cache.Put adx (some .modified) k →
      Transitioned c
        { c with storeHits := c.storeHits + 1, currentState := .updateCacheStState, cache := k }
  | storeShared {adx : Nat} : c.currentState = .idleState →
      c.pendingInstructionFlag = true → c.Instructs .store adx →
      c.cache.get adx = some .shared → c.controllerType ≠ .mi →
      Transitioned c
        { c.queueMaxPriorityBusCommand .invalidate adx with
          storeHits := c.storeHits + 1
          currentState := .issueInvalidateState
          outgoingCommandWaitFlag := true
          outgoingCommandWaitCode := .invalidate }
  | storeMiss {adx : Nat} : c.currentState = .idleState →
      c.pendingInstructionFlag = true → c.Instructs .store adx → c.cache.get adx = none →
      Transitioned c
        { c.queueBusCommand .busReadX adx with
          storeMisses := c.storeMisses + 1
          currentState := .issueReadXState
          queuedBusRead := true
          awaitingDataLocal := true
          awaitingDataLocalAddress := adx }
  | loadDropped : c.currentState = .issueReadState → c.awaitingDataLocal = false →
      c.sawBusReadXToMyIncomingAddress = true ∨ c.sawInvalidateToMyIncomingAddress = true →
      Transitioned c { c with currentState := .updateCacheLdState }
  | loadFilled {m : MESI} {k : Cache} : c.currentState = .issueReadState →
      c.awaitingDataLocal = false → c.sawBusReadXToMyIncomingAddress = false →
      c.sawInvalidateToMyIncomingAddress = false → c.controllerType.Allows m →
      (m = .modified → c.controllerType = .mi) →
      (m = .exclusive → c.sawBusReadToMyIncomingAddress = false
        ∧ c.gotDataReturnFromBusReadMemory = true) →
      c.cache.Filled c.awaitingDataLocalAddress m k →
      Transitioned c { c with currentState := .updateCacheLdState, cache := k }
  | storeDropped : c.currentState = .issueReadXState → c.awaitingDataLocal = false →
      c.sawBusReadToMyIncomingAddress = true ∨ c.sawBusReadXToMyIncomingAddress = true
        ∨ c.sawInvalidateToMyIncomingAddress = true →
      Transitioned c
        { c.queueMaxPriorityBusCommand .busWrite c.awaitingDataLocalAddress with
          currentState := .updateCacheStState }
  | storeFilled {k : Cache} : c.currentState = .issueReadXState → c.awaitingDataLocal = false →
      c.sawBusReadToMyIncomingAddress = false → c.sawBusReadXToMyIncomingAddress = false →
      c.sawInvalidateToMyIncomingAddress = false →
      c.cache.Filled c.awaitingDataLocalAddress .modified k →
      Transitioned c { c with currentState := .updateCacheStState, cache := k }

/-- What a step queues with maximum priority: nothing, an `INVALIDATE` or a `BUSWRITE`. -/
theorem Transitioned.queue {c' : Controller} (hs : Transitioned c c') :
    c'.maxPriorityQueue = c.maxPriorityQueue
      ∨ ∃ code adx, (code = .invalidate ∨ code = .busWrite)
        ∧ c'.maxPriorityQueue = c.makeRequest code adx :: c.maxPriorityQueue := by
  cases hs with
  | storeShared => exact Or.inr ⟨.invalidate, _, Or.inl rfl, rfl⟩
  | storeDropped => exact Or.inr ⟨.busWrite, _, Or.inr rfl, rfl⟩
  | rest | retire | wait | invalidateQueued | loadHit | loadMiss | storeHit | storeMiss
  | loadDropped | loadFilled | storeFilled => exact Or.inl rfl

/-! ## Single methods -/

theorem Instructs.instructionLine {opcode : Opcode} {adx : Nat} (h : c.Instructs opcode adx) :
    c.instructionLine = .ok adx := by
  obtain ⟨i, hi, _, rfl⟩ := h
  simp [Controller.instructionLine, instructionAddress, hi]

theorem Instructs.idleTransition_load {adx : Nat} (h : c.Instructs .load adx)
    (hp : c.pendingInstructionFlag = true) : c.idleTransition = .ok .checkCacheLdState := by
  obtain ⟨i, hi, hop, _⟩ := h
  simp [Controller.idleTransition, hasPendingInstruction, hp, hi, hop]

theorem Instructs.idleTransition_store {adx : Nat} (h : c.Instructs .store adx)
    (hp : c.pendingInstructionFlag = true) : c.idleTransition = .ok .checkCacheStState := by
  obtain ⟨i, hi, hop, _⟩ := h
  simp [Controller.idleTransition, hasPendingInstruction, hp, hi, hop]

/-- The lookup of the current instruction, whose address need not be aligned. -/
theorem Instructs.lookup (ok : c.cache.Ok) {opcode : Opcode} {adx : Nat}
    (h : c.Instructs opcode adx) :
    ∃ a, c.instructionAddress = .ok a ∧ c.cache.get a = c.cache.get adx := by
  obtain ⟨i, hi, _, rfl⟩ := h
  exact ⟨i.address, by simp [instructionAddress, hi], (ok.get_getLineAlignedAddress i.isLt).symm⟩

theorem Instructs.aligned (ok : c.cache.Ok) {opcode : Opcode} {adx : Nat}
    (h : c.Instructs opcode adx) : Aligned adx := by
  obtain ⟨i, _, _, rfl⟩ := h
  exact ok.aligned_getLineAlignedAddress i.isLt

theorem checkCacheLoadTransition_eq (ok : c.cache.Ok) {adx : Nat} (h : c.Instructs .load adx) :
    c.checkCacheLoadTransition = .ok (if (c.cache.get adx).isSome then
      (.updateCacheLdState, { c with loadHits := c.loadHits + 1 }) else
      (.issueReadState, { c with loadMisses := c.loadMisses + 1 })) := by
  obtain ⟨a, ha, hget⟩ := h.lookup ok
  cases hm : c.cache.get adx <;> simp [checkCacheLoadTransition, ha, ok.contains, hget, hm]

theorem queueReadOnce_eq {command : CommandCode} {adx : Nat} (hq : c.queuedBusRead = false)
    (hl : c.instructionLine = .ok adx) :
    c.queueReadOnce command = .ok { c.queueBusCommand command adx with
      queuedBusRead := true, awaitingDataLocal := true, awaitingDataLocalAddress := adx } := by
  simp [queueReadOnce, hq, hl]

theorem queueReadOnce_wait {command : CommandCode} (hq : c.queuedBusRead = true) :
    c.queueReadOnce command = .ok c := by
  simp [queueReadOnce, hq]

theorem updateLRU_eq {adx : Nat} {k : Cache} (h : c.cache.updateLRU adx = .ok k) :
    c.updateLRU adx = .ok { c with cache := k } := by
  simp [Controller.updateLRU, h]

/-! ## `transitionState` -/

section Transition

variable {getNextState : Controller → Outcome (ControllerState × Controller)}
  {callActionFunction : (Controller → Outcome Controller) → Controller → Outcome Controller}

theorem transitionWith_eq {n : Nat} {s : ControllerState} {d : Controller}
    (h : getNextState c = .ok (s, d)) :
    transitionWith getNextState callActionFunction (n + 1) c
      = callActionFunction (transitionWith getNextState callActionFunction n)
          { d with currentState := s } := by
  simp [transitionWith, h]

/-- The step through a state whose action is to take the next step. -/
theorem transitionWith_through {n : Nat} {s s' : ControllerState} {d : Controller}
    (h : getNextState c = .ok (s, c))
    (hthrough : ∀ f, callActionFunction f { c with currentState := s } = f { c with currentState := s })
    (h' : getNextState { c with currentState := s } = .ok (s', d)) :
    transitionWith getNextState callActionFunction (n + 2) c
      = callActionFunction (transitionWith getNextState callActionFunction n)
          { d with currentState := s' } := by
  rw [transitionWith_eq h, hthrough, transitionWith_eq h']

end Transition

theorem enter_self {s : ControllerState} (hs : c.currentState = s) :
    { c with currentState := s } = c := by
  subst hs; rfl

/-! ## The MSI and MESI classes -/

section Sharing

open SharingController

variable {assertState : Bool → Bool → Bool → Bool} {setAlone : Cache → Nat → Outcome Cache}

/-- `transitionState` of a class with this assertion and this effect of memory's answer. -/
def sharingTransition (assertState : Bool → Bool → Bool → Bool)
    (setAlone : Cache → Nat → Outcome Cache) : Nat → Controller → Outcome Controller :=
  transitionWith
    (SharingController.getNextState (SharingController.checkCacheStoreTransition assertState))
    (SharingController.callActionFunction (SharingController.updateCacheLoadAction setAlone))

theorem sharing_load_hit (ok : c.cache.Ok) (hc : c.sawBusReadXToMyIncomingAddress = false)
    (hc' : c.sawInvalidateToMyIncomingAddress = false) {adx : Nat} {m : MESI} {k : Cache}
    (hl : c.instructionLine = .ok adx) (hm : c.cache.get adx = some m)
    (hk : c.cache.updateLRU adx = .ok k) :
    SharingController.updateCacheLoadAction setAlone c = .ok { c with cache := k } := by
  simp [SharingController.updateCacheLoadAction, hl, hc, hc', ok.contains, hm, updateLRU_eq hk]

theorem sharing_step {s : ControllerState}
    (h : getNextState (checkCacheStoreTransition assertState) c = .ok (s, c)) :
    sharingTransition assertState setAlone 2 c
      = callActionFunction (updateCacheLoadAction setAlone)
          (sharingTransition assertState setAlone 1) { c with currentState := s } :=
  transitionWith_eq h

theorem sharing_through {s s' : ControllerState} {d : Controller}
    (hs : s = .checkCacheLdState ∨ s = .checkCacheStState)
    (h : getNextState (checkCacheStoreTransition assertState) c = .ok (s, c))
    (h' : getNextState (checkCacheStoreTransition assertState) { c with currentState := s }
      = .ok (s', d)) :
    sharingTransition assertState setAlone 2 c
      = callActionFunction (updateCacheLoadAction setAlone)
          (sharingTransition assertState setAlone 0) { d with currentState := s' } := by
  rcases hs with rfl | rfl <;> exact transitionWith_through h (fun _ => rfl) h'

theorem sharing_load (h : c.Inv) (hmi : c.controllerType ≠ .mi) (hs : c.currentState = .idleState)
    (hp : c.pendingInstructionFlag = true) {adx : Nat} (hi : c.Instructs .load adx) :
    ∃ c', sharingTransition assertState setAlone 2 c = .ok c' ∧ Transitioned c c' := by
  have hclear := h.idle hs
  have hnext : getNextState (checkCacheStoreTransition assertState) c
      = .ok (.checkCacheLdState, c) := by
    simp [getNextState, hs, hi.idleTransition_load hp]
  have hcheck := checkCacheLoadTransition_eq (c := { c with currentState := .checkCacheLdState })
    h.cache hi
  cases hm : c.cache.get adx with
  | none =>
      have hcode : c.controllerType.loadCommand = .busRead := by
        cases ht : c.controllerType <;> simp_all [ControllerType.loadCommand]
      rw [if_neg (by simp [hm])] at hcheck
      refine ⟨_, (sharing_through (Or.inl rfl) hnext hcheck).trans ?_, .loadMiss hs hp hi hm⟩
      rw [hcode]
      exact queueReadOnce_eq hclear.queuedBusRead hi.instructionLine
  | some m =>
      rw [if_pos (by simp [hm])] at hcheck
      obtain ⟨k, hk, hput⟩ := h.cache.updateLRU hm
      refine ⟨_, (sharing_through (Or.inl rfl) hnext hcheck).trans ?_, .loadHit hs hp hi hm hput⟩
      apply sharing_load_hit
      exacts [h.cache, hclear.sawBusReadX, hclear.sawInvalidate, hi.instructionLine, hm, hk]

theorem issueInvalidateAction_eq {adx : Nat} (hl : c.instructionLine = .ok adx) :
    issueInvalidateAction c = .ok { c.queueMaxPriorityBusCommand .invalidate adx with
      outgoingCommandWaitFlag := true, outgoingCommandWaitCode := .invalidate } := by
  simp [issueInvalidateAction, hl]

theorem sharing_checkStore (ok : c.cache.Ok)
    (hassert : ∀ m, c.controllerType.Allows m →
      assertState (m = .exclusive) (m = .modified) (m = .shared) = true)
    (hallow : ∀ k m, c.cache.stateAt k = some m → c.controllerType.Allows m)
    {adx : Nat} (hi : c.Instructs .store adx) :
    checkCacheStoreTransition assertState c = .ok (match c.cache.get adx with
      | some .shared => (.issueInvalidateState, { c with storeHits := c.storeHits + 1 })
      | some _ => (.updateCacheStState, { c with storeHits := c.storeHits + 1 })
      | none => (.issueReadXState, { c with storeMisses := c.storeMisses + 1 })) := by
  obtain ⟨a, ha, hget⟩ := hi.lookup ok
  rw [← hget]; clear hget
  cases hm : c.cache.get a with
  | none => simp [checkCacheStoreTransition, ha, ok.contains, hm]
  | some m =>
      have hal := hallow _ _ hm
      have hst := hassert m hal
      have hinv := hal.ne_invalid
      simp only [checkCacheStoreTransition, ha, Outcome.ok_bind, ok.contains, hm, ok.isInvalid hm,
        ok.isExclusive hm, ok.isModified hm, ok.isShared hm, hst, Outcome.pure_eq_ok]
      cases m <;> simp_all

theorem sharing_store_hit (ok : c.cache.Ok) (hc : ¬ c.sawBusReadToMyIncomingAddress)
    (hc₁ : ¬ c.sawBusReadXToMyIncomingAddress) (hc₂ : ¬ c.sawInvalidateToMyIncomingAddress)
    {adx : Nat} {m : MESI} (hl : c.instructionLine = .ok adx) (hm : c.cache.get adx = some m) :
    ∃ k, updateCacheStoreAction c = .ok { c with cache := k }
      ∧ c.cache.Put adx (some .modified) k := by
  cases hmod : decide (m = .modified) with
  | true =>
      obtain ⟨k, hk, hput⟩ := ok.updateLRU hm
      refine ⟨k, ?_, (of_decide_eq_true hmod) ▸ hput⟩
      simp [updateCacheStoreAction, hl, hc, hc₁, hc₂, ok.contains, hm, ok.isModified hm, hmod,
        updateLRU_eq hk]
  | false =>
      obtain ⟨k, hk, hput⟩ := ok.setModified hm
      obtain ⟨k', hk', hput'⟩ := hput.ok.updateLRU hput.get_self
      refine ⟨k', ?_, hput'.ok, fun key => ?_⟩
      · simp [updateCacheStoreAction, hl, hc, hc₁, hc₂, ok.contains, hm, ok.isModified hm, hmod, hk,
          hput.ok.isModified hput.get_self, Controller.updateLRU, hk']
      · rw [hput'.stateAt, hput.stateAt]
        split <;> rfl

theorem sharing_store (h : c.Inv) (hmi : c.controllerType ≠ .mi)
    (hassert : ∀ m, c.controllerType.Allows m →
      assertState (m = .exclusive) (m = .modified) (m = .shared) = true)
    (hs : c.currentState = .idleState) (hp : c.pendingInstructionFlag = true) {adx : Nat}
    (hi : c.Instructs .store adx) :
    ∃ c', sharingTransition assertState setAlone 2 c = .ok c' ∧ Transitioned c c' := by
  have hclear := h.idle hs
  have hnext : getNextState (checkCacheStoreTransition assertState) c
      = .ok (.checkCacheStState, c) := by
    simp [getNextState, hs, hi.idleTransition_store hp]
  have hcheck := sharing_checkStore (c := { c with currentState := .checkCacheStState })
    h.cache hassert h.allows hi
  cases hm : c.cache.get adx with
  | none =>
      rw [show Cache.get _ adx = none from hm] at hcheck
      refine ⟨_, (sharing_through (Or.inr rfl) hnext hcheck).trans ?_, .storeMiss hs hp hi hm⟩
      exact queueReadOnce_eq hclear.queuedBusRead hi.instructionLine
  | some m =>
      -- a line that is owned is written without asking anybody
      have hit : m = .modified ∨ m = .exclusive → c.cache.get adx = some m →
          ∃ c', sharingTransition assertState setAlone 2 c = .ok c' ∧ Transitioned c c' := by
        intro hown hm
        have hcheck' : checkCacheStoreTransition assertState
            { c with currentState := .checkCacheStState } = .ok (.updateCacheStState,
              { c with currentState := .checkCacheStState, storeHits := c.storeHits + 1 }) := by
          rw [hcheck, show Cache.get _ adx = some m from hm]
          rcases hown with rfl | rfl <;> rfl
        obtain ⟨k, hk, hput⟩ := sharing_store_hit
          (c := { c with currentState := .updateCacheStState, storeHits := c.storeHits + 1 })
          h.cache (by simp [hclear.sawBusRead]) (by simp [hclear.sawBusReadX])
          (by simp [hclear.sawInvalidate]) hi.instructionLine hm
        exact ⟨_, (sharing_through (Or.inr rfl) hnext hcheck').trans hk, .storeHit hs hp hi hm hown hput⟩
      cases m with
      | modified => exact hit (Or.inl rfl) hm
      | exclusive => exact hit (Or.inr rfl) hm
      | invalid => exact absurd rfl (h.allows _ _ hm).ne_invalid
      | shared =>
          rw [show Cache.get _ adx = some .shared from hm] at hcheck
          refine ⟨_, (sharing_through (Or.inr rfl) hnext hcheck).trans ?_, .storeShared hs hp hi hm hmi⟩
          exact issueInvalidateAction_eq hi.instructionLine

/-! ### The end of a miss -/

theorem sharing_load_filled (ok : c.cache.Ok) {adx : Nat} (hl : c.instructionLine = .ok adx)
    (hnew : c.cache.get adx = none) (hc : ¬ c.sawBusReadXToMyIncomingAddress)
    (hc' : ¬ c.sawInvalidateToMyIncomingAddress) (hgot : c.GotData) {alone : MESI}
    (hset : ∀ (k : Cache) (m : MESI), k.Ok → k.get adx = some m →
      ∃ k', setAlone k adx = .ok k' ∧ k.Put adx (some alone) k') :
    ∃ m k, updateCacheLoadAction setAlone c = .ok { c with cache := k }
      ∧ c.cache.Filled adx m k ∧ (m = .shared ∨ m = alone
        ∧ c.sawBusReadToMyIncomingAddress = false ∧ c.gotDataReturnFromBusReadMemory = true) := by
  have hassert : (c.gotDataReturnFromBusReadMemory || c.gotDataReturnFromBusReadProcessor
      || c.snoopedDataReturnFromWriteback) = true := by
    rcases hgot with h | h | h <;> simp [h]
  -- the line is held alone if memory sent it and nobody else has read it since
  by_cases halone : c.sawBusReadToMyIncomingAddress = false ∧ c.gotDataReturnFromBusReadMemory = true
  · obtain ⟨k₀, k₁, k₂, k, hroom, hins, hset, _, _, hlru, hfill⟩ := fill_spec ok hnew hset
    refine ⟨alone, k, ?_, hfill, Or.inr ⟨rfl, halone⟩⟩
    simp [updateCacheLoadAction, hl, hc, hc', ok.contains, hnew, hroom, hins, halone.1, halone.2,
      hset, Controller.updateLRU, hlru]
  · obtain ⟨k₀, k₁, k₂, k, hroom, hins, hset, _, _, hlru, hfill⟩ :=
      fill_spec ok hnew fun k m hok hm => hok.setShared hm
    refine ⟨.shared, k, ?_, hfill, Or.inl rfl⟩
    cases hr : c.sawBusReadToMyIncomingAddress with
    | true =>
        simp [updateCacheLoadAction, hl, hc, hc', ok.contains, hnew, hassert, hroom, hins, hr, hset,
          Controller.updateLRU, hlru]
    | false =>
        have hg : c.gotDataReturnFromBusReadMemory = false :=
          Bool.eq_false_iff.mpr fun hg => halone ⟨hr, hg⟩
        rw [hg, Bool.false_or] at hassert
        simp [updateCacheLoadAction, hl, hc, hc', ok.contains, hnew, hassert, hroom, hins, hr, hg,
          hset, Controller.updateLRU, hlru]

theorem sharing_store_filled (ok : c.cache.Ok) {adx : Nat} (hl : c.instructionLine = .ok adx)
    (hnew : c.cache.get adx = none) (hc : ¬ c.sawBusReadToMyIncomingAddress)
    (hc₁ : ¬ c.sawBusReadXToMyIncomingAddress) (hc₂ : ¬ c.sawInvalidateToMyIncomingAddress) :
    ∃ k, updateCacheStoreAction c = .ok { c with cache := k } ∧ c.cache.Filled adx .modified k := by
  obtain ⟨k₀, k₁, k₂, k, hroom, hins, hset, ok₂, hm₂, hlru, hfill⟩ :=
    fill_spec ok hnew fun k m hok hm => hok.setModified hm
  refine ⟨k, ?_, hfill⟩
  simp [updateCacheStoreAction, hl, hc, hc₁, hc₂, ok.contains, hnew, hroom, hins, hset,
    ok₂.isModified hm₂, Controller.updateLRU, hlru]

theorem sharing_store_dropped {adx : Nat} (hl : c.instructionLine = .ok adx)
    (hsaw : c.sawBusReadToMyIncomingAddress = true ∨ c.sawBusReadXToMyIncomingAddress = true
      ∨ c.sawInvalidateToMyIncomingAddress = true) :
    updateCacheStoreAction c = .ok (c.queueMaxPriorityBusCommand .busWrite adx) := by
  rcases hsaw with h | h | h <;> simp [updateCacheStoreAction, hl, h]

theorem sharing_load_dropped {adx : Nat} (hl : c.instructionLine = .ok adx)
    (hsaw : c.sawBusReadXToMyIncomingAddress = true ∨ c.sawInvalidateToMyIncomingAddress = true) :
    updateCacheLoadAction setAlone c = .ok c := by
  rcases hsaw with h | h <;> simp [updateCacheLoadAction, hl, h]

theorem MissStage.answered_of (h : c.MissStage) (hw : c.awaitingDataLocal = false) :
    c.awaitingBusRead = false ∧ c.GotData := by
  cases h with
  | queued h => rw [hw] at h; cases h
  | out h => rw [hw] at h; cases h
  | answered _ hb _ hg => exact ⟨hb, hg⟩

theorem sharing_issueRead (h : c.Inv) (hs : c.currentState = .issueReadState) {alone : MESI}
    (halone : alone = .exclusive ∨ alone = .shared) (hallow : c.controllerType.Allows alone)
    (hshared : c.controllerType.Allows .shared)
    (hset : ∀ (k : Cache) (adx : Nat) (m : MESI), k.Ok → k.get adx = some m →
      ∃ k', setAlone k adx = .ok k' ∧ k.Put adx (some alone) k') :
    ∃ c', sharingTransition assertState setAlone 2 c = .ok c' ∧ Transitioned c c' := by
  obtain ⟨⟨_, hi⟩, hnew, hq, hstage⟩ := h.miss (Or.inl hs)
  cases hw : c.awaitingDataLocal with
  -- the action of this state queues the read once only, so a wait changes nothing
  | true =>
      refine ⟨c, ?_, .wait (Or.inl hs) hw⟩
      have hnext : getNextState (checkCacheStoreTransition assertState) c
          = .ok (.issueReadState, c) := by
        simp [getNextState, hs, issueReadTransition, hw]
      rw [sharing_step hnext, enter_self hs]
      simp [callActionFunction, hs, issueReadAction, queueReadOnce_wait hq]
  | false =>
      obtain ⟨hb, hgot⟩ := hstage.answered_of hw
      have hnext : getNextState (checkCacheStoreTransition assertState) c
          = .ok (.updateCacheLdState, c) := by
        simp [getNextState, hs, issueReadTransition, hw, hb]
      by_cases hsaw : c.sawBusReadXToMyIncomingAddress = true
          ∨ c.sawInvalidateToMyIncomingAddress = true
      · exact ⟨_, (sharing_step hnext).trans (sharing_load_dropped hi.instructionLine hsaw),
          .loadDropped hs hw hsaw⟩
      · rw [not_or] at hsaw
        obtain ⟨m, k, hk, hfill, hm⟩ := sharing_load_filled
          (c := { c with currentState := .updateCacheLdState }) h.cache hi.instructionLine hnew
          hsaw.1 hsaw.2 hgot (hset · c.awaitingDataLocalAddress ·)
        refine ⟨_, (sharing_step hnext).trans hk, .loadFilled hs hw (by simpa using hsaw.1)
          (by simpa using hsaw.2) ?_ ?_ ?_ hfill⟩
        · rcases hm with rfl | ⟨rfl, _⟩
          · exact hshared
          · exact hallow
        · rcases hm with rfl | ⟨rfl, _⟩
          · simp
          · rcases halone with rfl | rfl <;> simp
        · rcases hm with rfl | ⟨rfl, hm⟩
          · simp
          · exact fun _ => hm

theorem sharing_issueReadX (h : c.Inv) (hs : c.currentState = .issueReadXState) :
    ∃ c', sharingTransition assertState setAlone 2 c = .ok c' ∧ Transitioned c c' := by
  obtain ⟨⟨_, hi⟩, hnew, hq, hstage⟩ := h.miss (Or.inr hs)
  cases hw : c.awaitingDataLocal with
  | true =>
      refine ⟨c, ?_, .wait (Or.inr hs) hw⟩
      have hnext : getNextState (checkCacheStoreTransition assertState) c
          = .ok (.issueReadXState, c) := by
        simp [getNextState, hs, issueReadXTransition, hw]
      rw [sharing_step hnext, enter_self hs]
      simp [callActionFunction, hs, issueReadXAction, queueReadOnce_wait hq]
  | false =>
      obtain ⟨hb, hgot⟩ := hstage.answered_of hw
      have hnext : getNextState (checkCacheStoreTransition assertState) c
          = .ok (.updateCacheStState, c) := by
        simp [getNextState, hs, issueReadXTransition, hw, hb]
      by_cases hsaw : c.sawBusReadToMyIncomingAddress = true
          ∨ c.sawBusReadXToMyIncomingAddress = true ∨ c.sawInvalidateToMyIncomingAddress = true
      · exact ⟨_, (sharing_step hnext).trans (sharing_store_dropped hi.instructionLine hsaw),
          .storeDropped hs hw hsaw⟩
      · rw [not_or, not_or] at hsaw
        obtain ⟨k, hk, hfill⟩ := sharing_store_filled
          (c := { c with currentState := .updateCacheStState }) h.cache hi.instructionLine hnew
          hsaw.1 hsaw.2.1 hsaw.2.2
        exact ⟨_, (sharing_step hnext).trans hk, .storeFilled hs hw (by simpa using hsaw.1)
          (by simpa using hsaw.2.1) (by simpa using hsaw.2.2) hfill⟩

variable (assertState setAlone) in
/-- Every state of an MSI or MESI controller. -/
theorem sharing_transitioned (h : c.Inv) (hmi : c.controllerType ≠ .mi)
    (hassert : ∀ m, c.controllerType.Allows m →
      assertState (m = .exclusive) (m = .modified) (m = .shared) = true) {alone : MESI}
    (halone : alone = .exclusive ∨ alone = .shared) (hallow : c.controllerType.Allows alone)
    (hset : ∀ (k : Cache) (adx : Nat) (m : MESI), k.Ok → k.get adx = some m →
      ∃ k', setAlone k adx = .ok k' ∧ k.Put adx (some alone) k') :
    ∃ c', sharingTransition assertState setAlone 2 c = .ok c' ∧ Transitioned c c' := by
  have retire (hs : c.currentState = .updateCacheLdState ∨ c.currentState = .updateCacheStState
      ∨ c.currentState = .invalidateWait) :
      ∃ c', sharingTransition assertState setAlone 2 c = .ok c' ∧ Transitioned c c' := by
    have hnext : getNextState (checkCacheStoreTransition assertState) c = .ok (.idleState, c) := by
      rcases hs with hs | hs | hs <;>
        simp [getNextState, hs, updateCacheLoadTransition, updateCacheStoreTransition]
    exact ⟨_, sharing_step hnext, .retire hs⟩
  cases hs : c.currentState with
  | idleState =>
      cases hp : c.pendingInstructionFlag with
      | false =>
          have hnext : getNextState (checkCacheStoreTransition assertState) c
              = .ok (.idleState, c) := by
            simp [getNextState, hs, idleTransition, hasPendingInstruction, hp]
          refine ⟨_, (sharing_step hnext).trans ?_, .rest hs hp⟩
          rw [enter_self hs]
          simp [callActionFunction, hs]
      | true =>
          obtain ⟨i, hi, hop⟩ := h.serves hp
          rw [hs] at hop
          rcases hop with hop | hop
          · exact sharing_load h hmi hs hp ⟨i, hi, hop, rfl⟩
          · exact sharing_store h hmi hassert hs hp ⟨i, hi, hop, rfl⟩
  | checkCacheLdState => exact (h.not_checking (Or.inl hs)).elim
  | checkCacheStState => exact (h.not_checking (Or.inr hs)).elim
  | issueReadState =>
      exact sharing_issueRead h hs halone hallow (ControllerType.allows_shared hmi) hset
  | updateCacheLdState => exact retire (Or.inl hs)
  | issueReadXState => exact sharing_issueReadX h hs
  | issueInvalidateState =>
      have hnext : getNextState (checkCacheStoreTransition assertState) c
          = .ok (.invalidateWait, c) := by
        simp [getNextState, hs, issueInvalidateTransition]
      exact ⟨_, sharing_step hnext, .invalidateQueued hs⟩
  | invalidateWait => exact retire (Or.inr (Or.inr hs))
  | updateCacheStState => exact retire (Or.inr (Or.inl hs))

end Sharing

/-! ## The MI class -/

section MI

open MIController

theorem mi_step {s : ControllerState} (h : getNextState c = .ok (s, c)) :
    MIController.transitionState 2 c
      = callActionFunction (MIController.transitionState 1) { c with currentState := s } :=
  transitionWith_eq h

theorem mi_through {s s' : ControllerState} {d : Controller}
    (hs : s = .checkCacheLdState ∨ s = .checkCacheStState) (h : getNextState c = .ok (s, c))
    (h' : getNextState { c with currentState := s } = .ok (s', d)) :
    MIController.transitionState 2 c
      = callActionFunction (MIController.transitionState 0) { d with currentState := s' } := by
  rcases hs with rfl | rfl <;> exact transitionWith_through h (fun _ => rfl) h'

theorem mi_load_hit (ok : c.cache.Ok) (hc : c.sawBusReadXToMyIncomingAddress = false)
    {adx : Nat} {m : MESI} {k : Cache} (hl : c.instructionLine = .ok adx)
    (hm : c.cache.get adx = some m) (hk : c.cache.updateLRU adx = .ok k) :
    updateCacheLoadAction c = .ok { c with cache := k } := by
  simp [updateCacheLoadAction, hl, hc, ok.contains, hm, updateLRU_eq hk]

theorem mi_store_hit (ok : c.cache.Ok) (hc : ¬ c.sawBusReadToMyIncomingAddress)
    (hc₁ : ¬ c.sawBusReadXToMyIncomingAddress) (hc₂ : ¬ c.sawInvalidateToMyIncomingAddress)
    {adx : Nat} {m : MESI} {k : Cache} (hl : c.instructionLine = .ok adx)
    (hm : c.cache.get adx = some m) (hk : c.cache.updateLRU adx = .ok k) :
    updateCacheStoreAction c = .ok { c with cache := k } := by
  simp [updateCacheStoreAction, hl, hc, hc₁, hc₂, ok.contains, hm, ok.isModified hm,
    updateLRU_eq hk]

theorem mi_load (h : c.Inv) (hmi : c.controllerType = .mi) (hs : c.currentState = .idleState)
    (hp : c.pendingInstructionFlag = true) {adx : Nat} (hi : c.Instructs .load adx) :
    ∃ c', MIController.transitionState 2 c = .ok c' ∧ Transitioned c c' := by
  have hclear := h.idle hs
  have hnext : getNextState c = .ok (.checkCacheLdState, c) := by
    simp [getNextState, hs, hi.idleTransition_load hp]
  have hcheck := checkCacheLoadTransition_eq (c := { c with currentState := .checkCacheLdState })
    h.cache hi
  cases hm : c.cache.get adx with
  | none =>
      rw [if_neg (by simp [hm])] at hcheck
      have hcode : c.controllerType.loadCommand = .busReadX := by rw [hmi]; rfl
      refine ⟨_, (mi_through (Or.inl rfl) hnext hcheck).trans ?_, .loadMiss hs hp hi hm⟩
      rw [hcode]
      exact queueReadOnce_eq hclear.queuedBusRead hi.instructionLine
  | some m =>
      rw [if_pos (by simp [hm])] at hcheck
      obtain ⟨k, hk, hput⟩ := h.cache.updateLRU hm
      refine ⟨_, (mi_through (Or.inl rfl) hnext hcheck).trans ?_, .loadHit hs hp hi hm hput⟩
      apply mi_load_hit
      exacts [h.cache, hclear.sawBusReadX, hi.instructionLine, hm, hk]

theorem mi_checkStore (ok : c.cache.Ok)
    (hallow : ∀ k m, c.cache.stateAt k = some m → m = .modified)
    {adx : Nat} (hi : c.Instructs .store adx) :
    checkCacheStoreTransition c = .ok (if (c.cache.get adx).isSome then
      (.updateCacheStState, { c with storeHits := c.storeHits + 1 }) else
      (.issueReadXState, { c with storeMisses := c.storeMisses + 1 })) := by
  obtain ⟨a, ha, hget⟩ := hi.lookup ok
  rw [← hget]; clear hget
  cases hm : c.cache.get a with
  | none => simp [checkCacheStoreTransition, ha, ok.contains, hm]
  | some m =>
      obtain rfl := hallow _ _ hm
      simp [checkCacheStoreTransition, ha, ok.contains, hm, ok.isInvalid hm, ok.isExclusive hm,
        ok.isModified hm, ok.isShared hm]

theorem mi_store (h : c.Inv) (hmi : c.controllerType = .mi) (hs : c.currentState = .idleState)
    (hp : c.pendingInstructionFlag = true) {adx : Nat} (hi : c.Instructs .store adx) :
    ∃ c', MIController.transitionState 2 c = .ok c' ∧ Transitioned c c' := by
  have hclear := h.idle hs
  -- a line in an MI cache is modified, so that a store that hits needs no request
  have hmod : ∀ k m, c.cache.stateAt k = some m → m = .modified := by
    intro k m hm
    have hallow := h.allows k m hm
    rwa [hmi] at hallow
  have hnext : getNextState c = .ok (.checkCacheStState, c) := by
    simp [getNextState, hs, hi.idleTransition_store hp]
  have hcheck := mi_checkStore (c := { c with currentState := .checkCacheStState }) h.cache hmod hi
  cases hm : c.cache.get adx with
  | none =>
      rw [if_neg (by simp [hm])] at hcheck
      refine ⟨_, (mi_through (Or.inr rfl) hnext hcheck).trans ?_, .storeMiss hs hp hi hm⟩
      exact queueReadOnce_eq hclear.queuedBusRead hi.instructionLine
  | some m =>
      obtain rfl := hmod _ _ hm
      rw [if_pos (by simp [hm])] at hcheck
      obtain ⟨k, hk, hput⟩ := h.cache.updateLRU hm
      refine ⟨_, (mi_through (Or.inr rfl) hnext hcheck).trans ?_,
        .storeHit hs hp hi hm (Or.inl rfl) hput⟩
      apply mi_store_hit
      exacts [h.cache, by simp [hclear.sawBusRead], by simp [hclear.sawBusReadX],
        by simp [hclear.sawInvalidate], hi.instructionLine, hm, hk]

theorem mi_load_filled (ok : c.cache.Ok) {adx : Nat} (hl : c.instructionLine = .ok adx)
    (hnew : c.cache.get adx = none) (hc : ¬ c.sawBusReadXToMyIncomingAddress) (hgot : c.GotData) :
    ∃ k, updateCacheLoadAction c = .ok { c with cache := k } ∧ c.cache.Filled adx .modified k := by
  have hassert : (c.gotDataReturnFromBusReadMemory || c.gotDataReturnFromBusReadProcessor
      || c.snoopedDataReturnFromWriteback) = true := by
    rcases hgot with h | h | h <;> simp [h]
  obtain ⟨k₀, k₁, k₂, k, hroom, hins, hset, _, _, hlru, hfill⟩ :=
    fill_spec ok hnew fun k m hok hm => hok.setModified hm
  refine ⟨k, ?_, hfill⟩
  simp [updateCacheLoadAction, hl, hc, ok.contains, hnew, hassert, hroom, hins, hset,
    Controller.updateLRU, hlru]

theorem mi_load_dropped {adx : Nat} (hl : c.instructionLine = .ok adx)
    (hsaw : c.sawBusReadXToMyIncomingAddress = true) : updateCacheLoadAction c = .ok c := by
  simp [updateCacheLoadAction, hl, hsaw]

theorem mi_store_filled (ok : c.cache.Ok) {adx : Nat} (hl : c.instructionLine = .ok adx)
    (hnew : c.cache.get adx = none) (hc : ¬ c.sawBusReadToMyIncomingAddress)
    (hc₁ : ¬ c.sawBusReadXToMyIncomingAddress) (hc₂ : ¬ c.sawInvalidateToMyIncomingAddress) :
    ∃ k, updateCacheStoreAction c = .ok { c with cache := k } ∧ c.cache.Filled adx .modified k := by
  obtain ⟨k₀, k₁, k₂, k, hroom, hins, hset, ok₂, hm₂, hlru, hfill⟩ :=
    fill_spec ok hnew fun k m hok hm => hok.setModified hm
  refine ⟨k, ?_, hfill⟩
  simp [updateCacheStoreAction, hl, hc, hc₁, hc₂, ok.contains, hnew, hroom, hins, hset,
    ok₂.isModified hm₂, Controller.updateLRU, hlru]

theorem mi_store_dropped {adx : Nat} (hl : c.instructionLine = .ok adx)
    (hsaw : c.sawBusReadToMyIncomingAddress = true ∨ c.sawBusReadXToMyIncomingAddress = true
      ∨ c.sawInvalidateToMyIncomingAddress = true) :
    updateCacheStoreAction c = .ok (c.queueMaxPriorityBusCommand .busWrite adx) := by
  rcases hsaw with h | h | h <;> simp [updateCacheStoreAction, hl, h]

theorem mi_issueRead (h : c.Inv) (hmi : c.controllerType = .mi)
    (hs : c.currentState = .issueReadState) :
    ∃ c', MIController.transitionState 2 c = .ok c' ∧ Transitioned c c' := by
  obtain ⟨⟨_, hi⟩, hnew, hq, hstage⟩ := h.miss (Or.inl hs)
  cases hw : c.awaitingDataLocal with
  | true =>
      refine ⟨c, ?_, .wait (Or.inl hs) hw⟩
      have hnext : getNextState c = .ok (.issueReadState, c) := by
        simp [getNextState, hs, issueReadTransition, hw]
      rw [mi_step hnext, enter_self hs]
      simp [callActionFunction, hs, issueReadAction, queueReadOnce_wait hq]
  | false =>
      obtain ⟨hb, hgot⟩ := hstage.answered_of hw
      have hnext : getNextState c = .ok (.updateCacheLdState, c) := by
        simp [getNextState, hs, issueReadTransition, hw, hb]
      cases hsaw : c.sawBusReadXToMyIncomingAddress with
      | true =>
          exact ⟨_, (mi_step hnext).trans (mi_load_dropped hi.instructionLine hsaw),
            .loadDropped hs hw (Or.inl hsaw)⟩
      | false =>
          obtain ⟨k, hk, hfill⟩ := mi_load_filled
            (c := { c with currentState := .updateCacheLdState }) h.cache hi.instructionLine hnew
            (by simp [hsaw]) hgot
          exact ⟨_, (mi_step hnext).trans hk, .loadFilled hs hw hsaw (h.mi hmi).2.1
            (by rw [hmi]; rfl) (fun _ => hmi) (fun he => by cases he) hfill⟩

theorem mi_issueReadX (h : c.Inv) (hs : c.currentState = .issueReadXState) :
    ∃ c', MIController.transitionState 2 c = .ok c' ∧ Transitioned c c' := by
  obtain ⟨⟨_, hi⟩, hnew, hq, hstage⟩ := h.miss (Or.inr hs)
  cases hw : c.awaitingDataLocal with
  | true =>
      refine ⟨c, ?_, .wait (Or.inr hs) hw⟩
      have hnext : getNextState c = .ok (.issueReadXState, c) := by
        simp [getNextState, hs, issueReadXTransition, hw]
      rw [mi_step hnext, enter_self hs]
      simp [callActionFunction, hs, issueReadXAction, queueReadOnce_wait hq]
  | false =>
      obtain ⟨hb, hgot⟩ := hstage.answered_of hw
      have hnext : getNextState c = .ok (.updateCacheStState, c) := by
        simp [getNextState, hs, issueReadXTransition, hw, hb]
      by_cases hsaw : c.sawBusReadToMyIncomingAddress = true
          ∨ c.sawBusReadXToMyIncomingAddress = true ∨ c.sawInvalidateToMyIncomingAddress = true
      · exact ⟨_, (mi_step hnext).trans (mi_store_dropped hi.instructionLine hsaw),
          .storeDropped hs hw hsaw⟩
      · rw [not_or, not_or] at hsaw
        obtain ⟨k, hk, hfill⟩ := mi_store_filled
          (c := { c with currentState := .updateCacheStState }) h.cache hi.instructionLine hnew
          hsaw.1 hsaw.2.1 hsaw.2.2
        exact ⟨_, (mi_step hnext).trans hk, .storeFilled hs hw (by simpa using hsaw.1)
          (by simpa using hsaw.2.1) (by simpa using hsaw.2.2) hfill⟩

/-- Every state of an MI controller. -/
theorem mi_transitioned (h : c.Inv) (hmi : c.controllerType = .mi) :
    ∃ c', MIController.transitionState 2 c = .ok c' ∧ Transitioned c c' := by
  have retire (hs : c.currentState = .updateCacheLdState ∨ c.currentState = .updateCacheStState) :
      ∃ c', MIController.transitionState 2 c = .ok c' ∧ Transitioned c c' := by
    have hnext : getNextState c = .ok (.idleState, c) := by
      rcases hs with hs | hs <;>
        simp [getNextState, hs, updateCacheLoadTransition, updateCacheStoreTransition]
    exact ⟨_, mi_step hnext, .retire (hs.imp id Or.inl)⟩
  cases hs : c.currentState with
  | idleState =>
      cases hp : c.pendingInstructionFlag with
      | false =>
          have hnext : getNextState c = .ok (.idleState, c) := by
            simp [getNextState, hs, idleTransition, hasPendingInstruction, hp]
          refine ⟨_, (mi_step hnext).trans ?_, .rest hs hp⟩
          rw [enter_self hs]
          simp [callActionFunction, hs]
      | true =>
          obtain ⟨i, hi, hop⟩ := h.serves hp
          rw [hs] at hop
          rcases hop with hop | hop
          · exact mi_load h hmi hs hp ⟨i, hi, hop, rfl⟩
          · exact mi_store h hmi hs hp ⟨i, hi, hop, rfl⟩
  | checkCacheLdState => exact (h.not_checking (Or.inl hs)).elim
  | checkCacheStState => exact (h.not_checking (Or.inr hs)).elim
  | issueReadState => exact mi_issueRead h hmi hs
  | updateCacheLdState => exact retire (Or.inl hs)
  | issueReadXState => exact mi_issueReadX h hs
  | issueInvalidateState => exact absurd hs (h.mi hmi).2.2.1
  | invalidateWait => exact absurd hs (h.mi hmi).2.2.2
  | updateCacheStState => exact retire (Or.inr hs)

end MI

/-- **No fault in `transitionState`**, and nothing but what `Transitioned` says. -/
theorem Inv.transitionState (h : c.Inv) :
    ∃ c', c.transitionState = .ok c' ∧ Transitioned c c' := by
  cases ht : c.controllerType with
  | mi =>
      obtain ⟨c', hc', hs⟩ := mi_transitioned h ht
      exact ⟨c', by rw [Controller.transitionState, ht]; exact hc', hs⟩
  | msi =>
      have hmi : c.controllerType ≠ .mi := by rw [ht]; simp
      obtain ⟨c', hc', hs⟩ := sharing_transitioned
        (fun isExclusive isModified isShared => (isModified || isShared) && !isExclusive)
        Cache.setShared h hmi (fun m hm => by rw [ht] at hm; rcases hm with rfl | rfl <;> rfl)
        (Or.inr rfl) (by rw [ht]; exact Or.inr rfl)
        (fun _ _ _ hok hm => hok.setShared hm)
      exact ⟨c', by rw [Controller.transitionState, ht]; exact hc', hs⟩
  | mesi =>
      have hmi : c.controllerType ≠ .mi := by rw [ht]; simp
      obtain ⟨c', hc', hs⟩ := sharing_transitioned
        (fun isExclusive isModified isShared => isExclusive || isModified || isShared)
        Cache.setExclusive h hmi
        (fun m hm => by rw [ht] at hm; cases m <;> first | rfl | exact absurd rfl hm)
        (Or.inl rfl) (by rw [ht]; simp [ControllerType.Allows])
        (fun _ _ _ hok hm => hok.setExclusive hm)
      exact ⟨c', by rw [Controller.transitionState, ht]; exact hc', hs⟩

end Controller

end CoherenceSim
