import CoherenceSim.Model.Processor
import CoherenceSim.Proof.SharedLines

/-!
# The MSI controller follows the MESI controller

`MSI_Controller.cpp` against `MESI_Controller.cpp`: with `EXCLUSIVE` read as `SHARED`, every
handler of the one does what the same handler of the other does, and so does every transition,
but for a store that finds its line exclusive.
-/

namespace CoherenceSim

def ControllerType.share : ControllerType → ControllerType
  | .mesi => .msi
  | t => t

namespace Controller

/-- The MSI controller that a MESI controller becomes. -/
def share (c : Controller) : Controller :=
  { c with controllerType := c.controllerType.share, cache := c.cache.share }

/-- A store is about to find its line exclusive. -/
def StoreFindsExclusive (c : Controller) : Prop :=
  ∃ i, c.currentInstruction = some i
    ∧ (c.currentState = .checkCacheStState
      ∨ c.currentState = .idleState ∧ c.pendingInstructionFlag = true ∧ i.opcode = .store)
    ∧ c.cache.isExclusive i.address = .ok true

variable (c : Controller)

/-! ## What does not look at the cache -/

theorem share_popBack (maxPriorityTrans : Bool) :
    c.share.popBack maxPriorityTrans = (c.popBack maxPriorityTrans).share := by
  cases maxPriorityTrans <;> rfl

theorem share_cancelBusRequest (commandCode : CommandCode) (payload : Nat) :
    c.share.cancelBusRequest commandCode payload = (c.cancelBusRequest commandCode payload).share := by
  unfold cancelBusRequest
  rw [show c.share.busReqQueue = c.busReqQueue from rfl,
    show c.share.maxPriorityQueue = c.maxPriorityQueue from rfl]
  cases eraseRequest commandCode payload c.busReqQueue with
  | some q => rfl
  | none => cases eraseRequest commandCode payload c.maxPriorityQueue <;> rfl

theorem share_updateBusBurstRequest :
    c.share.updateBusBurstRequest = c.updateBusBurstRequest.share := by
  unfold updateBusBurstRequest
  rw [show c.share.busReqQueue = c.busReqQueue from rfl,
    show c.share.maxPriorityQueue = c.maxPriorityQueue from rfl]
  cases c.maxPriorityQueue.getLast? with
  | some r => rfl
  | none => cases c.busReqQueue.getLast? <;> rfl

/-- A turn of a burst is counted, if the bus is locked for it. -/
def countTurn : Controller :=
  if c.hasLock then { c with burstCounter := (c.burstCounter + 1) % 2 ^ 32 } else c

/-- The first half of `initiateBusTransaction`: the request to issue, or a null burst. -/
def takeTurn (next : BusRequest) (maxPriorityTrans : Bool) : BusRequest × Controller :=
  if c.bursting then
    if c.countTurn.burstCounter = c.countTurn.burstLen then
      (next, { c.countTurn.popBack maxPriorityTrans with burstCounter := 0 })
    else
      ({ commandCode := .nullBurst, targetAddress := BROADCAST_ADX,
         sourceAddress := c.countTurn.nodeAddress, payload := next.payload }, c.countTurn)
  else
    (next, c.popBack maxPriorityTrans)

/-- The second half: what is noted of the request that goes out. -/
def noteIssue (nextToIssue : BusRequest) : Controller :=
  let c :=
    if nextToIssue.commandCode = .busRead ∨ nextToIssue.commandCode = .busReadX then
      { c with dispatchedBusRead := some nextToIssue, awaitingBusRead := true }
    else c
  if nextToIssue.commandCode = c.outgoingCommandWaitCode then
    { c with outgoingCommandWaitFlag := false }
  else c

theorem initiateBusTransaction_eq : c.initiateBusTransaction = (do
    let (next, maxPriorityTrans) ← c.nextRequest
    let turn := c.takeTurn next maxPriorityTrans
    pure (turn.1, turn.2.noteIssue turn.1)) := rfl

theorem share_countTurn : c.share.countTurn = c.countTurn.share := by
  unfold countTurn
  rw [show c.share.hasLock = c.hasLock from rfl]
  split <;> rfl

theorem share_takeTurn (next : BusRequest) (maxPriorityTrans : Bool) :
    c.share.takeTurn next maxPriorityTrans
      = Prod.map id share (c.takeTurn next maxPriorityTrans) := by
  unfold takeTurn
  rw [share_countTurn, share_popBack, share_popBack, show c.share.bursting = c.bursting from rfl]
  split
  · rw [show c.countTurn.share.burstCounter = c.countTurn.burstCounter from rfl,
      show c.countTurn.share.burstLen = c.countTurn.burstLen from rfl]
    split <;> rfl
  · rfl

theorem share_noteIssue (nextToIssue : BusRequest) :
    c.share.noteIssue nextToIssue = (c.noteIssue nextToIssue).share := by
  unfold noteIssue
  by_cases hread : nextToIssue.commandCode = .busRead ∨ nextToIssue.commandCode = .busReadX
  · simp only [if_pos hread]
    by_cases hwait : nextToIssue.commandCode = c.outgoingCommandWaitCode
    · rw [if_pos hwait]; exact if_pos hwait
    · rw [if_neg hwait]; exact if_neg hwait
  · simp only [if_neg hread]
    by_cases hwait : nextToIssue.commandCode = c.outgoingCommandWaitCode
    · rw [if_pos hwait]; exact if_pos hwait
    · rw [if_neg hwait]; exact if_neg hwait

theorem share_initiateBusTransaction :
    Lockstep (Prod.map id share) c.initiateBusTransaction c.share.initiateBusTransaction := by
  rw [initiateBusTransaction_eq, initiateBusTransaction_eq]
  refine .bind_same fun ⟨next, maxPriorityTrans⟩ _ => .ok_of_eq ?_
  rw [share_takeTurn]
  exact congrArg (Prod.mk _) (share_noteIssue _ _)

theorem share_awaitingDataRemote (address : Nat) :
    c.share.awaitingDataRemote address = c.awaitingDataRemote address := rfl

theorem share_handleMemoryAccess (i : Instruction) :
    Lockstep share (c.handleMemoryAccess i) (c.share.handleMemoryAccess i) :=
  .bind_same fun _ _ => .ok _

/-! ## Handlers -/

theorem share_answerRead (address : Nat) :
    Lockstep share (c.answerRead address) (c.share.answerRead address) := by
  have hmesi := c.cache.share_mesiOf address
  simp only [answerRead, Cache.isExclusive_eq, Cache.isModified_eq, Cache.isShared_eq,
    show c.share.cache = c.cache.share from rfl, show c.cache.share.mesiOf address = _ from hmesi]
  cases c.cache.mesiOf address with
  | error e => exact .error e
  | ok m => cases m <;> exact .ok _

/-- Storing what an operation made of the cache. -/
theorem share_withCache {x x' : Outcome Cache} (h : Lockstep Cache.share x x') :
    Lockstep share (do pure { c with cache := ← x }) (do pure { c.share with cache := ← x' }) :=
  h.bind fun _ _ => .ok _

theorem share_handleBusReadX (d : BusRequest) :
    Lockstep share (c.handleBusReadX d) (c.share.handleBusReadX d) := by
  unfold handleBusReadX
  refine .bind_eq (c.cache.share_contains d.payload) fun contained _ => .ite (fun _ => ?_)
    fun _ => .ite (fun _ => .ok _) fun _ => .ok _
  refine .bind (c.share_answerRead d.payload) fun c₁ _ => ?_
  refine .bind (c₁.cache.share_invalidate d.payload) fun k _ => ?_
  exact .bind_eq (k.share_contains d.payload) fun _ _ => .bind_same fun _ _ => .ok _

theorem share_handleBusWrite (d : BusRequest) :
    Lockstep share (c.handleBusWrite d) (c.share.handleBusWrite d) := by
  unfold handleBusWrite
  rw [share_awaitingDataRemote]
  exact .bind_same fun _ _ => .ite (fun _ => .ok _) fun _ => .ok _

theorem share_handleDataReturnMemory (d : BusRequest) :
    Lockstep share (c.handleDataReturnMemory d) (c.share.handleDataReturnMemory d) := by
  unfold handleDataReturnMemory
  rw [share_awaitingDataRemote]
  refine .bind_same fun awaited _ => ?_
  cases awaited with
  | true => exact .ok_of_eq (share_cancelBusRequest { c with
      gotDataReturnFromBusReadMemory := true
      awaitingBusRead := false
      awaitingDataLocal := false } _ _)
  | false => exact .ok_of_eq (share_cancelBusRequest c _ _)

theorem share_handleDataReturnProcessor (d : BusRequest) :
    Lockstep share (c.handleDataReturnProcessor d) (c.share.handleDataReturnProcessor d) := by
  unfold handleDataReturnProcessor
  rw [share_awaitingDataRemote]
  refine .bind_same fun awaited _ => ?_
  cases awaited with
  | true => exact .ok_of_eq (share_cancelBusRequest { c with
      gotDataReturnFromBusReadProcessor := true
      awaitingBusRead := false
      awaitingDataLocal := false } _ _)
  | false => exact .ok_of_eq (share_cancelBusRequest c _ _)

theorem share_handleShareMe (d : BusRequest) : Lockstep share
    (SharingController.handleShareMe c d) (SharingController.handleShareMe c.share d) := by
  unfold SharingController.handleShareMe
  refine .bind_eq (c.cache.share_contains d.payload) fun contained _ => .ite (fun _ => ?_)
    fun _ => .ite (fun _ => .ok _) fun _ => .ok _
  have hmesi : c.share.cache.mesiOf d.payload = _ := c.cache.share_mesiOf d.payload
  rw [Cache.isShared_eq, Cache.isShared_eq, hmesi]
  cases hm : c.cache.mesiOf d.payload with
  | error e => exact .error e
  | ok m =>
      cases m with
      | shared => exact .ok _
      | modified => exact c.share_withCache (c.cache.share_setShared d.payload)
      | invalid => exact c.share_withCache (c.cache.share_setShared d.payload)
      | exclusive =>
          -- Only the MESI controller writes: in the other cache the line is `SHARED` as it is.
          exact c.share_withCache (c.cache.share_setShared_of_exclusive d.payload hm)

theorem share_handleBusRead (d : BusRequest) : Lockstep share
    (SharingController.handleBusRead c d) (SharingController.handleBusRead c.share d) := by
  unfold SharingController.handleBusRead
  refine .bind_eq (c.cache.share_contains d.payload) fun contained _ => .ite (fun _ => ?_)
    fun _ => .ite (fun _ => .ok _) fun _ => .ok _
  exact .bind (c.share_answerRead d.payload) fun c₁ _ =>
    c₁.share_withCache (c₁.cache.share_setShared d.payload)

theorem share_handleInvalidate (d : BusRequest) : Lockstep share
    (SharingController.handleInvalidate c d) (SharingController.handleInvalidate c.share d) := by
  unfold SharingController.handleInvalidate
  refine .bind_eq (c.cache.share_contains d.payload) fun contained _ => .ite (fun _ => ?_)
    fun _ => .ite (fun _ => .ok _) fun _ => .ok _
  refine .bind_eq (c.cache.share_isModified d.payload) fun modified _ => ?_
  cases modified <;> exact share_withCache _ (c.cache.share_invalidate d.payload)

theorem share_acceptBusTransaction (d : BusRequest) :
    Lockstep share (c.acceptBusTransaction d) (c.share.acceptBusTransaction d) := by
  have hsharing : Lockstep share (SharingController.acceptBusTransaction c d)
      (SharingController.acceptBusTransaction c.share d) := by
    unfold SharingController.acceptBusTransaction
    cases d.commandCode with
    | busRead => exact c.share_handleBusRead d
    | busReadX => exact c.share_handleBusReadX d
    | busWrite => exact c.share_handleBusWrite d
    | dataReturnMemory => exact c.share_handleDataReturnMemory d
    | dataReturnProcessor => exact c.share_handleDataReturnProcessor d
    | invalidate => exact c.share_handleInvalidate d
    | nullBurst => exact .ok _
    | shareMe => exact c.share_handleShareMe d
  have hmi : Lockstep share (MIController.acceptBusTransaction c d)
      (MIController.acceptBusTransaction c.share d) := by
    unfold MIController.acceptBusTransaction
    cases d.commandCode with
    | busRead => exact .error _
    | busReadX => exact c.share_handleBusReadX d
    | busWrite => exact c.share_handleBusWrite d
    | dataReturnMemory => exact c.share_handleDataReturnMemory d
    | dataReturnProcessor => exact c.share_handleDataReturnProcessor d
    | invalidate => exact .ok _
    | nullBurst => exact .ok _
    | shareMe => exact .ok _
  unfold acceptBusTransaction
  rw [show c.share.controllerType = c.controllerType.share from rfl]
  cases c.controllerType with
  | mi => exact hmi
  | msi => exact hsharing
  | mesi => exact hsharing

/-! ## Transitions -/

theorem share_checkCacheLoadTransition : Lockstep (Prod.map id share) c.checkCacheLoadTransition
    c.share.checkCacheLoadTransition := by
  unfold checkCacheLoadTransition
  exact .bind_same fun address _ => .bind_eq (c.cache.share_contains address) fun contained _ =>
    .ite (fun _ => .ok _) fun _ => .ok _

/-- The two assertions on the state of a line that a store hits differ in what they say of an
exclusive line only. -/
theorem share_checkCacheStoreTransition
    (h : ∀ i, c.currentInstruction = some i → c.cache.isExclusive i.address ≠ .ok true) :
    Lockstep (Prod.map id share) (MESIController.checkCacheStoreTransition c)
      (MSIController.checkCacheStoreTransition c.share) := by
  refine .bind_same fun address haddress => ?_
  refine .bind_eq (c.cache.share_contains address) fun contained _ => .ite (fun _ => ?_)
    fun _ => .ok _
  have hne : c.cache.mesiOf address ≠ .ok .exclusive := by
    intro hm
    unfold instructionAddress at haddress
    split at haddress
    · rename_i i hi
      cases haddress
      exact h i hi (by rw [Cache.isExclusive_eq, hm]; rfl)
    · cases haddress
  have hmesi : c.share.cache.mesiOf address = _ := c.cache.share_mesiOf address
  simp only [Cache.isInvalid_eq, Cache.isExclusive_eq, Cache.isModified_eq, Cache.isShared_eq, hmesi]
  cases hm : c.cache.mesiOf address with
  | error e => exact .error e
  | ok m =>
      cases m with
      | exclusive => exact absurd hm hne
      | modified => exact .ok _
      | shared => exact .ok _
      | invalid => exact .error _

theorem share_getNextState (h : ¬ c.StoreFindsExclusive) : Lockstep (Prod.map id share)
    (SharingController.getNextState MESIController.checkCacheStoreTransition c)
    (SharingController.getNextState MSIController.checkCacheStoreTransition c.share) := by
  unfold SharingController.getNextState
  rw [show c.share.currentState = c.currentState from rfl]
  cases hs : c.currentState with
  | idleState => exact .bind_same fun _ _ => .ok _
  | checkCacheLdState => exact c.share_checkCacheLoadTransition
  | checkCacheStState =>
      exact c.share_checkCacheStoreTransition fun i hi hexcl => h ⟨i, hi, Or.inl hs, hexcl⟩
  | issueReadState => exact .ok _
  | updateCacheLdState => exact .ok _
  | issueReadXState => exact .ok _
  | issueInvalidateState => exact .ok _
  | invalidateWait => exact .ok _
  | updateCacheStState => exact .ok _

/-! ## Actions -/

theorem share_queueReadOnce (command : CommandCode) :
    Lockstep share (c.queueReadOnce command) (c.share.queueReadOnce command) := by
  unfold queueReadOnce
  exact .ite (fun _ => .ok _) fun _ => .bind_same fun _ _ => .ok _

theorem share_makeRoom (address : Nat) :
    Lockstep share (c.makeRoom address) (c.share.makeRoom address) := by
  unfold makeRoom
  refine .bind_eq (c.cache.share_isFull address) fun full _ => .ite (fun _ => ?_) fun _ => .ok _
  refine .bind (c.cache.share_evictLineInSet address) fun ⟨evictedLine, k⟩ _ => ?_
  cases evictedLine with
  | none => exact .error _
  | some line =>
      show Lockstep share _ (if line.share.isModified then _ else _)
      rw [CacheLine.share_isModified]
      exact .ite (fun _ => .ok _) fun _ => .ok _

theorem share_controller_updateLRU (address : Nat) :
    Lockstep share (c.updateLRU address) (c.share.updateLRU address) :=
  c.share_withCache (c.cache.share_updateLRU address)

/-- What memory alone delivered is `EXCLUSIVE` in one cache and `SHARED` in the other. -/
theorem share_updateCacheLoadAction : Lockstep share (MESIController.updateCacheLoadAction c)
    (MSIController.updateCacheLoadAction c.share) := by
  refine .bind_same fun address _ => .ite (fun _ => .ok _) fun _ => ?_
  refine .bind_eq (c.cache.share_contains address) fun contained _ => ?_
  refine .ite (fun _ => ?_) fun _ => c.share_controller_updateLRU address
  refine .bind_same fun _ _ => .bind (c.share_makeRoom address) fun c₁ _ => ?_
  refine .bind (c₁.cache.share_insertLine address) fun k _ => ?_
  have htouch (k' : Cache) := share_controller_updateLRU { c₁ with cache := k' } address
  refine .ite (fun _ => ?_) fun _ => .ite (fun _ => ?_) fun _ => ?_
  · exact .bind (k.share_setShared address) fun k' _ => htouch k'
  · exact .bind (k.share_setExclusive address) fun k' _ => htouch k'
  · exact .bind (k.share_setShared address) fun k' _ => htouch k'

theorem share_updateCacheStoreAction : Lockstep share (SharingController.updateCacheStoreAction c)
    (SharingController.updateCacheStoreAction c.share) := by
  refine .bind_same fun address _ => .ite (fun _ => .ok _) fun _ => ?_
  refine .bind_eq (c.cache.share_contains address) fun contained _ => .ite (fun _ => ?_) fun _ => ?_
  · refine .bind (c.share_makeRoom address) fun c₁ _ => ?_
    refine .bind (c₁.cache.share_insertLine address) fun k _ => ?_
    refine .bind (k.share_setModified address) fun k' _ => ?_
    exact .bind_eq (k'.share_isModified address) fun _ _ => .bind_same fun _ _ =>
      share_controller_updateLRU { c₁ with cache := k' } address
  · refine .bind_eq (c.cache.share_isModified address) fun modified _ => .ite (fun _ => ?_)
      fun _ => c.share_controller_updateLRU address
    refine .bind (c.cache.share_setModified address) fun k _ => ?_
    exact .bind_eq (k.share_isModified address) fun _ _ => .bind_same fun _ _ =>
      share_controller_updateLRU { c with cache := k } address

theorem share_callActionFunction {transitionState transitionState' : Controller → Outcome Controller}
    (h : c.currentState = .checkCacheLdState ∨ c.currentState = .checkCacheStState →
      Lockstep share (transitionState c) (transitionState' c.share)) : Lockstep share
    (SharingController.callActionFunction MESIController.updateCacheLoadAction transitionState c)
    (SharingController.callActionFunction MSIController.updateCacheLoadAction transitionState'
      c.share) := by
  unfold SharingController.callActionFunction
  rw [show c.share.currentState = c.currentState from rfl]
  cases hs : c.currentState with
  | idleState => exact .ok _
  | checkCacheLdState => exact h (Or.inl hs)
  | issueReadState => exact c.share_queueReadOnce _
  | updateCacheLdState => exact c.share_updateCacheLoadAction
  | checkCacheStState => exact h (Or.inr hs)
  | issueReadXState => exact c.share_queueReadOnce _
  | issueInvalidateState => exact .bind_same fun _ _ => .ok _
  | updateCacheStState => exact c.share_updateCacheStoreAction
  | invalidateWait => exact .ok _

variable {c}

/-- `CHECK_CACHE_ST` is entered by an idle controller that has a store to do. -/
theorem getNextState_checkCacheSt {c₁ : Controller}
    (h : SharingController.getNextState MESIController.checkCacheStoreTransition c
      = .ok (.checkCacheStState, c₁)) :
    c₁ = c ∧ c.currentState = .idleState ∧ c.pendingInstructionFlag = true
      ∧ ∃ i, c.currentInstruction = some i ∧ i.opcode = .store := by
  unfold SharingController.getNextState at h
  cases hs : c.currentState with
  | idleState =>
      rw [hs] at h
      obtain ⟨nextState, hnext, heq⟩ := Outcome.bind_eq_ok.mp h
      cases heq
      unfold idleTransition at hnext
      split at hnext
      · rename_i hpending
        refine ⟨rfl, rfl, hpending, ?_⟩
        split at hnext
        · cases hnext
        · rename_i i hi
          refine ⟨i, hi, ?_⟩
          cases hop : i.opcode with
          | store => rfl
          | load => rw [hop] at hnext; cases hnext
          | nop => rw [hop] at hnext; cases hnext
      · cases hnext
  | checkCacheLdState =>
      rw [hs] at h
      obtain ⟨address, _, h⟩ := Outcome.bind_eq_ok.mp h
      obtain ⟨contained, _, h⟩ := Outcome.bind_eq_ok.mp h
      cases contained <;> cases h
  | checkCacheStState =>
      rw [hs] at h
      obtain ⟨address, _, h⟩ := Outcome.bind_eq_ok.mp h
      obtain ⟨contained, _, h⟩ := Outcome.bind_eq_ok.mp h
      cases contained with
      | false => cases h
      | true =>
          obtain ⟨isInvalid, _, h⟩ := Outcome.bind_eq_ok.mp h
          obtain ⟨_, _, h⟩ := Outcome.bind_eq_ok.mp h
          obtain ⟨isExclusive, _, h⟩ := Outcome.bind_eq_ok.mp h
          obtain ⟨isModified, _, h⟩ := Outcome.bind_eq_ok.mp h
          obtain ⟨isShared, _, h⟩ := Outcome.bind_eq_ok.mp h
          obtain ⟨_, _, h⟩ := Outcome.bind_eq_ok.mp h
          cases isModified <;> cases isExclusive <;> cases h
  | issueReadState =>
      rw [hs] at h
      obtain ⟨hnext, _⟩ := Prod.mk.inj (Except.ok.inj h)
      unfold issueReadTransition at hnext
      split at hnext <;> cases hnext
  | issueReadXState =>
      rw [hs] at h
      obtain ⟨hnext, _⟩ := Prod.mk.inj (Except.ok.inj h)
      unfold issueReadXTransition at hnext
      split at hnext <;> cases hnext
  | updateCacheLdState => rw [hs] at h; cases h
  | issueInvalidateState => rw [hs] at h; cases h
  | invalidateWait => rw [hs] at h; cases h
  | updateCacheStState => rw [hs] at h; cases h

/-- **A tick of a MESI controller is a tick of an MSI controller**, unless a store finds its line
exclusive. By induction on the depth: a state that is entered has been checked for that. -/
theorem share_transitionState (depth : Nat) : ∀ c : Controller, ¬ c.StoreFindsExclusive →
    Lockstep share (MESIController.transitionState depth c)
      (MSIController.transitionState depth c.share) := by
  induction depth with
  | zero => intro c _; exact .error _
  | succ depth ih =>
      intro c h
      refine .bind (c.share_getNextState h) fun ⟨nextState, c₁⟩ hnext => ?_
      refine share_callActionFunction { c₁ with currentState := nextState } fun hcheck => ih _ ?_
      rintro ⟨i, hi, hstate, hexcl⟩
      have hst : nextState = .checkCacheStState := by
        rcases hstate with hst | ⟨hidle, _⟩
        · exact hst
        · rcases hcheck with hld | hst
          · cases hld.symm.trans hidle
          · exact hst
      subst hst
      obtain ⟨rfl, hidle, hpending, j, hj, hstore⟩ := getNextState_checkCacheSt hnext
      have hji : j = i := Option.some.inj (hj.symm.trans hi)
      exact h ⟨i, hi, Or.inr ⟨hidle, hpending, hji ▸ hstore⟩, hexcl⟩

variable (c)

theorem share_tick (ht : c.controllerType = .mesi) (h : ¬ c.StoreFindsExclusive) :
    Lockstep share c.tick c.share.tick := by
  have htrans : Lockstep share c.transitionState c.share.transitionState := by
    unfold transitionState
    rw [show c.share.controllerType = c.controllerType.share from rfl, ht]
    exact share_transitionState 2 c h
  exact htrans.bind fun c₁ _ => .ok_of_eq c₁.share_updateBusBurstRequest

theorem share_new (burstLength : Nat) : (new .mesi burstLength).share = new .msi burstLength :=
  congrArg (fun k => { new .msi burstLength with cache := k }) (Cache.share_new _ _ _ _)

end Controller

end CoherenceSim
