import CoherenceSim.Model.Controller

/-!
# The MSI and MESI controllers

`MSI_Controller.cpp` and `MESI_Controller.cpp` are two copies of one text. They
differ in two places: the state a line is given when memory alone answered a read,
and the assertion on the state found by a store that hits. Everything else is
written here once, for both.

`getNextState` has no case for `INVALIDATE_WAIT`, in either file, and so falls
through to its final `return IDLE_STATE`.
-/

namespace CoherenceSim

namespace SharingController

open Controller

def issueInvalidateTransition (_c : Controller) : ControllerState := .invalidateWait

/-- Never called: `getNextState` does not mention it. -/
def invalidateWaitTransition (c : Controller) : ControllerState :=
  if c.outgoingCommandWaitFlag then .invalidateWait else .updateCacheStState

def getNextState
    (checkCacheStoreTransition : Controller → Outcome (ControllerState × Controller))
    (c : Controller) : Outcome (ControllerState × Controller) :=
  match c.currentState with
  | .idleState => do pure (← c.idleTransition, c)
  | .checkCacheLdState => c.checkCacheLoadTransition
  | .issueReadState => pure (c.issueReadTransition, c)
  | .updateCacheLdState => pure (c.updateCacheLoadTransition, c)
  | .checkCacheStState => checkCacheStoreTransition c
  | .issueReadXState => pure (c.issueReadXTransition, c)
  | .issueInvalidateState => pure (issueInvalidateTransition c, c)
  | .updateCacheStState => pure (c.updateCacheStoreTransition, c)
  | .invalidateWait => pure (.idleState, c)

/-- `assertState` is the class's assertion on the three flags, `isExclusive`,
`isModified` and `isShared`. -/
def checkCacheStoreTransition (assertState : Bool → Bool → Bool → Bool) (c : Controller) :
    Outcome (ControllerState × Controller) := do
  let address ← c.instructionAddress
  if ← c.cache.contains address then
    let c := { c with storeHits := c.storeHits + 1 }
    assertThat (!(← c.cache.isInvalid address)) .storeHitState
    let isExclusive ← c.cache.isExclusive address
    let isModified ← c.cache.isModified address
    let isShared ← c.cache.isShared address
    assertThat (assertState isExclusive isModified isShared) .storeHitState
    if isModified || isExclusive then pure (.updateCacheStState, c)
    else pure (.issueInvalidateState, c)
  else
    pure (.issueReadXState, { c with storeMisses := c.storeMisses + 1 })

def issueReadAction (c : Controller) : Outcome Controller := c.queueReadOnce .busRead

/-- `setAlone` is what the class does to a line that memory alone delivered. -/
def updateCacheLoadAction (setAlone : Cache → Nat → Outcome Cache) (c : Controller) :
    Outcome Controller := do
  let address ← c.instructionLine
  if c.sawBusReadXToMyIncomingAddress || c.sawInvalidateToMyIncomingAddress then
    pure c
  else
    let c ← if !(← c.cache.contains address) then do
        assertThat (c.gotDataReturnFromBusReadMemory || c.gotDataReturnFromBusReadProcessor
          || c.snoopedDataReturnFromWriteback) .noDataReturned
        let c ← c.makeRoom address
        let c := { c with cache := ← c.cache.insertLine address }
        if c.sawBusReadToMyIncomingAddress then
          pure { c with cache := ← c.cache.setShared address }
        else if c.gotDataReturnFromBusReadMemory then
          pure { c with cache := ← setAlone c.cache address }
        else
          -- data from a processor or snooped from a write-back: `SHARED` in both branches
          pure { c with cache := ← c.cache.setShared address }
      else pure c
    c.updateLRU address

def issueInvalidateAction (c : Controller) : Outcome Controller := do
  let address ← c.instructionLine
  pure { c.queueMaxPriorityBusCommand .invalidate address with
    outgoingCommandWaitFlag := true
    outgoingCommandWaitCode := .invalidate }

def updateCacheStoreAction (c : Controller) : Outcome Controller := do
  let address ← c.instructionLine
  if c.sawBusReadToMyIncomingAddress || c.sawBusReadXToMyIncomingAddress
      || c.sawInvalidateToMyIncomingAddress then
    pure (c.queueMaxPriorityBusCommand .busWrite address)
  else
    let c ← if !(← c.cache.contains address) then do
        let c ← c.makeRoom address
        let c := { c with cache := ← c.cache.insertLine address }
        let c := { c with cache := ← c.cache.setModified address }
        assertThat (← c.cache.isModified address) .notModified
        pure c
      else do
        if !(← c.cache.isModified address) then
          let c := { c with cache := ← c.cache.setModified address }
          assertThat (← c.cache.isModified address) .notModified
          pure c
        else pure c
    c.updateLRU address

def callActionFunction (updateCacheLoadAction : Controller → Outcome Controller)
    (transitionState : Controller → Outcome Controller) (c : Controller) : Outcome Controller :=
  match c.currentState with
  | .idleState => pure c.idleAction
  | .checkCacheLdState => transitionState c
  | .issueReadState => issueReadAction c
  | .updateCacheLdState => updateCacheLoadAction c
  | .checkCacheStState => transitionState c
  | .issueReadXState => c.issueReadXAction
  | .issueInvalidateState => issueInvalidateAction c
  | .updateCacheStState => updateCacheStoreAction c
  | .invalidateWait => pure c

def handleShareMe (c : Controller) (d : BusRequest) : Outcome Controller := do
  let address := d.payload
  if ← c.cache.contains address then
    if !(← c.cache.isShared address) then pure { c with cache := ← c.cache.setShared address }
    else pure c
  else if c.awaitsLocal address then
    pure { c with sawBusReadToMyIncomingAddress := true }
  else pure c

def handleBusRead (c : Controller) (d : BusRequest) : Outcome Controller := do
  let address := d.payload
  if ← c.cache.contains address then
    let c ← c.answerRead address
    pure { c with cache := ← c.cache.setShared address }
  else if c.awaitsLocal address then
    pure ({ c with sawBusReadToMyIncomingAddress := true }.queueMaxPriorityBusCommand
      .shareMe address)
  else pure c

def handleInvalidate (c : Controller) (d : BusRequest) : Outcome Controller := do
  let address := d.payload
  if ← c.cache.contains address then
    let c := if ← c.cache.isModified address then
        c.queueMaxPriorityBusCommand .busWrite address
      else c
    pure { c with cache := ← c.cache.invalidate address }
  else if c.awaitsLocal address then
    pure { c with sawInvalidateToMyIncomingAddress := true }
  else pure c

def acceptBusTransaction (c : Controller) (d : BusRequest) : Outcome Controller :=
  match d.commandCode with
  | .busRead => handleBusRead c d
  | .busReadX => c.handleBusReadX d
  | .busWrite => c.handleBusWrite d
  | .dataReturnMemory => c.handleDataReturnMemory d
  | .dataReturnProcessor => c.handleDataReturnProcessor d
  | .invalidate => handleInvalidate c d
  | .nullBurst => pure c
  | .shareMe => handleShareMe c d

end SharingController

/-! ## `MESI_Controller` -/

namespace MESIController

def checkCacheStoreTransition : Controller → Outcome (ControllerState × Controller) :=
  SharingController.checkCacheStoreTransition fun isExclusive isModified isShared =>
    isExclusive || isModified || isShared

def updateCacheLoadAction : Controller → Outcome Controller :=
  SharingController.updateCacheLoadAction Cache.setExclusive

def transitionState : Nat → Controller → Outcome Controller :=
  Controller.transitionWith (SharingController.getNextState checkCacheStoreTransition)
    (SharingController.callActionFunction updateCacheLoadAction)

end MESIController

/-! ## `MSI_Controller` -/

namespace MSIController

/-- `assert(isModified || isShared); assert(!isExclusive);` -/
def checkCacheStoreTransition : Controller → Outcome (ControllerState × Controller) :=
  SharingController.checkCacheStoreTransition fun isExclusive isModified isShared =>
    (isModified || isShared) && !isExclusive

def updateCacheLoadAction : Controller → Outcome Controller :=
  SharingController.updateCacheLoadAction Cache.setShared

def transitionState : Nat → Controller → Outcome Controller :=
  Controller.transitionWith (SharingController.getNextState checkCacheStoreTransition)
    (SharingController.callActionFunction updateCacheLoadAction)

end MSIController

end CoherenceSim
