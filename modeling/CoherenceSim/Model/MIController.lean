import CoherenceSim.Model.Controller

/-!
# The MI controller

`MI_Controller.cpp`. Every miss fetches exclusively and every line is `MODIFIED`. There
is no handler for `INVALIDATE` or `SHAREME`, and a `BUSREAD` is an assertion failure.
-/

namespace CoherenceSim

namespace MIController

open Controller

def checkCacheStoreTransition (c : Controller) : Outcome (ControllerState × Controller) := do
  let address ← c.instructionAddress
  if ← c.cache.contains address then
    let c := { c with storeHits := c.storeHits + 1 }
    assertThat (!(← c.cache.isInvalid address)) .storeHitState
    let isExclusive ← c.cache.isExclusive address
    let isModified ← c.cache.isModified address
    let isShared ← c.cache.isShared address
    assertThat (isModified && !isShared && !isExclusive) .storeHitState
    pure (.updateCacheStState, c)
  else
    pure (.issueReadXState, { c with storeMisses := c.storeMisses + 1 })

/-- The two states that MI does not have fall through to `IDLE_STATE`. -/
def getNextState (c : Controller) : Outcome (ControllerState × Controller) :=
  match c.currentState with
  | .idleState => do pure (← c.idleTransition, c)
  | .checkCacheLdState => c.checkCacheLoadTransition
  | .issueReadState => pure (c.issueReadTransition, c)
  | .updateCacheLdState => pure (c.updateCacheLoadTransition, c)
  | .checkCacheStState => checkCacheStoreTransition c
  | .issueReadXState => pure (c.issueReadXTransition, c)
  | .updateCacheStState => pure (c.updateCacheStoreTransition, c)
  | .issueInvalidateState => pure (.idleState, c)
  | .invalidateWait => pure (.idleState, c)

/-- A load fetches exclusively as well. -/
def issueReadAction (c : Controller) : Outcome Controller := c.queueReadOnce .busReadX

def updateCacheLoadAction (c : Controller) : Outcome Controller := do
  let address ← c.instructionLine
  if c.sawBusReadXToMyIncomingAddress then
    pure c
  else
    let c ← if !(← c.cache.contains address) then do
        assertThat (c.gotDataReturnFromBusReadMemory || c.gotDataReturnFromBusReadProcessor
          || c.snoopedDataReturnFromWriteback) .noDataReturned
        let c ← c.makeRoom address
        let c := { c with cache := ← c.cache.insertLine address }
        pure { c with cache := ← c.cache.setModified address }
      else pure c
    c.updateLRU address

/-- On a hit the line is modified already and nothing is set. -/
def updateCacheStoreAction (c : Controller) : Outcome Controller := do
  let address ← c.instructionLine
  if c.sawBusReadToMyIncomingAddress || c.sawBusReadXToMyIncomingAddress
      || c.sawInvalidateToMyIncomingAddress then
    pure (c.queueMaxPriorityBusCommand .busWrite address)
  else
    let c ← if !(← c.cache.contains address) then do
        let c ← c.makeRoom address
        let c := { c with cache := ← c.cache.insertLine address }
        let c := { c with cache := ← c.cache.setModified address }
        assertThat (← c.cache.isModified address) .notModified
        pure c
      else do
        let _ ← c.cache.isModified address
        pure c
    c.updateLRU address

def callActionFunction (transitionState : Controller → Outcome Controller) (c : Controller) :
    Outcome Controller :=
  match c.currentState with
  | .idleState => pure c.idleAction
  | .checkCacheLdState => transitionState c
  | .issueReadState => issueReadAction c
  | .updateCacheLdState => updateCacheLoadAction c
  | .checkCacheStState => transitionState c
  | .issueReadXState => c.issueReadXAction
  | .updateCacheStState => updateCacheStoreAction c
  | .issueInvalidateState => pure c
  | .invalidateWait => pure c

def transitionState : Nat → Controller → Outcome Controller :=
  Controller.transitionWith getNextState callActionFunction

/-- `assert(0)`: what follows it in the source is dead code. -/
def handleBusRead (_c : Controller) (_d : BusRequest) : Outcome Controller := throw .busReadInMI

def acceptBusTransaction (c : Controller) (d : BusRequest) : Outcome Controller :=
  match d.commandCode with
  | .busRead => handleBusRead c d
  | .busReadX => c.handleBusReadX d
  | .busWrite => c.handleBusWrite d
  | .dataReturnMemory => c.handleDataReturnMemory d
  | .dataReturnProcessor => c.handleDataReturnProcessor d
  | .invalidate => pure c
  | .nullBurst => pure c
  | .shareMe => pure c

end MIController

end CoherenceSim
