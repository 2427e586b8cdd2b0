import CoherenceSim.Model.CacheSet

/-!
# The cache

`Cache.h` and `Cache.cpp`: the split of a 64-bit address into set number and tag,
and the operations that forward to the set of an address.
-/

namespace CoherenceSim

/-- Subtraction of `unsigned int`s. -/
def subU32 (x y : Nat) : Nat := (x + 2 ^ 32 - y % 2 ^ 32) % 2 ^ 32

structure Cache where
  setArry : List CacheSet
  addressLen : Nat
  tagSize : Nat
  paragraphBitSize : Nat
  setBitSize : Nat
  setBitMask : Nat
  linesPerSet : Nat
  bytesPerLine : Nat
  lruSize : Nat
  deriving Repr, DecidableEq

namespace Cache

def new (adxLength numSets lps bpl : Nat) : Cache :=
  let tagSize := subU32 (subU32 adxLength (ceilLog2 bpl)) (ceilLog2 numSets)
  { setArry := (List.range numSets).map fun i => CacheSet.new i lps tagSize
    addressLen := adxLength
    tagSize := tagSize
    paragraphBitSize := ceilLog2 bpl
    setBitSize := ceilLog2 numSets
    setBitMask := bitMask (ceilLog2 numSets)
    linesPerSet := lps
    bytesPerLine := bpl
    lruSize := ceilLog2 lps }

def getAdxSetNum (c : Cache) (adx : Nat) : Nat := (adx >>> c.paragraphBitSize) &&& c.setBitMask

def getTag (c : Cache) (adx : Nat) : Nat := adx >>> subU32 c.addressLen c.tagSize

/-- `setNum << paragraphBitSize` is computed in 32 bits, the tag's shift in 64. -/
def getAddress (c : Cache) (setNum tag : Nat) : Nat :=
  (setNum <<< c.paragraphBitSize) % 2 ^ 32 ||| (tag <<< subU32 c.addressLen c.tagSize) % 2 ^ 64

def getLineAlignedAddress (c : Cache) (adx : Nat) : Nat :=
  c.getAddress (c.getAdxSetNum adx) (c.getTag adx)

/-- `setArry.at(getAdxSetNum(adx))`. -/
def setOf (c : Cache) (adx : Nat) : Outcome CacheSet :=
  match c.setArry[c.getAdxSetNum adx]? with
  | some set => pure set
  | none => throw .outOfRange

/-- Write through the `CacheSet*` of an address. -/
def putSet (c : Cache) (adx : Nat) (set : CacheSet) : Cache :=
  { c with setArry := c.setArry.set (c.getAdxSetNum adx) set }

def evictLineInSet (c : Cache) (adx : Nat) : Outcome (Option CacheLine × Cache) := do
  let set ← c.setOf adx
  let (line, set) ← set.evict
  pure (line, c.putSet adx set)

def isFull (c : Cache) (adx : Nat) : Outcome Bool := do
  pure (← c.setOf adx).isFull

/-- The tag is narrowed to an `unsigned int` here, and only here. -/
def contains (c : Cache) (adx : Nat) : Outcome Bool := do
  let tag := c.getTag adx % 2 ^ 32
  pure ((← c.setOf adx).contains tag)

/-- `assert(contains(adx))`. -/
def assertContains (c : Cache) (adx : Nat) : Outcome Unit := do
  assertThat (← c.contains adx) .notContained

def invalidate (c : Cache) (adx : Nat) : Outcome Cache := do
  c.assertContains adx
  pure (c.putSet adx (← (← c.setOf adx).invalidate (c.getTag adx)))

def isExclusive (c : Cache) (adx : Nat) : Outcome Bool := do
  c.assertContains adx
  (← c.setOf adx).isExclusive (c.getTag adx)

def isModified (c : Cache) (adx : Nat) : Outcome Bool := do
  c.assertContains adx
  (← c.setOf adx).isModified (c.getTag adx)

def isShared (c : Cache) (adx : Nat) : Outcome Bool := do
  c.assertContains adx
  (← c.setOf adx).isShared (c.getTag adx)

def isInvalid (c : Cache) (adx : Nat) : Outcome Bool := do
  c.assertContains adx
  (← c.setOf adx).isInvalid (c.getTag adx)

def setExclusive (c : Cache) (adx : Nat) : Outcome Cache := do
  c.assertContains adx
  pure (c.putSet adx (← (← c.setOf adx).setExclusive (c.getTag adx)))

def setModified (c : Cache) (adx : Nat) : Outcome Cache := do
  c.assertContains adx
  pure (c.putSet adx (← (← c.setOf adx).setModified (c.getTag adx)))

def setShared (c : Cache) (adx : Nat) : Outcome Cache := do
  c.assertContains adx
  pure (c.putSet adx (← (← c.setOf adx).setShared (c.getTag adx)))

def insertLine (c : Cache) (adx : Nat) : Outcome Cache := do
  assertThat (!(← c.isFull adx)) .setFull
  pure (c.putSet adx (← (← c.setOf adx).insertLine (c.getTag adx)))

def updateLRU (c : Cache) (adx : Nat) : Outcome Cache := do
  c.assertContains adx
  pure (c.putSet adx (← (← c.setOf adx).updateLRU (c.getTag adx)))

end Cache

end CoherenceSim
