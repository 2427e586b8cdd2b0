import CoherenceSim.Model.CacheLine

/-!
# Cache sets

`CacheSet.h` and `CacheSet.cpp`. A `CacheLine*` is the index of the line in
`lineArry`; the overloads that take a pointer carry the suffix `At`.
-/

namespace CoherenceSim

structure CacheSet where
  lineArry : List CacheLine
  setNumber : Nat
  deriving Repr, DecidableEq

namespace CacheSet

def new (setNum linesPerSet tagSize : Nat) : CacheSet where
  lineArry := (List.range linesPerSet).map fun i =>
    CacheLine.new tagSize (ceilLog2 linesPerSet) i setNum
  setNumber := setNum

/-- Write through a `CacheLine*`. -/
def modifyLine (s : CacheSet) (line : Nat) (f : CacheLine → CacheLine) : CacheSet :=
  { s with lineArry := s.lineArry.modify line f }

def contains (s : CacheSet) (tag : Nat) : Bool :=
  s.lineArry.any fun line => line.isValid && line.tagMatches tag

/-- The first line whose tag matches. The valid bit is not looked at. -/
def getLine (s : CacheSet) (tag : Nat) : Outcome Nat := do
  assertThat (s.contains tag) .notContained
  match s.lineArry.findIdx? (·.tagMatches tag) with
  | some line => pure line
  | none => throw .outOfRange

/-- The loop of `updateLRU(CacheLine*)`: number the other valid lines whose value does
not exceed the touched line's old one, in the order of their slots. -/
def updateLRULoop (line oldLRU : Nat) : Nat → Nat → List CacheLine → List CacheLine
  | _, _, [] => []
  | i, lastLRU, line0 :: rest =>
      if i ≠ line ∧ line0.isValid ∧ line0.getLRU ≤ oldLRU then
        line0.setLRU lastLRU :: updateLRULoop line oldLRU (i + 1) (lastLRU + 1) rest
      else
        line0 :: updateLRULoop line oldLRU (i + 1) lastLRU rest

def updateLRUAt (s : CacheSet) (line : Nat) : CacheSet :=
  let oldLRU := (s.lineArry[line]?.map CacheLine.getLRU).getD 0
  let s := s.modifyLine line (·.setLRU 0)
  { s with lineArry := updateLRULoop line oldLRU 0 1 s.lineArry }

def updateLRU (s : CacheSet) (tag : Nat) : Outcome CacheSet := do
  let line ← s.getLine tag
  pure (s.updateLRUAt line)

def streamIn (s : CacheSet) (line tag : Nat) : CacheSet :=
  let s := s.modifyLine line fun l => ((l.setValid true).setDirty false).setTag tag
  s.updateLRUAt line

def getEmptyLine (s : CacheSet) : Option Nat :=
  s.lineArry.findIdx? fun line => !line.isValid

def insertLine (s : CacheSet) (tag : Nat) : Outcome CacheSet :=
  match s.getEmptyLine with
  | some line => pure (s.streamIn line tag)
  | none => throw .noEmptyLine

/-- The `map` that `checkAndFixLRU` builds: from LRU value to the last valid line that
carries it. -/
def lruMap : Nat → List CacheLine → OrdMap Nat → OrdMap Nat
  | _, [], m => m
  | i, line :: rest, m =>
      lruMap (i + 1) rest (if line.isValid then m.assign line.getLRU i else m)

/-- The second loop of `checkAndFixLRU`: renumber the lines of the map in key order. -/
def renumberLRU (s : CacheSet) (lruValue : Nat) : List Nat → CacheSet
  | [] => s
  | line :: rest => renumberLRU (s.modifyLine line (·.setLRU lruValue)) (lruValue + 1) rest

def checkAndFixLRU (s : CacheSet) : CacheSet :=
  s.renumberLRU 0 ((lruMap 0 s.lineArry []).map Prod.snd)

def invalidateAt (s : CacheSet) (line : Nat) : CacheSet :=
  (s.modifyLine line fun l => (l.setValid false).setMESI .invalid).checkAndFixLRU

def invalidate (s : CacheSet) (tag : Nat) : Outcome CacheSet := do
  let line ← s.getLine tag
  pure (s.invalidateAt line)

/-- The candidate with the greatest LRU value, the first of them on a tie. `none` stands
for `lruLine` left unassigned, when no candidate's value is above zero. -/
def findLRU (s : CacheSet) (candidates : List Nat) : Option Nat :=
  (candidates.foldl (fun (best : Nat × Option Nat) line =>
    let lruVal := (s.lineArry[line]?.map CacheLine.getLRU).getD 0
    if lruVal > best.1 then (lruVal, some line) else best) (0, none)).2

/-- `none` is the `NULL` returned when some line is invalid. -/
def selectLineForEviction (s : CacheSet) : Outcome (Option Nat) :=
  if s.lineArry.any (fun line => !line.isValid) then
    pure none
  else
    let dirty (line : Nat) : Bool := (s.lineArry[line]?.map CacheLine.isDirty).getD false
    let dirtyLines := (List.range s.lineArry.length).filter dirty
    let cleanLines := (List.range s.lineArry.length).filter fun line => !dirty line
    let selectedLine := if 0 < cleanLines.length then s.findLRU cleanLines else s.findLRU dirtyLines
    match selectedLine with
    | some line => pure (some line)
    | none => throw .noVictim

/-- Select a line and invalidate it. The line comes back as it is after that. -/
def evict (s : CacheSet) : Outcome (Option CacheLine × CacheSet) := do
  match ← s.selectLineForEviction with
  | some line =>
      let s := s.invalidateAt line
      pure (s.lineArry[line]?, s)
  | none => pure (none, s)

def isFull (s : CacheSet) : Bool :=
  s.lineArry.all fun line => line.isValid

/-- The MESI bits read through `getLine`. -/
def getMESI (s : CacheSet) (tag : Nat) : Outcome MESI := do
  let line ← s.getLine tag
  match s.lineArry[line]? with
  | some l => pure l.getMESI
  | none => throw .outOfRange

def isExclusive (s : CacheSet) (tag : Nat) : Outcome Bool := do
  pure ((← s.getMESI tag) = .exclusive)

def isModified (s : CacheSet) (tag : Nat) : Outcome Bool := do
  pure ((← s.getMESI tag) = .modified)

def isShared (s : CacheSet) (tag : Nat) : Outcome Bool := do
  pure ((← s.getMESI tag) = .shared)

/-- The body lacks its `return`; it is taken to yield `line->isInvalid()`. -/
def isInvalid (s : CacheSet) (tag : Nat) : Outcome Bool := do
  pure ((← s.getMESI tag) = .invalid)

/-- The MESI bits written through `getLine`. -/
def setMESI (s : CacheSet) (tag : Nat) (value : MESI) : Outcome CacheSet := do
  let line ← s.getLine tag
  pure (s.modifyLine line (·.setMESI value))

def setExclusive (s : CacheSet) (tag : Nat) : Outcome CacheSet := s.setMESI tag .exclusive

def setModified (s : CacheSet) (tag : Nat) : Outcome CacheSet := s.setMESI tag .modified

def setShared (s : CacheSet) (tag : Nat) : Outcome CacheSet := s.setMESI tag .shared

end CacheSet

end CoherenceSim
