import CoherenceSim.Model.Bus

/-!
# Cache lines

`CacheLine.h` and `CacheLine.cpp`. Fields are machine integers of different
widths, so every place where the source narrows a value says so with a `% 2 ^ w`.
-/

namespace CoherenceSim

/-- The MESI states, in the order of their numbers in `CacheLine.h`. -/
inductive MESI
  | modified
  | exclusive
  | shared
  | invalid
  deriving Repr, DecidableEq

structure CacheLine where
  tag : Nat
  tagMask : Nat
  lruBits : Nat
  lruMask : Nat
  lineNum : Nat
  mesiBits : MESI
  setNum : Nat
  dirtyBit : Bool
  validBit : Bool
  deriving Repr, DecidableEq

/-- The loop `mask |= (1 << i)` for `i < len` on an `unsigned int`. The shift count is
taken modulo 32, as x86 does. -/
def bitMask (len : Nat) : Nat :=
  (List.range len).foldl (fun mask i => mask ||| (1 <<< (i % 32)) % 2 ^ 32) 0

/-- `ceil(log2(n))`, for `n ≥ 1`. -/
def ceilLog2 (n : Nat) : Nat :=
  if n ≤ 1 then 0 else Nat.log2 (n - 1) + 1

namespace CacheLine

/-- The constructor. It never stores its `setNumber`, so `setNum` stays at zero. -/
def new (tagLen lruLen lineNumber _setNumber : Nat) : CacheLine where
  tag := 0
  tagMask := bitMask tagLen
  lruBits := 0
  lruMask := bitMask lruLen
  lineNum := lineNumber
  mesiBits := .invalid
  setNum := 0
  dirtyBit := false
  validBit := false

def setMESI (l : CacheLine) (value : MESI) : CacheLine := { l with mesiBits := value }

def getMESI (l : CacheLine) : MESI := l.mesiBits

def isExclusive (l : CacheLine) : Bool := l.getMESI = .exclusive

def isModified (l : CacheLine) : Bool := l.getMESI = .modified

def isShared (l : CacheLine) : Bool := l.getMESI = .shared

def isInvalid (l : CacheLine) : Bool := l.getMESI = .invalid

def getSetNumber (l : CacheLine) : Nat := l.setNum

def getTag (l : CacheLine) : Nat := l.tag

def setTag (l : CacheLine) (t : Nat) : CacheLine := { l with tag := l.tagMask &&& t }

def getLRU (l : CacheLine) : Nat := l.lruBits

def setLRU (l : CacheLine) (n : Nat) : CacheLine := { l with lruBits := l.lruMask &&& n }

def isDirty (l : CacheLine) : Bool := l.dirtyBit

def isValid (l : CacheLine) : Bool := l.validBit

def setDirty (l : CacheLine) (d : Bool) : CacheLine := { l with dirtyBit := d }

def setValid (l : CacheLine) (v : Bool) : CacheLine := { l with validBit := v }

/-- The parameter is an `unsigned int`: a wider tag is cut to 32 bits on the way in. -/
def tagMatches (l : CacheLine) (tag : Nat) : Bool := (tag % 2 ^ 32) &&& l.tagMask = l.getTag

end CacheLine

end CoherenceSim
