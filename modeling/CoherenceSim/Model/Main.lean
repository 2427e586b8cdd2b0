import CoherenceSim.Lib.Stdio
import CoherenceSim.Model.System

/-!
# The main loop

`cache_coherence_sim.cpp` reads the instructions of every processor from a file of its own,
one instruction at a time and only while the processor has none pending. There is one pair of
variables that the next instruction is read into, for all processors.

`Point` are the points the loop passes through, up to its end or to an assertion that fails.
-/

namespace CoherenceSim

/-- A line of a trace: a hexadecimal address, with or without `0x`, and `r` or `w`. -/
structure TraceLine where
  marked : Bool
  digits : List Char
  op : Char
  nonempty : digits ≠ []
  isHex : ∀ c ∈ digits, isHexDigit c = true
  fits : hexValue digits < 2 ^ 64
  isOp : op = 'r' ∨ op = 'w'

namespace TraceLine

/-- The line without its end. -/
def text (l : TraceLine) : List Char := File.hexMark l.marked ++ l.digits ++ [' ', l.op]

def instruction (l : TraceLine) : Instruction :=
  ⟨if l.op = 'r' then .load else .store, hexValue l.digits, l.fits⟩

/-- The line of a load or a store, without the `0x`. -/
def ofAddress (read : Bool) (address : UInt64) : TraceLine where
  marked := false
  digits := Nat.toDigits 16 address.toNat
  op := if read then 'r' else 'w'
  nonempty := Nat.toDigits_ne_nil
  isHex := (hexValue_toDigits _).1
  fits := by
    rw [(hexValue_toDigits _).2]
    exact address.toNat_lt
  isOp := by cases read <;> simp

end TraceLine

/-- A trace file. Its last line may lack the newline. -/
structure TraceFile where
  lines : List TraceLine
  finalNewline : Bool

namespace TraceFile

/-- The text of the lines. -/
def render (finalNewline : Bool) : List TraceLine → List Char
  | [] => []
  | l :: rest =>
      l.text ++ (if rest.isEmpty && !finalNewline then [] else ['\n']) ++ render finalNewline rest

def text (f : TraceFile) : List Char := render f.finalNewline f.lines

/-- The records of the file. -/
def instructions (f : TraceFile) : List Instruction := f.lines.map TraceLine.instruction

end TraceFile

/-- `fscanf( f, "%llx %c\n", &nextaddress, &nextop )`: the file, and the two targets. -/
def fscanf (f : File) (nextaddress : UInt64) (nextop : Char) : File × UInt64 × Char :=
  match f.scanHex with
  | (none, f) => (f, nextaddress, nextop)
  | (some address, f) =>
      match f.skipSpace.getc with
      | (none, f) => (f, address, nextop)
      | (some op, f) => (f.skipSpace, address, op)

/-- What the simulation starts from. The last two are what the variables of that name
happen to hold: they are not initialised. -/
structure Input where
  params : Params
  maxTicks : Nat
  files : Nat → TraceFile
  nextaddress : UInt64
  nextop : Char

/-- The variables of the loop, and the calls it has made on the system. -/
structure Simulation where
  system : System
  myfiles : Nat → File
  eofChecker : Nat → Bool
  nextaddress : UInt64
  nextop : Char
  calls : List Event

namespace Simulation

def start (x : Input) (s : System) : Simulation where
  system := s
  myfiles := fun i => File.fopen (x.files i).text
  eofChecker := fun _ => false
  nextaddress := x.nextaddress
  nextop := x.nextop
  calls := []

/-- A file that is found at its end stays there. -/
def checkEof (numProcs : Nat) (m : Simulation) : Simulation :=
  { m with eofChecker := fun i => m.eofChecker i || (decide (i < numProcs) && (m.myfiles i).feof) }

/-- Set `nextaddress` and `nextop`, if `fscanf` does. -/
def readInstruction (m : Simulation) (pNum : Nat) : Simulation :=
  if m.eofChecker pNum then { m with nextaddress := 0, nextop := 'n' }
  else
    let (f, address, op) := fscanf (m.myfiles pNum) m.nextaddress m.nextop
    { m with
      myfiles := fun i => if i = pNum then f else m.myfiles i
      nextaddress := address
      nextop := op }

/-- The `Instruction` that is allocated. -/
def inst (m : Simulation) : Instruction :=
  ⟨if m.nextop = 'r' ∨ m.nextop = 'w' then if m.nextop = 'r' then .load else .store else .nop,
    m.nextaddress.toNat, m.nextaddress.toNat_lt⟩

/-- The body of the loop over the processors. -/
def giveInstruction (m : Simulation) (pNum : Nat) : Outcome Simulation := do
  match ← m.system.hasPendingInstructions pNum with
  | true => pure m
  | false =>
      let m := m.readInstruction pNum
      let s ← m.system.insertInstruction m.inst pNum
      pure { m with system := s, calls := m.calls ++ [.insertInstruction m.inst pNum] }

def tick (m : Simulation) : Outcome Simulation := do
  let (_, s) ← m.system.tick
  pure { m with system := s, calls := m.calls ++ [.tick] }

end Simulation

/-- Where in the loop the program is. -/
inductive Phase
  /-- At the condition of the loop. -/
  | condition
  /-- `pNum` is one less than this. -/
  | processors (left : Nat)
  deriving Repr, DecidableEq

/-- `Point x tickCount phase m`: the program comes to this phase with these variables. -/
inductive Point (x : Input) : Nat → Phase → Simulation → Prop
  | start {s : System} :
      System.new x.params.numProcessors x.params.controllerType x.params.memoryLatency
        x.params.burstLength = .ok s →
      Point x 0 .condition (.start x s)
  | enter {tickCount : Nat} {m : Simulation} :
      Point x tickCount .condition m → tickCount ≤ x.maxTicks →
      Point x (tickCount + 1) (.processors x.params.numProcessors)
        (m.checkEof x.params.numProcessors)
  | processor {tickCount pNum : Nat} {m m' : Simulation} :
      Point x tickCount (.processors (pNum + 1)) m → m.giveInstruction pNum = .ok m' →
      Point x tickCount (.processors pNum) m'
  | tick {tickCount : Nat} {m m' : Simulation} :
      Point x tickCount (.processors 0) m → m.tick = .ok m' → Point x tickCount .condition m'

end CoherenceSim
