import CoherenceSim.Lib.OrdMap
import Mathlib.Algebra.Group.Nat.Defs

/-!
# Bus messages, faults and the node interface

The vocabulary shared by every component: the command codes of `BusProtocol.h`,
the `BusRequest` and `Instruction` records, and the `BusNode` interface through
which the interconnect sees processors and memory.

Every `assert` of the program is a possible `Fault`; a function that may run
into one returns an `Outcome`. Reading through a null pointer, past the end of a
vector or off an empty queue is a fault as well.
-/

namespace CoherenceSim

/-- What can stop the program: one constructor for each assertion, and one for each
kind of access outside the language's rules. -/
inductive Fault
  | pendingInstruction
  | noDataReturned
  | storeHitState
  | stillContained
  | notModified
  | busReadInMI
  | notContained
  | setFull
  | noEmptyLine
  | noVictim
  | noSuchNode
  | nodeExists
  | broadcastAddress
  | noSuchProcessor
  | outOfRange
  | nullPointer
  | emptyQueue
  | recursionDepth
  deriving Repr, DecidableEq

abbrev Outcome (α : Type) := Except Fault α

/-- `assert(b)`. -/
def assertThat (b : Bool) (f : Fault) : Outcome Unit :=
  if b then .ok () else .error f

/-- Command codes, in the order of their numbers in `BusProtocol.h`. -/
inductive CommandCode
  | busRead
  | busReadX
  | busWrite
  | dataReturnMemory
  | dataReturnProcessor
  | invalidate
  | nullBurst
  | shareMe
  deriving Repr, DecidableEq

/-- The address that reaches every node. -/
def BROADCAST_ADX : Nat := 0

structure BusRequest where
  commandCode : CommandCode
  targetAddress : Nat
  sourceAddress : Nat
  payload : Nat
  deriving Repr, DecidableEq

inductive Opcode
  | load
  | store
  | nop
  deriving Repr, DecidableEq

/-- A trace instruction; `ADDRESS` is an `unsigned long long`. -/
structure Instruction where
  opcode : Opcode
  address : Nat
  isLt : address < 2 ^ 64
  deriving Repr, DecidableEq

/-- The geometry of `CacheParams.h`. -/
def ADX_LEN : Nat := 64
def NUM_SETS : Nat := 1024
def LINES_PER_SET : Nat := 4
def BYTES_PER_LINE : Nat := 32

/-- The virtual functions of `BusNode`. -/
class BusNode (ν : Type) where
  acceptBusTransaction : ν → BusRequest → Outcome ν
  initiateBusTransaction : ν → Outcome (BusRequest × ν)
  requestsTransaction : ν → Bool
  requestsLock : ν → Bool
  requestsMaxPriority : ν → Bool
  hasLock : ν → Bool
  grantLock : ν → ν
  releaseLock : ν → ν
  setAddress : Nat → ν → ν

end CoherenceSim
