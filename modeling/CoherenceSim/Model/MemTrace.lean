import Mathlib.Algebra.Group.Nat.Defs
import Mathlib.Data.List.Basic

/-!
# The tracer

`memtrace.cpp`, the Pin tool that writes the trace files. When Pin is about to run a piece of the
program for the first time, a *trace* with one entry, `InstrumentTrace` puts calls into it. The
calls at its head find room in the log of the thread and leave a pointer to the `TRACE_HEADER`
there; the call before each memory reference leaves its address. Nothing is written to the file
before the log is full, or the thread ends: then `Expand` goes through the log from its beginning
to the first empty slot.

The log is kept as its slots of eight bytes. A cursor is an offset in bytes from the beginning of
the log, and an access that is not in it, or not to a slot, is a fault.
-/

namespace CoherenceSim.MemTrace

/-- What can stop the tool: an assertion, or an access to memory that is not the log's. -/
inductive LogFault
  | command
  | noSuchRef
  | notFull
  | outOfBounds
  | notAHeader
  | fuel
  deriving Repr, DecidableEq

abbrev LogOutcome (α : Type) := Except LogFault α

def sizeofADDRINT : Nat := 8

/-! ## Headers -/

/-- `REF`: the instruction that makes the reference, and whether it is a read. -/
structure Ref where
  ip : UInt64
  read : Bool
  deriving Repr, DecidableEq

/-- `TCMD_TYPE`. -/
inductive TcmdType
  | invalid
  | immediate
  | regValue
  | regOffset
  | traceOffset
  | bblock
  deriving Repr, DecidableEq

structure TraceHeader where
  logBytes : Nat
  cmds : List TcmdType
  refs : List Ref
  deriving Repr, DecidableEq

/-- The effective address that a call is passed. -/
inductive IargType
  | memoryReadEA
  | memoryWriteEA
  | memoryRead2EA
  deriving Repr, DecidableEq

/-- What the tool asks Pin about an instruction. -/
structure Ins where
  address : UInt64
  isMemoryRead : Bool
  isMemoryWrite : Bool
  hasMemoryRead2 : Bool
  isStandardMemop : Bool
  deriving Repr, DecidableEq

/-- `CALL`, to `RecordImmediate`. -/
structure Call where
  ins : Ins
  offset : Nat
  itype : IargType
  deriving Repr, DecidableEq

/-- `SCRATCH_TRACE_HEADER`. -/
structure ScratchTraceHeader where
  frameOffset : Nat
  cmds : List TcmdType
  refs : List Ref
  calls : List Call
  deriving Repr, DecidableEq

namespace ScratchTraceHeader

/-- The first slot is left for the pointer to the header. -/
def new : ScratchTraceHeader where
  frameOffset := sizeofADDRINT
  cmds := []
  refs := []
  calls := []

def numCmds (h : ScratchTraceHeader) : Nat := h.cmds.length

def recordLogImmediate (h : ScratchTraceHeader) (ins : Ins) (itype : IargType) :
    ScratchTraceHeader where
  frameOffset := h.frameOffset + sizeofADDRINT
  cmds := h.cmds ++ [.immediate]
  refs := h.refs ++ [⟨ins.address, itype ≠ .memoryWriteEA⟩]
  calls := h.calls ++ [⟨ins, h.frameOffset, itype⟩]

/-- The body of the loop of `InstrumentBBL`. -/
def instrumentIns (h : ScratchTraceHeader) (ins : Ins) : ScratchTraceHeader :=
  let h := if ins.isMemoryRead && ins.isStandardMemop then
    h.recordLogImmediate ins .memoryReadEA else h
  let h := if ins.isMemoryWrite && ins.isStandardMemop then
    h.recordLogImmediate ins .memoryWriteEA else h
  if ins.hasMemoryRead2 && ins.isStandardMemop then
    h.recordLogImmediate ins .memoryRead2EA else h

def instrumentBBL (h : ScratchTraceHeader) (bbl : List Ins) : ScratchTraceHeader :=
  bbl.foldl instrumentIns h

end ScratchTraceHeader

/-- The constructor of `TRACE_HEADER`. -/
def TraceHeader.new (scratch : ScratchTraceHeader) : TraceHeader where
  logBytes := scratch.frameOffset
  cmds := scratch.cmds
  refs := scratch.refs

/-- What `InstrumentTrace` puts into a trace: the header for the calls at the head, and the offsets
that `RecordImmediate` is called with, which count from the end of the frame. -/
structure Instrumented where
  theader : TraceHeader
  offsets : List Int
  deriving Repr, DecidableEq

/-- A trace, as the instructions of its basic blocks. Nothing is put into one that makes no
reference. -/
def instrumentTrace (trace : List (List Ins)) : Option Instrumented :=
  let scratchHeader := trace.foldl ScratchTraceHeader.instrumentBBL .new
  if scratchHeader.numCmds = 0 then none
  else some {
    theader := .new scratchHeader
    offsets := scratchHeader.calls.map fun c => (c.offset : Int) - scratchHeader.frameOffset }

/-! ## The log -/

/-- What is in a slot. No pointer is null. -/
inductive Slot
  | value (v : UInt64)
  | pointer (theader : TraceHeader)
  deriving Repr, DecidableEq

def EMPTY_SLOT : Slot := .value 0

structure Mlog where
  data : List Slot
  /-- What was written to `ofile`. -/
  ofile : List Char
  deriving Repr, DecidableEq

namespace Mlog

/-- `Reset`: all slots are empty. -/
def emptied (bufferSize : Nat) : List Slot := List.replicate (bufferSize / sizeofADDRINT) EMPTY_SLOT

def new (bufferSize : Nat) : Mlog where
  data := emptied bufferSize
  ofile := []

/-- The end of the log. -/
def logEnd (m : Mlog) : Nat := sizeofADDRINT * m.data.length

/-- The slot at this offset. -/
def slot (m : Mlog) (offset : Int) : LogOutcome Nat :=
  if 0 ≤ offset ∧ offset % sizeofADDRINT = 0 ∧ offset < m.logEnd then
    .ok (offset / sizeofADDRINT).toNat
  else .error .outOfBounds

def load (m : Mlog) (logCursor : Nat) : LogOutcome Slot := do
  match m.data[← m.slot logCursor]? with
  | some s => pure s
  | none => throw .outOfBounds

def store (m : Mlog) (offset : Int) (s : Slot) : LogOutcome Mlog := do
  pure { m with data := m.data.set (← m.slot offset) s }

/-- A line of the file: the instruction in hexadecimal, and `r` or `w`. -/
def line (ref : Ref) : List Char :=
  Nat.toDigits 16 ref.ip.toNat ++ [' ', if ref.read then 'r' else 'w', '\n']

def numLogBytes : TcmdType → LogOutcome Nat
  | .immediate => pure sizeofADDRINT
  | _ => throw .command

/-- What is written for one reference. An address of zero is taken for a reference that was not
made. -/
def expandRef (m : Mlog) (ref : Ref) (logCursor : Nat) : LogOutcome (List Char) := do
  pure (if (← m.load logCursor) = EMPTY_SLOT then [] else line ref)

/-- What is written for one frame. -/
def expandTrace (emit : Bool) (m : Mlog) : List TcmdType → List Ref → Nat → LogOutcome (List Char)
  | [], _, _ => pure []
  | .immediate :: cmds, ref :: refs, logCursor => do
      let text ← if emit then m.expandRef ref logCursor else pure []
      pure (text ++ (← expandTrace emit m cmds refs (logCursor + (← numLogBytes .immediate))))
  | .immediate :: _, [], _ => throw .noSuchRef
  | _ :: _, _, _ => throw .command

/-- The loop of `Expand`, which ends at an empty slot. -/
def expandFrames (emit : Bool) (m : Mlog) : Nat → Nat → LogOutcome (List Char)
  | 0, _ => throw .fuel
  | fuel + 1, logCursor => do
      let slot ← m.load logCursor
      if slot = EMPTY_SLOT then pure []
      else
        match slot with
        | .pointer theader => do
            let text ← m.expandTrace emit theader.cmds theader.refs (logCursor + sizeofADDRINT)
            pure (text ++ (← expandFrames emit m fuel (logCursor + theader.logBytes)))
        | .value _ => throw .notAHeader

def expand (emit : Bool) (m : Mlog) : LogOutcome Mlog := do
  if !emit then pure m
  else
    let text ← m.expandFrames emit (m.data.length + 1) 0
    pure ⟨emptied m.logEnd, m.ofile ++ text⟩

end Mlog

/-! ## A thread -/

/-- A log, and the register that points into it. -/
structure Thread where
  mlog : Mlog
  logCursor : Nat
  deriving Repr, DecidableEq

namespace Thread

/-- `ThreadStart`. -/
def start (bufferSize : Nat) : Thread where
  mlog := .new bufferSize
  logCursor := 0

def traceAllocIf (t : Thread) (size : Nat) : Bool := t.logCursor + size ≥ t.mlog.logEnd

def traceAllocThen (emit : Bool) (t : Thread) (size : Nat) : LogOutcome Thread :=
  if t.logCursor + size ≥ t.mlog.logEnd then do
    pure { mlog := ← t.mlog.expand emit, logCursor := 0 }
  else throw .notFull

def recordTraceBegin (t : Thread) (theader : TraceHeader) (size : Nat) : LogOutcome Thread := do
  pure { mlog := ← t.mlog.store t.logCursor (.pointer theader), logCursor := t.logCursor + size }

/-- The calls at the head of a trace. -/
def beginTrace (emit : Bool) (t : Thread) (theader : TraceHeader) : LogOutcome Thread := do
  let t ← if t.traceAllocIf theader.logBytes then t.traceAllocThen emit theader.logBytes else pure t
  t.recordTraceBegin theader theader.logBytes

def recordImmediate (t : Thread) (offset : Int) (value : UInt64) : LogOutcome Thread := do
  pure { t with mlog := ← t.mlog.store (t.logCursor + offset) (.value value) }

end Thread

/-- A trace that is run once. It may be left before its end, and so only the first calls before
its references are made: those of the references to these addresses. -/
structure Execution where
  trace : List (List Ins)
  addresses : List UInt64
  deriving Repr, DecidableEq

namespace Thread

def execute (emit : Bool) (t : Thread) (e : Execution) : LogOutcome Thread :=
  match instrumentTrace e.trace with
  | none => pure t
  | some ⟨theader, offsets⟩ => do
      let t ← t.beginTrace emit theader
      (offsets.zip e.addresses).foldlM (fun t c => t.recordImmediate c.1 c.2) t

/-- `ThreadFini`. -/
def fini (emit : Bool) (t : Thread) : LogOutcome Mlog := t.mlog.expand emit

/-- The file that a thread leaves. -/
def run (emit : Bool) (bufferSize : Nat) (executions : List Execution) : LogOutcome (List Char) := do
  let t ← executions.foldlM (execute emit) (start bufferSize)
  pure (← t.fini emit).ofile

end Thread

end CoherenceSim.MemTrace
