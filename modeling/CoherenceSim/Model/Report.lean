import CoherenceSim.Lib.Text
import CoherenceSim.Model.Main
import Mathlib.Algebra.GroupWithZero.Nat

/-!
# What the simulator prints

The output of `main`: the parameters of the simulation before the loop, and the statistics that
`reportMemoryOpStatistics` gathers from the components after it. Averages and rates are floating
point numbers. How they are computed and printed is left open; `DoubleFormat` says no more than that
the text is one of a number, of an infinity, or of `nan`.
-/

namespace CoherenceSim

open Text

/-- A character in the text of a `double`. -/
def isDoubleChar (c : Char) : Bool := c.isDigit || ".e+-inaf".toList.contains c

/-- The doubles of the report, as `cout` prints them. -/
structure DoubleFormat where
  /-- `waitCycles / numMemOps`. -/
  quotient : Nat → Nat → List Char
  /-- `100.0 * hits / accesses`. -/
  percentage : Nat → Nat → List Char
  /-- The sum of `waitCycles / numMemOps * (numMemOps / sum)` over the processors that have
  operations, from all `waitCycles` and `numMemOps` and the `sum`. -/
  mean : List (Nat × Nat) → Nat → List Char
  quotient_ne_nil : ∀ a b, quotient a b ≠ []
  quotient_chars : ∀ a b, ∀ c ∈ quotient a b, isDoubleChar c = true
  percentage_ne_nil : ∀ a b, percentage a b ≠ []
  percentage_chars : ∀ a b, ∀ c ∈ percentage a b, isDoubleChar c = true
  mean_ne_nil : ∀ l a, mean l a ≠ []
  mean_chars : ∀ l a, ∀ c ∈ mean l a, isDoubleChar c = true

namespace Processor

def getTotalMemoryOps (p : Processor) : Nat := p.numberMemoryOperations

def getAverageMemoryLatency (fmt : DoubleFormat) (p : Processor) : List Char :=
  fmt.quotient p.totalWaitCycles p.getTotalMemoryOps

def getStoreHits (p : Processor) : Nat := p.cacheController.storeHits

def getStoreMisses (p : Processor) : Nat := p.cacheController.storeMisses

def getLoadHits (p : Processor) : Nat := p.cacheController.loadHits

def getLoadMisses (p : Processor) : Nat := p.cacheController.loadMisses

def hits (p : Processor) : Nat := p.getStoreHits + p.getLoadHits

def misses (p : Processor) : Nat := p.getStoreMisses + p.getLoadMisses

end Processor

/-- A line of the report. -/
def reportLine (label value : List Char) : List Char := "    ".toList ++ label ++ ": ".toList ++ value

/-- The first loop of `reportMemoryOpStatistics`, for one processor. -/
def processorReport (fmt : DoubleFormat) (i : Nat) (p : Processor) : List (List Char) :=
  let hitRate := fmt.percentage (p.getStoreHits + p.getLoadHits)
    (p.getStoreHits + p.getStoreMisses + p.getLoadHits + p.getLoadMisses)
  ["Processor ".toList ++ decimal i ++ ":".toList,
    reportLine "Memory Operations".toList (decimal p.getTotalMemoryOps),
    reportLine "Average Latency  ".toList (p.getAverageMemoryLatency fmt),
    reportLine "Store Hits       ".toList (decimal p.getStoreHits),
    reportLine "Store Misses     ".toList (decimal p.getStoreMisses),
    reportLine "Load Hits        ".toList (decimal p.getLoadHits),
    reportLine "Load Misses      ".toList (decimal p.getLoadMisses),
    reportLine "Cache Hit Rate   ".toList (hitRate ++ ['%'])]

/-- The rest of it. -/
def summaryReport (fmt : DoubleFormat) (processors : List Processor) (memCount busyCycles : Nat) :
    List (List Char) :=
  let sum := (processors.map Processor.getTotalMemoryOps).sum
  let totalHits := (processors.map Processor.hits).sum
  let totalMisses := (processors.map Processor.misses).sum
  let overallAvgLatency :=
    fmt.mean (processors.map fun p => (p.totalWaitCycles, p.getTotalMemoryOps)) sum
  [[], "Summary:".toList,
    reportLine "Total Memory Operations ".toList (decimal sum),
    reportLine "Overall Average Latency ".toList overallAvgLatency,
    reportLine "Reads Serviced By Memory".toList (decimal memCount),
    reportLine "Total Combined Hits     ".toList (decimal totalHits),
    reportLine "Total Combined Misses   ".toList (decimal totalMisses),
    reportLine "Combined Hit Rate       ".toList
      (fmt.percentage totalHits (totalHits + totalMisses) ++ ['%']),
    reportLine "Bus Busy Cycles         ".toList (decimal busyCycles)]

def report (fmt : DoubleFormat) (processors : List Processor) (memCount busyCycles : Nat) :
    List (List Char) :=
  processors.zipIdx.flatMap (fun p => processorReport fmt p.2 p.1)
    ++ summaryReport fmt processors memCount busyCycles

/-- The lines that `reportMemoryOpStatistics` prints. -/
def System.reportMemoryOpStatistics (fmt : DoubleFormat) (s : System) :
    Outcome (List (List Char)) := do
  let processors ← s.processors.mapM s.getProcessor
  let memory ← s.getMemory
  pure (report fmt processors memory.getMemCount s.interconnect.busyCycles)

/-- The type of the controllers, as `main` names it. -/
def ControllerType.text : ControllerType → List Char
  | .mesi => "MESI".toList
  | .msi => "MSI".toList
  | .mi => "MI".toList

/-- The rule above and below the simulation. -/
def rule : List Char := List.replicate 103 '#'

/-- What `main` prints before its loop. -/
def parameterLines (ps : Params) (maxTicks : Nat) : List (List Char) :=
  ["Starting simulation with the following system parameters:".toList,
    "  PROCESSOR COUNT : ".toList ++ decimal ps.numProcessors,
    "  CONTROLLER TYPE : ".toList ++ ps.controllerType.text,
    "  MEMORY LATENCY  : ".toList ++ decimal ps.memoryLatency,
    "  BURST LENGTH    : ".toList ++ decimal ps.burstLength,
    "  MAX CYCLES      : ".toList ++ decimal maxTicks, rule, []]

/-- What `main` prints after its loop, up to the statistics. The condition of the loop has counted
once more when it fails. -/
def completionLines (tickCount : Nat) : List (List Char) :=
  [rule, [], "Simulation completed with ".toList ++ decimal tickCount ++ " simulation cycles.".toList]

/-- The output of a simulation whose loop was left at this point. -/
def Simulation.output (fmt : DoubleFormat) (x : Input) (tickCount : Nat) (m : Simulation) :
    Outcome (List Char) := do
  let statistics ← m.system.reportMemoryOpStatistics fmt
  pure (unlines (parameterLines x.params x.maxTicks ++ completionLines (tickCount + 1) ++ statistics))

end CoherenceSim
