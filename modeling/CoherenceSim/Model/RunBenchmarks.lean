import CoherenceSim.Lib.Text
import Mathlib.Data.Char
import Mathlib.Data.List.Lex
import Mathlib.Data.List.Sort

/-!
# The benchmark script

The part of `run_benchmarks.pl` that turns the logs of simulations into a table. `parseSimLog` reads
the output of one simulation line by line, `generateCSV` does so for every log in the directory, and
`writeCsvFile` makes one row of each. A hash is the list of its entries, and a string is the list of
its characters.
-/

namespace CoherenceSim.RunBenchmarks

open Text

/-! ## Hashes -/

abbrev Hash (α : Type) := List (List Char × α)

namespace Hash

variable {α : Type}

def get (h : Hash α) (key : List Char) : Option α :=
  (h.find? fun e => e.1 = key).map Prod.snd

/-- An entry is overwritten, or added. -/
def set (h : Hash α) (key : List Char) (value : α) : Hash α :=
  match h with
  | [] => [(key, value)]
  | e :: rest => if e.1 = key then (key, value) :: rest else e :: set rest key value

end Hash

structure LogData where
  processor : Hash (Hash (List Char))
  summary : Hash (List Char)
  deriving Repr, DecidableEq

/-! ## Logs -/

inductive LogState
  | idleNC
  | idle
  | processor
  | summary
  deriving Repr, DecidableEq

/-- The variables of `parseSimLog`. -/
structure LogParser where
  state : LogState
  processorNumber : List Char
  simCycles : List Char
  logData : LogData
  deriving Repr, DecidableEq

namespace LogParser

def start : LogParser where
  state := .idleNC
  processorNumber := []
  simCycles := ['0']
  logData := ⟨[], []⟩

/-- `/^(.+):(.+)$/`, and the spaces taken off. -/
def parameter (line : List Char) : Option (List Char × List Char) :=
  (splitAtColon line).map fun p => (trim p.1, trim p.2)

/-- `$logData->{processor}->{$processorNumber}->{$paramName} = $value`. -/
def setProcessor (st : LogParser) (paramName value : List Char) : LogParser :=
  let params := (st.logData.processor.get st.processorNumber).getD []
  { st with logData := { st.logData with
      processor := st.logData.processor.set st.processorNumber (params.set paramName value) } }

/-- `$logData->{summary}->{$paramName} = $value`. -/
def setSummary (st : LogParser) (paramName value : List Char) : LogParser :=
  { st with logData := { st.logData with summary := st.logData.summary.set paramName value } }

/-- `/Processor (\d+):/`. -/
def processorLine (line : List Char) : Option (List Char) :=
  searchNumber "Processor ".toList ":".toList line

/-- The body of the loop, for a line without its spaces in front and behind. -/
def step (st : LogParser) (line : List Char) : LogParser :=
  match st.state with
  | .idleNC =>
      match searchNumber "Simulation completed with ".toList " simulation cycles".toList line with
      | some cycles => { st with simCycles := cycles, state := .idle }
      | none => st
  | .idle =>
      match processorLine line with
      | some processorNumber => { st with processorNumber := processorNumber, state := .processor }
      | none => if contains "Summary:".toList line then { st with state := .summary } else st
  | .processor =>
      match processorLine line with
      | some processorNumber => { st with processorNumber := processorNumber }
      | none =>
          match parameter line with
          | some (paramName, value) => st.setProcessor paramName value
          | none =>
              if line = [] then { st with state := .idle }
              else if contains "Summary:".toList line then { st with state := .summary }
              else st
  | .summary =>
      match parameter line with
      | some (paramName, value) => st.setSummary paramName value
      | none => st

end LogParser

/-- What is in a log. -/
def parseSimLog (text : List Char) : LogData :=
  ((lines text).foldl (fun st line => LogParser.step st (trim line)) LogParser.start).logData

/-! ## The table -/

/-- A log, and what its name says about it. -/
structure Simulated where
  benchmark : List Char
  processorCount : List Char
  controllerType : List Char
  log : LogData
  deriving Repr, DecidableEq

/-- `\w`. -/
def isWord (c : Char) : Bool := c.isAlphanum || c = '_'

/-- The name of a log, in `runBenchmark`. -/
def logFile (benchmark pCount ctypeStr : List Char) : List Char :=
  benchmark ++ '.' :: (pCount ++ '.' :: (ctypeStr ++ ".log".toList))

/-- `/^(\w+)\.(\d+)\.(\w+)\.log$/`. -/
def matchLogFile (log : List Char) : Option (List Char × List Char × List Char) :=
  match log.splitOn '.' with
  | [bmName, pCount, cType, ending] =>
      if bmName ≠ [] ∧ bmName.all isWord ∧ pCount ≠ [] ∧ pCount.all Char.isDigit
          ∧ cType ≠ [] ∧ cType.all isWord ∧ (ending = "log".toList ∨ ending = "log\n".toList) then
        some (bmName, pCount, cType)
      else none
  | _ => none

/-- `sort`, by a key. -/
def sortBy {α : Type} (key : α → List Char) (l : List α) : List α :=
  l.mergeSort fun a b => decide (key a ≤ key b)

/-- One log of `generateCSV`, if it is one by its name. -/
def readLog (file : List Char × List Char) : Option Simulated :=
  (matchLogFile file.1).map fun p => ⟨p.1, p.2.1, p.2.2, parseSimLog file.2⟩

/-- `$csvData`, for a directory of files with their names. -/
def csvData (directory : List (List Char × List Char)) : Hash Simulated :=
  ((sortBy Prod.fst directory).filterMap readLog).zipIdx.map fun d =>
    ("simulation_".toList ++ decimal d.2, d.1)

/-- `_getMaxProcessors`. -/
def getMaxProcessors (data : Hash Simulated) : Nat :=
  (data.flatMap fun d => d.2.log.processor.map fun e => number e.1).foldl
    (fun maxPNum pNum => if pNum > maxPNum then pNum else maxPNum) 0

def csvHeader (maxPNumValue : Nat) : List (List Char) :=
  ["Simulation".toList, "Benchmark".toList, "Controller".toList, "Threads".toList,
    "TotalMemOps".toList, "OverallAvgLatency".toList, "MemServicedReads".toList,
    "TotalHits".toList, "TotalMisses".toList, "HitRate".toList, "BusyBusCycles".toList]
  ++ (List.range (maxPNumValue + 1)).flatMap fun i =>
    [".Operations".toList, ".Latency".toList, ".StoreHits".toList, ".StoreMisses".toList,
      ".LoadHits".toList, ".LoadMisses".toList, ".HitRate".toList].map ("P".toList ++ decimal i ++ ·)

/-- The text of a value; of one that is not there it is empty. -/
def field (h : Hash (List Char)) (key : List Char) : List Char := (h.get key).getD []

/-- The columns of a processor. -/
def processorColumns (processorHash : Hash (Hash (List Char))) (i : Nat) : List (List Char) :=
  match processorHash.get (decimal i) with
  | some pDataHash =>
      ["Memory Operations".toList, "Average Latency".toList, "Store Hits".toList,
        "Store Misses".toList, "Load Hits".toList, "Load Misses".toList,
        "Cache Hit Rate".toList].map (field pDataHash)
  | none => List.replicate 7 "NA".toList

def csvRow (maxPNumValue : Nat) (simulation : List Char) (simData : Simulated) : List (List Char) :=
  [simulation, simData.benchmark, simData.controllerType, simData.processorCount]
  ++ ["Total Memory Operations".toList, "Overall Average Latency".toList,
    "Reads Serviced By Memory".toList, "Total Combined Hits".toList,
    "Total Combined Misses".toList, "Combined Hit Rate".toList,
    "Bus Busy Cycles".toList].map (field simData.log.summary)
  ++ (List.range (maxPNumValue + 1)).flatMap (processorColumns simData.log.processor)

/-- The rows of `writeCsvFile`. -/
def csvRows (data : Hash Simulated) : List (List (List Char)) :=
  csvHeader (getMaxProcessors data)
    :: (sortBy Prod.fst data).map fun d => csvRow (getMaxProcessors data) d.1 d.2

/-- The text of the table. -/
def generateCSV (directory : List (List Char × List Char)) : List Char :=
  unlines ((csvRows (csvData directory)).map fun row => [','].intercalate row)

end CoherenceSim.RunBenchmarks
