import CoherenceSim.Proof.LogRead
import Mathlib.Data.List.Perm.Basic

/-!
# The table of all simulations

The script keeps the output of every simulation in a log of its own, reads all logs of the directory
and makes a table of them. The table is read back cell by cell: it has a row for each simulation and
no other, with the statistics of that simulation, and `NA` in the columns of processors that it does
not have.
-/

namespace CoherenceSim.RunBenchmarks

open Text

/-! ## Entries of a hash -/

namespace Hash

variable {α : Type}

theorem get_of_mem {h : Hash α} (hnodup : (h.map Prod.fst).Nodup) {e : List Char × α} (he : e ∈ h) :
    h.get e.1 = some e.2 := by
  induction h with
  | nil => cases he
  | cons d h ih =>
      obtain ⟨hd, hrest⟩ := List.nodup_cons.mp hnodup
      rw [get, List.find?_cons]
      rcases List.mem_cons.mp he with rfl | he
      · simp
      · have hne : d.1 ≠ e.1 := fun h0 => hd (h0 ▸ List.mem_map_of_mem he)
        rw [decide_eq_false hne]
        exact ih hrest he

/-- The entries of the processors, by number. -/
theorem get_numbered (g : Processor → α) (processors : List Processor) : ∀ n i : Nat,
    Hash.get ((processors.zipIdx n).map fun p => (decimal p.2, g p.1)) (decimal (n + i))
      = processors[i]?.map g := by
  induction processors with
  | nil => exact fun _ _ => rfl
  | cons p processors ih =>
      intro n i
      rw [List.zipIdx_cons, List.map_cons, get, List.find?_cons]
      cases i with
      | zero =>
          rw [Nat.add_zero, decide_eq_true rfl]
          rfl
      | succ i =>
          have hne : decimal n ≠ decimal (n + (i + 1)) := fun h0 => by
            have := decimal_inj.mp h0
            omega
          rw [decide_eq_false hne, show n + (i + 1) = n + 1 + i by omega]
          exact ih (n + 1) i

end Hash

theorem map_field {h : Hash (List Char)} (hnodup : (h.map Prod.fst).Nodup) :
    (h.map Prod.fst).map (field h) = h.map Prod.snd := by
  rw [List.map_map]
  refine List.map_congr_left fun e he => ?_
  rw [Function.comp_apply, field, Hash.get_of_mem hnodup he]
  rfl

/-! ## A row -/

/-- A simulation that was run to its end, and its report. -/
structure Finished where
  benchmark : List Char
  params : Params
  maxTicks : Nat
  tickCount : Nat
  processors : List Processor
  memCount : Nat
  busyCycles : Nat
  word : benchmark ≠ [] ∧ benchmark.all isWord = true
  length : processors.length = params.numProcessors

namespace Finished

variable (fmt : DoubleFormat) (f : Finished)

/-- Its log, with the name it is given. -/
def file : List Char × List Char :=
  (logFile f.benchmark (decimal f.params.numProcessors) f.params.controllerType.text,
    unlines (parameterLines f.params f.maxTicks ++ completionLines f.tickCount
      ++ report fmt f.processors f.memCount f.busyCycles))

/-- What the script knows of it. -/
def simulated : Simulated where
  benchmark := f.benchmark
  processorCount := decimal f.params.numProcessors
  controllerType := f.params.controllerType.text
  log := reported fmt f.processors f.memCount f.busyCycles

/-- Its row in a table with the columns of `maxPNumValue + 1` processors. -/
def row (maxPNumValue : Nat) (simulation : List Char) : List (List Char) :=
  [simulation, f.benchmark, f.params.controllerType.text, decimal f.params.numProcessors]
  ++ (summaryEntries fmt f.processors f.memCount f.busyCycles).map Prod.snd
  ++ (List.range (maxPNumValue + 1)).flatMap fun i =>
    (f.processors[i]?.map fun p => (processorEntries fmt p).map Prod.snd).getD
      (List.replicate 7 "NA".toList)

theorem not_mem_benchmark {c : Char} (hc : isWord c = false) : c ∉ f.benchmark := by
  intro hmem
  rw [List.all_eq_true.mp f.word.2 c hmem] at hc
  cases hc

/-- **The name of a log is read back.** -/
theorem matchLogFile_file : matchLogFile (f.file fmt).1
    = some (f.benchmark, decimal f.params.numProcessors, f.params.controllerType.text) := by
  have htype : '.' ∉ f.params.controllerType.text ∧ f.params.controllerType.text ≠ []
      ∧ f.params.controllerType.text.all isWord = true := by
    cases f.params.controllerType <;> decide
  have hsplit : (f.file fmt).1.splitOn '.' = [f.benchmark, decimal f.params.numProcessors,
      f.params.controllerType.text, "log".toList] := by
    rw [file, logFile, show ".log".toList = '.' :: "log".toList from rfl,
      List.splitOn_append_cons_self_of_not_mem (f.not_mem_benchmark (by decide)),
      List.splitOn_append_cons_self_of_not_mem (not_mem_decimal (by decide)),
      List.splitOn_append_cons_self_of_not_mem htype.1, List.splitOn_eq_singleton (by decide)]
  rw [matchLogFile, hsplit]
  dsimp only
  rw [if_pos]
  exact ⟨f.word.1, f.word.2, decimal_ne_nil _,
    List.all_eq_true.mpr fun c hc => isDigit_of_mem_decimal hc, htype.2.1, htype.2.2, .inl rfl⟩

theorem readLog_file : readLog (f.file fmt) = some (f.simulated fmt) := by
  rw [readLog, f.matchLogFile_file fmt, Option.map_some]
  congr 1
  rw [simulated, Simulated.mk.injEq]
  exact ⟨rfl, rfl, rfl, parseSimLog_output fmt f.params f.maxTicks f.tickCount f.processors f.memCount
    f.busyCycles⟩

/-- **A row says what was reported.** -/
theorem csvRow_simulated (maxPNumValue : Nat) (simulation : List Char) :
    csvRow maxPNumValue simulation (f.simulated fmt) = f.row fmt maxPNumValue simulation := by
  have hsummary := map_field (h := summaryEntries fmt f.processors f.memCount f.busyCycles)
    labels_ok.2.2.2
  have hprocessor (p : Processor) := map_field (h := processorEntries fmt p) labels_ok.2.1
  have hcolumns (i : Nat) : processorColumns (f.simulated fmt).log.processor i
      = (f.processors[i]?.map fun p => (processorEntries fmt p).map Prod.snd).getD
        (List.replicate 7 "NA".toList) := by
    have hget := Hash.get_numbered (processorEntries fmt) f.processors 0 i
    rw [Nat.zero_add] at hget
    rw [processorColumns, show (f.simulated fmt).log.processor = f.processors.zipIdx.map fun p =>
      (decimal p.2, processorEntries fmt p.1) from rfl, hget]
    cases f.processors[i]? with
    | none => rfl
    | some p => exact hprocessor p
  rw [csvRow, row]
  refine congrArg₂ (· ++ ·) (congrArg ([_, _, _, _] ++ ·) hsummary) ?_
  exact congrArg (List.flatMap · _) (funext hcolumns)

end Finished

/-! ## The table -/

/-- A text that can be a cell. -/
def Cell (v : List Char) : Prop := ',' ∉ v ∧ '\n' ∉ v

instance (v : List Char) : Decidable (Cell v) := inferInstanceAs (Decidable (_ ∧ _))

theorem Cell.append {v w : List Char} (hv : Cell v) (hw : Cell w) : Cell (v ++ w) := by
  rw [Cell, List.mem_append, List.mem_append, not_or, not_or]
  exact ⟨⟨hv.1, hw.1⟩, hv.2, hw.2⟩

theorem Value.cell {v : List Char} (h : Value v) : Cell v := ⟨h.not_mem (by decide), h.not_mem (by decide)⟩

theorem Entries.cells {h : Hash (List Char)} (hh : Entries h) : ∀ v ∈ h.map Prod.snd, Cell v := by
  intro v hv
  obtain ⟨e, he, rfl⟩ := List.mem_map.mp hv
  exact (hh e he).2.cell

theorem Finished.cells (fmt : DoubleFormat) (f : Finished) (maxPNumValue : Nat) {simulation : List Char}
    (hs : Cell simulation) : ∀ v ∈ f.row fmt maxPNumValue simulation, Cell v := by
  have htype : Cell f.params.controllerType.text := by
    cases f.params.controllerType <;> decide
  intro v hv
  rcases List.mem_append.mp hv with hv | hv
  · rcases List.mem_append.mp hv with hv | hv
    · simp only [List.mem_cons, List.not_mem_nil, or_false] at hv
      rcases hv with rfl | rfl | rfl | rfl
      · exact hs
      · exact ⟨f.not_mem_benchmark (by decide), f.not_mem_benchmark (by decide)⟩
      · exact htype
      · exact (Value.decimal _).cell
    · exact (entries_summary fmt _ _ _).cells v hv
  · obtain ⟨i, _, hv⟩ := List.mem_flatMap.mp hv
    cases hp : f.processors[i]? with
    | none =>
        rw [hp] at hv
        rw [List.eq_of_mem_replicate hv]
        decide
    | some p =>
        rw [hp] at hv
        exact (entries_processor fmt p).cells v hv

theorem cells_csvHeader (maxPNumValue : Nat) : ∀ v ∈ csvHeader maxPNumValue, Cell v := by
  intro v hv
  rcases List.mem_append.mp hv with hv | hv
  · exact (show ∀ v ∈ ["Simulation".toList, "Benchmark".toList, "Controller".toList,
      "Threads".toList, "TotalMemOps".toList, "OverallAvgLatency".toList, "MemServicedReads".toList,
      "TotalHits".toList, "TotalMisses".toList, "HitRate".toList, "BusyBusCycles".toList], Cell v by
        decide) v hv
  · obtain ⟨i, _, hv⟩ := List.mem_flatMap.mp hv
    obtain ⟨name, hname, rfl⟩ := List.mem_map.mp hv
    have hcell : ∀ name ∈ [".Operations".toList, ".Latency".toList, ".StoreHits".toList,
        ".StoreMisses".toList, ".LoadHits".toList, ".LoadMisses".toList, ".HitRate".toList],
        Cell name := by decide
    have hp : Cell "P".toList := by decide
    exact (hp.append (Value.decimal i).cell).append (hcell name hname)

theorem mem_intercalate {c : Char} (row : List (List Char)) (hc : c ∈ [','].intercalate row) :
    c = ',' ∨ ∃ v ∈ row, c ∈ v := by
  induction row with
  | nil => cases hc
  | cons v row ih =>
      by_cases hnil : row = []
      · subst hnil
        rw [List.intercalate_singleton] at hc
        exact .inr ⟨v, List.mem_cons_self, hc⟩
      · rw [List.intercalate_cons_of_ne_nil hnil] at hc
        rcases List.mem_append.mp hc with hc | hc
        · rcases List.mem_append.mp hc with hc | hc
          · exact .inr ⟨v, List.mem_cons_self, hc⟩
          · exact .inl (List.mem_singleton.mp hc)
        · rcases ih hc with h | ⟨w, hw, h⟩
          · exact .inl h
          · exact .inr ⟨w, List.mem_cons_of_mem _ hw, h⟩

/-- **A table is read back.** -/
theorem table_read_back (rows : List (List (List Char))) (hne : ∀ row ∈ rows, row ≠ [])
    (hcells : ∀ row ∈ rows, ∀ v ∈ row, Cell v) :
    (lines (unlines (rows.map fun row => [','].intercalate row))).map (·.splitOn ',') = rows := by
  rw [lines_unlines _ fun line hline hnewline => ?_, List.map_map]
  · refine (List.map_congr_left fun row hrow => ?_).trans (List.map_id rows)
    exact List.splitOn_intercalate ',' (fun v hv => (hcells row hrow v hv).1) (hne row hrow)
  · obtain ⟨row, hrow, rfl⟩ := List.mem_map.mp hline
    rcases mem_intercalate row hnewline with h | ⟨v, hv, h⟩
    · cases h
    · exact (hcells row hrow v hv).2 h

/-! ## All simulations -/

theorem le_getMaxProcessors {data : Hash Simulated} {d : List Char × Simulated} (hd : d ∈ data)
    {e : List Char × Hash (List Char)} (he : e ∈ d.2.log.processor) :
    number e.1 ≤ getMaxProcessors data := by
  have hmax (l : List Nat) : ∀ a, a ≤ l.foldl (fun m n => if n > m then n else m) a
      ∧ ∀ n ∈ l, n ≤ l.foldl (fun m n => if n > m then n else m) a := by
    induction l with
    | nil => exact fun a => ⟨Nat.le_refl a, fun n hn => by cases hn⟩
    | cons n l ih =>
        intro a
        obtain ⟨hle, hall⟩ := ih (if n > a then n else a)
        have hstep : a ≤ (if n > a then n else a) ∧ n ≤ (if n > a then n else a) := by
          split <;> omega
        refine ⟨Nat.le_trans hstep.1 hle, fun k hk => ?_⟩
        rcases List.mem_cons.mp hk with rfl | hk
        · exact Nat.le_trans hstep.2 hle
        · exact hall k hk
  exact (hmax _ 0).2 _ (List.mem_flatMap.mpr ⟨d, hd, List.mem_map_of_mem he⟩)

theorem sortBy_perm {α : Type} (key : α → List Char) (l : List α) : (sortBy key l).Perm l :=
  List.mergeSort_perm l _

/-- A list that is another one mapped, up to its order, is another order of it mapped. -/
theorem exists_map_of_perm {α β : Type} {f : α → β} {l : List β} {r : List α}
    (h : l.Perm (r.map f)) : ∃ r' : List α, r'.Perm r ∧ l = r'.map f := by
  have hcomp : Relation.Comp (· = List.map f ·) List.Perm l r := by
    rw [List.eq_map_comp_perm]
    exact h
  obtain ⟨r', heq, hperm⟩ := hcomp
  exact ⟨r', hperm, heq⟩

/-- What the script finds in a directory: the simulations, in some order. -/
theorem readLogs (fmt : DoubleFormat) {runs : List Finished}
    {others directory : List (List Char × List Char)}
    (hdir : directory.Perm (runs.map (Finished.file fmt) ++ others))
    (hothers : ∀ file ∈ others, matchLogFile file.1 = none) :
    ∃ runs' : List Finished, runs'.Perm runs
      ∧ (sortBy Prod.fst directory).filterMap readLog = runs'.map (Finished.simulated fmt) := by
  have hall := ((sortBy_perm Prod.fst directory).trans hdir).filterMap readLog
  have hruns : (runs.map (Finished.file fmt)).filterMap readLog = runs.map (Finished.simulated fmt) := by
    rw [List.filterMap_map, ← List.filterMap_eq_map]
    exact List.filterMap_congr fun f _ => f.readLog_file fmt
  have hnone : others.filterMap readLog = [] := by
    refine List.filterMap_eq_nil_iff.mpr fun file hfile => ?_
    rw [readLog, hothers file hfile]
    rfl
  rw [List.filterMap_append, hruns, hnone, List.append_nil] at hall
  exact exists_map_of_perm hall

/-- The simulations that the script knows, in the order of their names: they are the runs, and are
named by numbers. -/
theorem exists_simulations (fmt : DoubleFormat) {runs : List Finished}
    {others directory : List (List Char × List Char)}
    (hdir : directory.Perm (runs.map (Finished.file fmt) ++ others))
    (hothers : ∀ file ∈ others, matchLogFile file.1 = none) :
    ∃ simulations : List (List Char × Finished),
      sortBy Prod.fst (csvData directory) = simulations.map (fun d => (d.1, d.2.simulated fmt))
      ∧ (simulations.map Prod.snd).Perm runs
      ∧ (simulations.map Prod.fst).Perm
        ((List.range runs.length).map fun i => "simulation_".toList ++ decimal i) := by
  obtain ⟨runs', hruns, hread⟩ := readLogs fmt hdir hothers
  let named : List (List Char × Finished) :=
    runs'.zipIdx.map fun d => ("simulation_".toList ++ decimal d.2, d.1)
  have hdata : csvData directory = named.map fun d => (d.1, d.2.simulated fmt) := by
    rw [csvData, hread, List.zipIdx_map, List.map_map, List.map_map]
    rfl
  obtain ⟨simulations, hnamed, hsorted⟩ := exists_map_of_perm
    ((sortBy_perm Prod.fst (csvData directory)).trans (.of_eq hdata))
  have hsecond : named.map Prod.snd = runs' := by
    rw [List.map_map]
    exact List.zipIdx_map_fst 0 runs'
  have hfirst : named.map Prod.fst
      = (List.range runs.length).map fun i => "simulation_".toList ++ decimal i := by
    rw [List.map_map, ← hruns.length_eq, List.range_eq_range', ← List.zipIdx_map_snd 0 runs',
      List.map_map]
    rfl
  refine ⟨simulations, hsorted, ?_, hfirst ▸ hnamed.map Prod.fst⟩
  exact ((hnamed.map Prod.snd).trans (.of_eq hsecond)).trans hruns

/-- No simulation has more processors than there are columns for. -/
theorem numProcessors_le_getMaxProcessors (fmt : DoubleFormat) {data : Hash Simulated}
    {d : List Char × Finished} (hd : (d.1, d.2.simulated fmt) ∈ data) :
    d.2.params.numProcessors ≤ getMaxProcessors data + 1 := by
  by_cases hzero : d.2.params.numProcessors = 0
  · omega
  · have hlast : d.2.processors.length - 1 < d.2.processors.length := by
      have := d.2.length
      omega
    have hnumber := le_getMaxProcessors hd (e := (decimal (d.2.processors.length - 1),
      processorEntries fmt d.2.processors[d.2.processors.length - 1])) (by
        refine List.mem_map.mpr ⟨(_, d.2.processors.length - 1), ?_, rfl⟩
        exact List.mem_zipIdx_iff_getElem?.mpr (List.getElem?_eq_getElem hlast))
    rw [number_decimal, d.2.length] at hnumber
    omega

/-- **Every simulation has its row.** From a directory with the logs of some simulations, and
otherwise with files that are no logs by their names, the script makes a table that is read back as
the header and one row for each simulation: with a name of its own, its parameters and statistics,
and a column for each of its processors. -/
theorem every_simulation_has_its_row (fmt : DoubleFormat) (runs : List Finished)
    (others directory : List (List Char × List Char))
    (hdir : directory.Perm (runs.map (Finished.file fmt) ++ others))
    (hothers : ∀ file ∈ others, matchLogFile file.1 = none) :
    ∃ (maxPNumValue : Nat) (simulations : List (List Char × Finished)),
      (lines (generateCSV directory)).map (·.splitOn ',') = csvHeader maxPNumValue
        :: simulations.map (fun d => d.2.row fmt maxPNumValue d.1)
      ∧ (simulations.map Prod.snd).Perm runs ∧ (simulations.map Prod.fst).Nodup
      ∧ ∀ f ∈ runs, f.params.numProcessors ≤ maxPNumValue + 1 := by
  obtain ⟨simulations, hsorted, hsecond, hfirst⟩ := exists_simulations fmt hdir hothers
  have hrows : csvRows (csvData directory) = csvHeader (getMaxProcessors (csvData directory))
      :: simulations.map fun d => d.2.row fmt (getMaxProcessors (csvData directory)) d.1 := by
    rw [csvRows, hsorted, List.map_map]
    refine congrArg (_ :: ·) (List.map_congr_left fun d _ => ?_)
    exact d.2.csvRow_simulated fmt _ d.1
  refine ⟨getMaxProcessors (csvData directory), simulations, ?_, hsecond, ?_, fun f hf => ?_⟩
  · rw [generateCSV, hrows]
    refine table_read_back _ (fun row hrow => ?_) fun row hrow => ?_
    · rcases List.mem_cons.mp hrow with rfl | hrow
      · exact fun h => by cases h
      · obtain ⟨d, _, rfl⟩ := List.mem_map.mp hrow
        exact fun h => by cases h
    · rcases List.mem_cons.mp hrow with rfl | hrow
      · exact cells_csvHeader _
      · obtain ⟨d, hd, rfl⟩ := List.mem_map.mp hrow
        obtain ⟨i, _, hi⟩ := List.mem_map.mp (hfirst.subset (List.mem_map_of_mem hd))
        have hsim : Cell "simulation_".toList := by decide
        refine d.2.cells fmt _ ?_
        rw [← hi]
        exact hsim.append (Value.decimal i).cell
  · rw [hfirst.nodup_iff]
    exact List.nodup_range.map fun i j hij => decimal_inj.mp (List.append_cancel_left hij)
  · obtain ⟨d, hd, rfl⟩ := List.mem_map.mp (hsecond.symm.subset hf)
    refine numProcessors_le_getMaxProcessors fmt ?_
    rw [← (sortBy_perm Prod.fst (csvData directory)).mem_iff, hsorted]
    exact List.mem_map_of_mem hd

/-- Where the simulation of `x` ends, its report is that of `f`. -/
structure FinishedBy (fmt : DoubleFormat) (x : Input) (f : Finished) : Prop where
  params : f.params = x.params
  log : ∃ m, Point x (x.maxTicks + 1) .condition m
    ∧ m.output fmt x (x.maxTicks + 1) = .ok (f.file fmt).2

/-- A finished simulation that exists because it can be computed. -/
theorem exists_finished (fmt : DoubleFormat) (x : Input) (benchmark : List Char)
    (hword : benchmark ≠ [] ∧ benchmark.all isWord = true) (l : List (List Nat))
    (hl : x.simulate.toOption.any (fun m =>
      (List.range x.params.numProcessors).map (fun i => countsAt m.system (i + 1)) = l.map some)
        = true) : ∃ f : Finished, f.benchmark = benchmark ∧ FinishedBy fmt x f
      ∧ f.processors.map counts = l := by
  obtain ⟨m, hend, hcounts⟩ := x.exists_end _ hl
  obtain ⟨h, hrun⟩ := hend.run
  obtain ⟨processors, memCount, hof, hreport⟩ :=
    reportMemoryOpStatistics_eq fmt (System.run_allFollow hrun).1
  refine ⟨⟨benchmark, x.params, x.maxTicks, x.maxTicks + 2, processors, memCount,
    m.system.interconnect.busyCycles, hword, hof.length⟩, rfl, ⟨rfl, m, hend, ?_⟩,
    hof.counts (of_decide_eq_true hcounts)⟩
  rw [Simulation.output, hreport]
  rfl

/-- One processor that stores to a line and loads it. -/
def loneLine : Input where
  params := ⟨1, .msi, 3, 2⟩
  maxTicks := 20
  files := fun _ => ⟨[.ofAddress false 0x40, .ofAddress true 0x40], true⟩
  nextaddress := 0
  nextop := 'n'

/-- A directory with the logs of two simulations and another file. The table has columns for two
processors, and the second of them is not there in one simulation. -/
theorem every_simulation_has_its_row_two_simulations :
    ∃ (f₁ f₂ : Finished) (maxPNumValue : Nat) (simulations : List (List Char × Finished)),
      FinishedBy wholeNumbers sharedLine f₁ ∧ FinishedBy wholeNumbers loneLine f₂
      ∧ f₁.processors.map counts = [[4, 16, 1, 1, 1, 1], [2, 8, 0, 1, 1, 0]]
      ∧ f₂.processors.map counts = [[2, 8, 0, 1, 1, 0]]
      ∧ (∀ simulation, "NA".toList ∈ f₂.row wholeNumbers maxPNumValue simulation)
      ∧ (lines (generateCSV [f₂.file wholeNumbers, ("README".toList, []),
          f₁.file wholeNumbers])).map (·.splitOn ',') = csvHeader maxPNumValue
        :: simulations.map (fun d => d.2.row wholeNumbers maxPNumValue d.1)
      ∧ (simulations.map Prod.snd).Perm [f₁, f₂] ∧ (simulations.map Prod.fst).Nodup
      ∧ ∀ f ∈ [f₁, f₂], f.params.numProcessors ≤ maxPNumValue + 1 := by
  obtain ⟨f₁, _, hfin₁, hcounts₁⟩ := exists_finished wholeNumbers sharedLine "dummy".toList
    (by decide) [[4, 16, 1, 1, 1, 1], [2, 8, 0, 1, 1, 0]]
    (by decide +kernel)
  obtain ⟨f₂, _, hfin₂, hcounts₂⟩ := exists_finished wholeNumbers loneLine "dummy".toList
    (by decide) [[2, 8, 0, 1, 1, 0]] (by decide +kernel)
  obtain ⟨maxPNumValue, simulations, htable, hperm, hnodup, hmax⟩ :=
    every_simulation_has_its_row wholeNumbers [f₁, f₂] [("README".toList, [])]
      [f₂.file wholeNumbers, ("README".toList, []), f₁.file wholeNumbers]
      (((List.Perm.swap _ _ _).cons _).trans (.swap _ _ _)) (by decide)
  refine ⟨f₁, f₂, maxPNumValue, simulations, hfin₁, hfin₂, hcounts₁, hcounts₂, fun simulation => ?_,
    htable, hperm, hnodup, hmax⟩
  have hcolumns : 2 ≤ maxPNumValue + 1 := by
    have hmax₁ := hmax f₁ List.mem_cons_self
    rwa [hfin₁.params] at hmax₁
  have hnone : f₂.processors[1]? = none :=
    List.getElem?_eq_none (by rw [f₂.length, hfin₂.params]; decide)
  refine List.mem_append_right _ (List.mem_flatMap.mpr ⟨1, List.mem_range.mpr (by omega), ?_⟩)
  rw [hnone]
  decide

end CoherenceSim.RunBenchmarks
