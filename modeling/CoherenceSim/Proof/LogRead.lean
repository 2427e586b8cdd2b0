import CoherenceSim.Model.Report
import CoherenceSim.Model.RunBenchmarks
import CoherenceSim.Proof.Traces

/-!
# The script reads what the simulator prints

The simulator prints a label, a colon and a value on each line of its report, and the script takes
the line apart at its last colon. No value has a colon, or the `P` of `Processor`, and so every line
is read as what it is; and the counts, averages and rates of every processor end up under its number
and their labels.
-/

namespace CoherenceSim.RunBenchmarks

open Text

/-! ## Values -/

/-- A character of a value: of a number, or the sign of a rate. -/
def isValueChar (c : Char) : Bool := isDoubleChar c || c = '%'

/-- A value that is read back. -/
structure Value (v : List Char) : Prop where
  ne_nil : v ≠ []
  chars : ∀ c ∈ v, isValueChar c = true

namespace Value

variable {v : List Char}

theorem not_mem (h : Value v) {c : Char} (hc : isValueChar c = false) : c ∉ v := by
  intro hmem
  rw [h.chars c hmem] at hc
  cases hc

/-- A value is one word. -/
theorem tight (h : Value v) : Tight v := by
  refine .of_not_isSpace h.ne_nil fun c hc => ?_
  cases hs : isSpace c with
  | false => rfl
  | true =>
      exfalso
      simp only [isSpace, Bool.or_eq_true, Bool.and_eq_true, decide_eq_true_eq] at hs
      rcases hs with rfl | hs
      · exact h.not_mem (by decide) hc
      · have hsigns : ∀ d ∈ ".e+-inaf%".toList, 13 < d.toNat := by simp
        rcases Bool.or_eq_true_iff.mp (h.chars c hc) with hdouble | hpercent
        · rcases Bool.or_eq_true_iff.mp hdouble with hdigit | hsign
          · have hrange : 48 ≤ c.toNat ∧ c.toNat ≤ 57 := by
              simpa [Char.isDigit, UInt32.le_iff_toNat_le] using hdigit
            omega
          · have := hsigns c (List.mem_append_left ['%'] (List.contains_iff_mem.mp hsign))
            omega
        · have := hsigns c (by rw [of_decide_eq_true hpercent]; decide)
          omega

theorem of_double (hne : v ≠ []) (hv : ∀ c ∈ v, isDoubleChar c = true) : Value v :=
  ⟨hne, fun c hc => by rw [isValueChar, hv c hc]; rfl⟩

theorem decimal (n : Nat) : Value (decimal n) :=
  of_double (decimal_ne_nil n) fun c hc => by
    rw [isDoubleChar, isDigit_of_mem_decimal hc]
    rfl

theorem percent (h : Value v) : Value (v ++ ['%']) := by
  refine ⟨List.append_ne_nil_of_left_ne_nil h.ne_nil _, fun c hc => ?_⟩
  rcases List.mem_append.mp hc with hc | hc
  · exact h.chars c hc
  · rw [List.mem_singleton.mp hc]
    rfl

end Value

/-! ## Lines of the report -/

/-- A label of the report, without the spaces behind it. -/
structure Label (name : List Char) : Prop where
  tight : Tight name
  chars : 'P' ∉ name ∧ '\n' ∉ name

instance (name : List Char) : Decidable (Label name) :=
  decidable_of_iff (Tight name ∧ 'P' ∉ name ∧ '\n' ∉ name) ⟨fun h => ⟨h.1, h.2⟩, fun h => ⟨h.1, h.2⟩⟩

/-- The lines of these entries, with so many spaces behind their labels. -/
def entryLines (entries : Hash (List Char)) (pads : List Nat) : List (List Char) :=
  List.zipWith (fun e pad => reportLine (e.1 ++ List.replicate pad ' ') e.2) entries pads

/-- Entries that are read back. -/
def Entries (entries : Hash (List Char)) : Prop := ∀ e ∈ entries, Label e.1 ∧ Value e.2

section

variable {name v : List Char}

theorem trim_reportLine (hname : Label name) (hv : Value v) (pad : Nat) :
    trim (reportLine (name ++ List.replicate pad ' ') v)
      = (name ++ List.replicate pad ' ') ++ ':' :: ' ' :: v := by
  have htight := hname.tight.append (t := List.replicate pad ' ' ++ ": ".toList) hv.tight
  have htrim := trim_spaces htight 4 0
  rw [List.replicate_zero, List.append_nil] at htrim
  have hline : reportLine (name ++ List.replicate pad ' ') v
      = List.replicate 4 ' ' ++ (name ++ (List.replicate pad ' ' ++ ": ".toList) ++ v) := by
    simp [reportLine]
  rw [hline, htrim]
  simp

/-- **A line of the report is read back.** -/
theorem parameter_reportLine (hname : Label name) (hv : Value v) (pad : Nat) :
    LogParser.parameter (trim (reportLine (name ++ List.replicate pad ' ') v)) = some (name, v) := by
  have hne : name ++ List.replicate pad ' ' ≠ [] := by
    obtain ⟨c, hc, _⟩ := hname.tight.head
    intro h0
    rw [(List.append_eq_nil_iff.mp h0).1] at hc
    cases hc
  have hcolon : ':' ∉ ' ' :: v := by
    intro h0
    rcases List.mem_cons.mp h0 with h0 | h0
    · cases h0
    · exact hv.not_mem (by decide) h0
  have hlabel := trim_spaces hname.tight 0 pad
  have hvalue := trim_spaces hv.tight 1 0
  rw [List.replicate_zero, List.nil_append] at hlabel
  rw [List.replicate_zero, List.append_nil] at hvalue
  rw [LogParser.parameter, trim_reportLine hname hv, splitAtColon_eq hne (List.cons_ne_nil _ _) hcolon,
    Option.map_some, hlabel]
  exact congrArg (fun u => some (name, u)) hvalue

theorem processorLine_reportLine (hname : Label name) (hv : Value v) (pad : Nat) :
    LogParser.processorLine (trim (reportLine (name ++ List.replicate pad ' ') v)) = none := by
  rw [trim_reportLine hname hv]
  refine searchNumber_eq_none (c := 'P') (by decide) fun h0 => ?_
  rcases List.mem_append.mp h0 with h0 | h0
  · rcases List.mem_append.mp h0 with h0 | h0
    · exact hname.chars.1 h0
    · cases List.eq_of_mem_replicate h0
  · rcases List.mem_cons.mp h0 with h0 | h0
    · cases h0
    · rcases List.mem_cons.mp h0 with h0 | h0
      · cases h0
      · exact hv.not_mem (by decide) h0

end

/-! ## Entries -/

namespace Hash

variable {α : Type}

theorem set_append {h t : Hash α} {key : List Char} (hkey : key ∉ h.map Prod.fst) (value : α) :
    (h ++ t).set key value = h ++ Hash.set t key value := by
  induction h with
  | nil => rfl
  | cons e h ih =>
      rw [List.map_cons, List.mem_cons, not_or] at hkey
      rw [List.cons_append, set, if_neg (Ne.symm hkey.1), ih hkey.2]
      rfl

theorem get_append {h t : Hash α} {key : List Char} (hkey : key ∉ h.map Prod.fst) :
    (h ++ t).get key = Hash.get t key := by
  rw [get, get, List.find?_append, List.find?_eq_none.mpr]
  · rfl
  · intro e he h0
    exact hkey (of_decide_eq_true h0 ▸ List.mem_map_of_mem he)

end Hash

namespace LogParser

/-- Among the lines of a processor, of which these entries were read. -/
def inProcessor (simCycles : List Char) (done : Hash (Hash (List Char))) (i : Nat)
    (entries : Hash (List Char)) : LogParser where
  state := .processor
  processorNumber := decimal i
  simCycles := simCycles
  logData := ⟨done ++ if entries = [] then [] else [(decimal i, entries)], []⟩

/-- Among the lines of the summary, of which these entries were read. -/
def inSummary (processorNumber simCycles : List Char) (processor : Hash (Hash (List Char)))
    (entries : Hash (List Char)) : LogParser where
  state := .summary
  processorNumber := processorNumber
  simCycles := simCycles
  logData := ⟨processor, entries⟩

/-- The lines of the log, from here on. -/
def readLines (st : LogParser) (l : List (List Char)) : LogParser :=
  l.foldl (fun st line => LogParser.step st (trim line)) st

theorem readLines_append (st : LogParser) (l l' : List (List Char)) :
    st.readLines (l ++ l') = (st.readLines l).readLines l' := List.foldl_append

theorem readLines_cons (st : LogParser) (line : List Char) (l : List (List Char)) :
    st.readLines (line :: l) = (st.step (trim line)).readLines l := rfl

/-- **Entries are read back**, one by one. -/
theorem readLines_entryLines {st : Hash (List Char) → LogParser}
    (hstep : ∀ before name v pad, Label name → Value v → name ∉ before.map Prod.fst →
      (st before).step (trim (reportLine (name ++ List.replicate pad ' ') v))
        = st (before ++ [(name, v)])) (entries : Hash (List Char)) :
    ∀ (pads : List Nat) (before : Hash (List Char)), entries.length = pads.length → Entries entries →
      ((before ++ entries).map Prod.fst).Nodup →
      (st before).readLines (entryLines entries pads) = st (before ++ entries) := by
  induction entries with
  | nil =>
      intro pads before _ _ _
      rw [List.append_nil]
      rfl
  | cons e entries ih =>
      intro pads before hlen hentries hnodup
      cases pads with
      | nil => cases hlen
      | cons pad pads =>
          obtain ⟨hname, hv⟩ := hentries e List.mem_cons_self
          have hkey : e.1 ∉ before.map Prod.fst := by
            rw [List.map_append, List.map_cons] at hnodup
            exact fun h0 => (List.nodup_append.mp hnodup).2.2 _ h0 _ List.mem_cons_self rfl
          have hrest := ih pads (before ++ [e]) (Nat.succ.inj hlen)
            (fun e' he' => hentries e' (List.mem_cons_of_mem _ he')) (by
              rw [List.append_assoc]
              exact hnodup)
          rw [List.append_assoc] at hrest
          rw [entryLines, List.zipWith_cons_cons, readLines_cons, hstep before e.1 e.2 pad hname hv hkey]
          exact hrest

theorem set_new {before : Hash (List Char)} {name : List Char} (hkey : name ∉ before.map Prod.fst)
    (v : List Char) : before.set name v = before ++ [(name, v)] := by
  have h := Hash.set_append (t := []) hkey v
  rw [List.append_nil] at h
  exact h

theorem step_inProcessor (simCycles : List Char) {done : Hash (Hash (List Char))} {i : Nat}
    (hi : decimal i ∉ done.map Prod.fst) (before : Hash (List Char))
    (name v : List Char) (pad : Nat) (hname : Label name) (hv : Value v)
    (hkey : name ∉ before.map Prod.fst) : (inProcessor simCycles done i before).step
        (trim (reportLine (name ++ List.replicate pad ' ') v))
      = inProcessor simCycles done i (before ++ [(name, v)]) := by
  rw [step]
  dsimp only [inProcessor]
  rw [processorLine_reportLine hname hv, parameter_reportLine hname hv]
  dsimp only [setProcessor]
  rw [Hash.get_append hi, Hash.set_append hi]
  by_cases hnil : before = []
  · subst hnil
    rfl
  · rw [if_neg hnil, if_neg (List.append_ne_nil_of_left_ne_nil hnil _)]
    simp [Hash.get, Hash.set, set_new hkey]

theorem step_inSummary (processorNumber simCycles : List Char) (done : Hash (Hash (List Char)))
    (before : Hash (List Char)) (name v : List Char) (pad : Nat) (hname : Label name) (hv : Value v)
    (hkey : name ∉ before.map Prod.fst) :
    (inSummary processorNumber simCycles done before).step
        (trim (reportLine (name ++ List.replicate pad ' ') v))
      = inSummary processorNumber simCycles done (before ++ [(name, v)]) := by
  rw [step]
  dsimp only [inSummary]
  rw [parameter_reportLine hname hv]
  dsimp only [setSummary]
  rw [set_new hkey]

end LogParser

/-! ## Logs -/

variable (fmt : DoubleFormat)

/-- What is reported of a processor. -/
def processorEntries (p : Processor) : Hash (List Char) :=
  [("Memory Operations".toList, decimal p.getTotalMemoryOps),
    ("Average Latency".toList, p.getAverageMemoryLatency fmt),
    ("Store Hits".toList, decimal p.getStoreHits),
    ("Store Misses".toList, decimal p.getStoreMisses),
    ("Load Hits".toList, decimal p.getLoadHits),
    ("Load Misses".toList, decimal p.getLoadMisses),
    ("Cache Hit Rate".toList, fmt.percentage (p.getStoreHits + p.getLoadHits)
      (p.getStoreHits + p.getStoreMisses + p.getLoadHits + p.getLoadMisses) ++ ['%'])]

/-- What is reported of them all. -/
def summaryEntries (processors : List Processor) (memCount busyCycles : Nat) : Hash (List Char) :=
  let sum := (processors.map Processor.getTotalMemoryOps).sum
  let totalHits := (processors.map Processor.hits).sum
  let totalMisses := (processors.map Processor.misses).sum
  [("Total Memory Operations".toList, decimal sum),
    ("Overall Average Latency".toList,
      fmt.mean (processors.map fun p => (p.totalWaitCycles, p.getTotalMemoryOps)) sum),
    ("Reads Serviced By Memory".toList, decimal memCount),
    ("Total Combined Hits".toList, decimal totalHits),
    ("Total Combined Misses".toList, decimal totalMisses),
    ("Combined Hit Rate".toList, fmt.percentage totalHits (totalHits + totalMisses) ++ ['%']),
    ("Bus Busy Cycles".toList, decimal busyCycles)]

/-- What is reported. -/
def reported (processors : List Processor) (memCount busyCycles : Nat) : LogData where
  processor := processors.zipIdx.map fun p => (decimal p.2, processorEntries fmt p.1)
  summary := summaryEntries fmt processors memCount busyCycles

/-- The labels of a processor. -/
def processorLabels : List (List Char) :=
  ["Memory Operations".toList, "Average Latency".toList, "Store Hits".toList, "Store Misses".toList,
    "Load Hits".toList, "Load Misses".toList, "Cache Hit Rate".toList]

/-- The labels of the summary. -/
def summaryLabels : List (List Char) :=
  ["Total Memory Operations".toList, "Overall Average Latency".toList,
    "Reads Serviced By Memory".toList, "Total Combined Hits".toList,
    "Total Combined Misses".toList, "Combined Hit Rate".toList, "Bus Busy Cycles".toList]

theorem labels_ok : (∀ name ∈ processorLabels, Label name) ∧ processorLabels.Nodup
    ∧ (∀ name ∈ summaryLabels, Label name) ∧ summaryLabels.Nodup := by
  decide

theorem entries_of {entries : Hash (List Char)} (hlabels : ∀ name ∈ entries.map Prod.fst, Label name)
    (hvalues : ∀ v ∈ entries.map Prod.snd, Value v) : Entries entries :=
  fun _ he => ⟨hlabels _ (List.mem_map_of_mem he), hvalues _ (List.mem_map_of_mem he)⟩

theorem value_percentage (a b : Nat) : Value (fmt.percentage a b ++ ['%']) :=
  (Value.of_double (fmt.percentage_ne_nil a b) (fmt.percentage_chars a b)).percent

theorem entries_processor (p : Processor) : Entries (processorEntries fmt p) := by
  have hquotient : Value (p.getAverageMemoryLatency fmt) :=
    .of_double (fmt.quotient_ne_nil _ _) (fmt.quotient_chars _ _)
  refine entries_of labels_ok.1 ?_
  simp only [processorEntries, List.map_cons, List.map_nil, List.forall_mem_cons]
  exact ⟨.decimal _, hquotient, .decimal _, .decimal _, .decimal _, .decimal _, value_percentage fmt _ _,
    fun _ h => by cases h⟩

theorem entries_summary (processors : List Processor) (memCount busyCycles : Nat) :
    Entries (summaryEntries fmt processors memCount busyCycles) := by
  have hmean (l : List (Nat × Nat)) (a : Nat) : Value (fmt.mean l a) :=
    .of_double (fmt.mean_ne_nil l a) (fmt.mean_chars l a)
  refine entries_of labels_ok.2.2.1 ?_
  simp only [summaryEntries, List.map_cons, List.map_nil, List.forall_mem_cons]
  exact ⟨.decimal _, hmean _ _, .decimal _, .decimal _, .decimal _, value_percentage fmt _ _, .decimal _,
    fun _ h => by cases h⟩

theorem processorReport_eq (i : Nat) (p : Processor) : processorReport fmt i p
    = ("Processor ".toList ++ decimal i ++ ":".toList)
      :: entryLines (processorEntries fmt p) [0, 2, 7, 5, 8, 6, 3] := rfl

theorem summaryReport_eq (processors : List Processor) (memCount busyCycles : Nat) :
    summaryReport fmt processors memCount busyCycles = [] :: "Summary:".toList
      :: entryLines (summaryEntries fmt processors memCount busyCycles) [1, 1, 0, 5, 3, 7, 9] := rfl

namespace LogParser

/-- Where a processor may begin: `processor` so far, and no summary. -/
structure AtProcessor (processor : Hash (Hash (List Char))) (st : LogParser) : Prop where
  state : st.state = .idle ∨ st.state = .processor
  logData : st.logData = ⟨processor, []⟩

variable {st : LogParser} {processor : Hash (Hash (List Char))}

/-- The line with the number of a processor. -/
theorem AtProcessor.begin (h : AtProcessor processor st) (i : Nat) :
    st.step (trim ("Processor ".toList ++ decimal i ++ ":".toList))
      = inProcessor st.simCycles processor i [] := by
  have htight : Tight ("Processor ".toList ++ decimal i ++ ":".toList) := by
    have h₁ : Tight "P".toList := by decide
    have h₂ : Tight ":".toList := by decide
    exact h₁.append (t := "rocessor ".toList ++ decimal i) h₂
  have hmatch := searchNumber_decimal "Processor ".toList ":".toList i [] ⟨':', rfl, by decide⟩
  rw [List.append_nil] at hmatch
  obtain ⟨state, number, cycles, data⟩ := st
  obtain ⟨hstate, hdata⟩ := h
  dsimp only at hstate hdata
  subst hdata
  rw [trim_tight htight]
  rcases hstate with rfl | rfl
  · rw [step]
    dsimp only
    rw [processorLine, hmatch]
    simp [inProcessor]
  · rw [step]
    dsimp only
    rw [processorLine, hmatch]
    simp [inProcessor]

/-- **All processors are read back.** -/
theorem AtProcessor.readLines (processors : List Processor) : ∀ {n : Nat} {st : LogParser}
    {processor : Hash (Hash (List Char))}, AtProcessor processor st →
      (∀ i, n ≤ i → decimal i ∉ processor.map Prod.fst) →
      AtProcessor
        (processor ++ (processors.zipIdx n).map fun p => (decimal p.2, processorEntries fmt p.1))
        (st.readLines ((processors.zipIdx n).flatMap fun p => processorReport fmt p.2 p.1)) := by
  induction processors with
  | nil =>
      intro n st processor h _
      rw [List.zipIdx_nil, List.map_nil, List.append_nil]
      exact h
  | cons p processors ih =>
      intro n st processor h hnew
      have hentries := readLines_entryLines (step_inProcessor st.simCycles (hnew n (Nat.le_refl n)))
        (processorEntries fmt p) [0, 2, 7, 5, 8, 6, 3] [] rfl
        (entries_processor fmt p) labels_ok.2.1
      have hat : AtProcessor (processor ++ [(decimal n, processorEntries fmt p)])
          (inProcessor st.simCycles processor n ([] ++ processorEntries fmt p)) := ⟨.inr rfl, rfl⟩
      have hrest := ih hat (n := n + 1) fun i hi h0 => by
        rw [List.map_append, List.mem_append] at h0
        rcases h0 with h0 | h0
        · exact hnew i (by omega) h0
        · have := decimal_inj.mp (List.mem_singleton.mp h0)
          omega
      rw [List.zipIdx_cons, List.flatMap_cons, processorReport_eq, List.cons_append, readLines_cons,
        h.begin, readLines_append, hentries, List.map_cons]
      rw [List.append_assoc] at hrest
      exact hrest

/-- The summary is read back. -/
theorem AtProcessor.summary (h : AtProcessor processor st) (processors : List Processor)
    (memCount busyCycles : Nat) :
    (st.readLines (summaryReport fmt processors memCount busyCycles)).logData
      = ⟨processor, summaryEntries fmt processors memCount busyCycles⟩ := by
  have hbegin : (st.step (trim [])).step (trim "Summary:".toList)
      = inSummary st.processorNumber st.simCycles processor [] := by
    obtain ⟨state, number, cycles, data⟩ := st
    obtain ⟨hstate, hdata⟩ := h
    dsimp only at hstate hdata
    subst hdata
    rcases hstate with rfl | rfl <;> rfl
  have hentries := readLines_entryLines (step_inSummary st.processorNumber st.simCycles processor)
    (summaryEntries fmt processors memCount busyCycles) [1, 1, 0, 5, 3, 7, 9] [] rfl
    (entries_summary fmt processors memCount busyCycles) labels_ok.2.2.2
  rw [summaryReport_eq, readLines_cons, readLines_cons, hbegin, hentries]
  rfl

/-- Nothing is read before the line that says that the simulation is completed. -/
theorem readLines_skip {l : List (List Char)} (hl : ∀ line ∈ l, 'd' ∉ line)
    (hst : st.state = .idleNC) : st.readLines l = st := by
  induction l with
  | nil => rfl
  | cons line l ih =>
      have hstep : st.step (trim line) = st := by
        rw [step, hst]
        dsimp only
        rw [searchNumber_eq_none (c := 'd') (by decide) fun h0 =>
          hl line List.mem_cons_self (mem_of_mem_trim h0)]
      rw [readLines_cons, hstep]
      exact ih fun line' h => hl line' (List.mem_cons_of_mem _ h)

end LogParser

/-! ## The whole output -/

theorem not_mem_rule {c : Char} (hc : c ≠ '#') : c ∉ rule :=
  fun h => hc (List.eq_of_mem_replicate h)

theorem parameterLines_chars (ps : Params) (maxTicks : Nat) :
    ∀ line ∈ parameterLines ps maxTicks, 'd' ∉ line ∧ '\n' ∉ line := by
  have hlabelled (label : List Char) (n : Nat) (h : 'd' ∉ label ∧ '\n' ∉ label) :
      'd' ∉ label ++ decimal n ∧ '\n' ∉ label ++ decimal n := by
    rw [List.mem_append, List.mem_append, not_or, not_or]
    exact ⟨⟨h.1, not_mem_decimal (by decide)⟩, h.2, not_mem_decimal (by decide)⟩
  intro line hline
  simp only [parameterLines, List.mem_cons, List.not_mem_nil, or_false] at hline
  rcases hline with rfl | rfl | rfl | rfl | rfl | rfl | rfl | rfl
  · decide
  · exact hlabelled _ _ (by decide)
  · cases ps.controllerType <;> decide
  · exact hlabelled _ _ (by decide)
  · exact hlabelled _ _ (by decide)
  · exact hlabelled _ _ (by decide)
  · exact ⟨not_mem_rule (by decide), not_mem_rule (by decide)⟩
  · exact ⟨List.not_mem_nil, List.not_mem_nil⟩

theorem completionLines_chars (tickCount : Nat) :
    ∀ line ∈ completionLines tickCount, '\n' ∉ line := by
  intro line hline
  simp only [completionLines, List.mem_cons, List.not_mem_nil, or_false] at hline
  rcases hline with rfl | rfl | rfl
  · exact not_mem_rule (by decide)
  · exact List.not_mem_nil
  · rw [List.mem_append, List.mem_append, not_or, not_or]
    exact ⟨⟨by decide, not_mem_decimal (by decide)⟩, by decide⟩

theorem entryLines_chars {entries : Hash (List Char)} (hentries : Entries entries) (pads : List Nat) :
    ∀ line ∈ entryLines entries pads, '\n' ∉ line := by
  intro line hline hnewline
  obtain ⟨e, pad, he, rfl⟩ : ∃ e pad, e ∈ entries
      ∧ reportLine (e.1 ++ List.replicate pad ' ') e.2 = line := by
    rw [entryLines, ← List.map_uncurry_zip_eq_zipWith] at hline
    obtain ⟨p, hp, rfl⟩ := List.mem_map.mp hline
    exact ⟨p.1, p.2, (List.of_mem_zip hp).1, rfl⟩
  obtain ⟨hname, hv⟩ := hentries e he
  simp only [reportLine, List.mem_append] at hnewline
  rcases hnewline with ((h | h | h) | h) | h
  · exact absurd h (by decide)
  · exact hname.chars.2 h
  · cases List.eq_of_mem_replicate h
  · exact absurd h (by decide)
  · exact hv.not_mem (by decide) h

theorem report_chars (processors : List Processor) (memCount busyCycles : Nat) :
    ∀ line ∈ report fmt processors memCount busyCycles, '\n' ∉ line := by
  intro line hline
  rcases List.mem_append.mp hline with hline | hline
  · obtain ⟨p, _, hline⟩ := List.mem_flatMap.mp hline
    rw [processorReport_eq] at hline
    rcases List.mem_cons.mp hline with rfl | hline
    · rw [List.mem_append, List.mem_append, not_or, not_or]
      exact ⟨⟨by decide, not_mem_decimal (by decide)⟩, by decide⟩
    · exact entryLines_chars (entries_processor fmt p.1) _ line hline
  · rw [summaryReport_eq] at hline
    rcases List.mem_cons.mp hline with rfl | hline
    · exact List.not_mem_nil
    · rcases List.mem_cons.mp hline with rfl | hline
      · decide
      · exact entryLines_chars (entries_summary fmt _ _ _) _ line hline

/-- **An output is read back.** -/
theorem parseSimLog_output (ps : Params) (maxTicks tickCount : Nat) (processors : List Processor)
    (memCount busyCycles : Nat) :
    parseSimLog (unlines (parameterLines ps maxTicks ++ completionLines tickCount
      ++ report fmt processors memCount busyCycles)) = reported fmt processors memCount busyCycles := by
  have hlines : ∀ line ∈ parameterLines ps maxTicks ++ completionLines tickCount
      ++ report fmt processors memCount busyCycles, '\n' ∉ line := by
    intro line hline
    rcases List.mem_append.mp hline with hline | hline
    · rcases List.mem_append.mp hline with hline | hline
      · exact (parameterLines_chars ps maxTicks line hline).2
      · exact completionLines_chars tickCount line hline
    · exact report_chars fmt processors memCount busyCycles line hline
  have hcompleted : LogParser.AtProcessor [] (LogParser.start.readLines (completionLines tickCount)) := by
    have htight : Tight ("Simulation completed with ".toList ++ decimal tickCount
        ++ " simulation cycles.".toList) := by
      have h₁ : Tight "S".toList := by decide
      have h₂ : Tight ".".toList := by decide
      have h := h₁.append (t := "imulation completed with ".toList ++ decimal tickCount
        ++ " simulation cycles".toList) h₂
      rw [← List.append_assoc, ← List.append_assoc, List.append_assoc _ _ ".".toList] at h
      exact h
    have hmatch := searchNumber_decimal "Simulation completed with ".toList
      " simulation cycles".toList tickCount ".".toList ⟨' ', rfl, by decide⟩
    have hskip : LogParser.start.readLines [rule, []] = .start := by
      refine LogParser.readLines_skip (fun line hline => ?_) rfl
      rcases List.mem_cons.mp hline with rfl | hline
      · exact not_mem_rule (by decide)
      · rw [List.mem_singleton.mp hline]
        exact List.not_mem_nil
    rw [completionLines, show ∀ line, [rule, [], line] = [rule, []] ++ [line] from fun _ => rfl,
      LogParser.readLines_append, hskip, LogParser.readLines_cons, trim_tight htight]
    have hstep : LogParser.start.step ("Simulation completed with ".toList ++ decimal tickCount
        ++ " simulation cycles.".toList)
        = { LogParser.start with simCycles := decimal tickCount, state := .idle } := by
      rw [LogParser.step]
      dsimp only [LogParser.start]
      rw [show " simulation cycles.".toList = " simulation cycles".toList ++ ".".toList from rfl, hmatch]
    rw [hstep]
    exact ⟨.inl rfl, rfl⟩
  have hall := LogParser.AtProcessor.readLines fmt processors (n := 0) hcompleted
    fun _ _ => List.not_mem_nil
  have hdata := hall.summary fmt processors memCount busyCycles
  rw [parseSimLog, lines_unlines _ hlines]
  change (LogParser.start.readLines _).logData = _
  rw [report, LogParser.readLines_append, LogParser.readLines_append, LogParser.readLines_append,
    LogParser.readLines_skip (fun line h => (parameterLines_chars ps maxTicks line h).1) rfl, hdata]
  rfl

/-- The processors and the counters that a report is made of. -/
structure ReportedOf (n : Nat) (s : System) (processors : List Processor) (memCount : Nat) : Prop where
  length : processors.length = n
  processor : ∀ i p, processors[i]? = some p →
    s.interconnect.nodeAt (i + 1) = some (.processor p)
  memory : ∃ memory, s.interconnect.nodeAt (n + 1) = some (.memory memory)
    ∧ memory.memSendCounts = memCount

theorem reportMemoryOpStatistics_eq {ps : Params} {Q : Instruction → Prop} {s : System}
    (hok : s.Ok ps Q) : ∃ processors memCount, ReportedOf ps.numProcessors s processors memCount
      ∧ s.reportMemoryOpStatistics fmt
        = .ok (report fmt processors memCount s.interconnect.busyCycles) := by
  obtain ⟨processors, hmap, hlen, hall⟩ := Outcome.mapM_eq_ok (f := s.getProcessor)
    (l := s.processors) fun a ha => by
      rw [hok.processors, List.mem_map] at ha
      obtain ⟨i, hi, rfl⟩ := ha
      have hi := List.mem_range.mp hi
      obtain ⟨p, hp, _⟩ := hok.valid.processor (a := i + 1) (by omega) (by omega)
      exact ⟨p, System.getProcessor_eq hp⟩
  obtain ⟨memory, hmemory, _⟩ := hok.valid.memory
  rw [hok.processors, List.length_map, List.length_range] at hlen
  refine ⟨processors, memory.getMemCount, ⟨hlen, fun i p hp => ?_, memory, hmemory, rfl⟩, ?_⟩
  · have hi : i < ps.numProcessors := by
      rw [← hlen]
      exact (List.getElem?_eq_some_iff.mp hp).1
    obtain ⟨p', hp', hget⟩ := hall i (i + 1) (by rw [hok.processors]; simp [hi])
    rw [hp] at hp'
    cases hp'
    obtain ⟨q, hq, _⟩ := hok.valid.processor (a := i + 1) (by omega) (by omega)
    rw [System.getProcessor_eq hq] at hget
    cases hget
    exact hq
  · rw [System.reportMemoryOpStatistics, hmap, Outcome.ok_bind,
      System.getMemory_eq (by rw [hok.memory]; exact hmemory)]
    rfl

/-- **The statistics of a simulation are read back from its output.** Wherever the loop is left,
the simulator prints its report without a fault, and the script finds in it, under the number of
every processor and under their labels, the counters of that processor, and in the summary the
totals and the counters of memory and bus; nothing else, and nothing twice. -/
theorem statistics_are_read_back (fmt : DoubleFormat) (x : Input) (tickCount : Nat) (m : Simulation)
    (hpoint : Point x tickCount .condition m) :
    ∃ processors memCount text, ReportedOf x.params.numProcessors m.system processors memCount
      ∧ m.output fmt x tickCount = .ok text
      ∧ parseSimLog text = reported fmt processors memCount m.system.interconnect.busyCycles := by
  obtain ⟨h, hrun⟩ := hpoint.run
  obtain ⟨processors, memCount, hof, hreport⟩ :=
    reportMemoryOpStatistics_eq fmt (System.run_allFollow hrun).1
  refine ⟨processors, memCount, _, hof, ?_, parseSimLog_output fmt x.params x.maxTicks
    (tickCount + 1) processors memCount m.system.interconnect.busyCycles⟩
  rw [Simulation.output, hreport]
  rfl

/-- A quotient that is a whole number, or `-nan`. -/
def wholeQuotient (a b : Nat) : List Char := if b = 0 then "-nan".toList else decimal (a / b)

theorem wholeQuotient_ne_nil (a b : Nat) : wholeQuotient a b ≠ [] := by
  rw [wholeQuotient]
  split
  · decide
  · exact decimal_ne_nil _

theorem wholeQuotient_chars (a b : Nat) : ∀ c ∈ wholeQuotient a b, isDoubleChar c = true := by
  rw [wholeQuotient]
  split
  · exact List.all_eq_true.mp (by decide)
  · intro c hc
    rw [isDoubleChar, isDigit_of_mem_decimal hc]
    rfl

/-- The doubles of a simulation in which there is nothing to divide, or nothing left over. -/
def wholeNumbers : DoubleFormat where
  quotient := wholeQuotient
  percentage hits := wholeQuotient (100 * hits)
  mean l sum := wholeQuotient (l.map Prod.fst).sum (max sum 1)
  quotient_ne_nil := wholeQuotient_ne_nil
  quotient_chars := wholeQuotient_chars
  percentage_ne_nil hits := wholeQuotient_ne_nil (100 * hits)
  percentage_chars hits := wholeQuotient_chars (100 * hits)
  mean_ne_nil l sum := wholeQuotient_ne_nil (l.map Prod.fst).sum (max sum 1)
  mean_chars l sum := wholeQuotient_chars (l.map Prod.fst).sum (max sum 1)

/-- What is counted at a processor: its operations, the cycles it waited, hits and misses. -/
def counts (p : Processor) : List Nat :=
  [p.getTotalMemoryOps, p.totalWaitCycles, p.getStoreHits, p.getStoreMisses, p.getLoadHits,
    p.getLoadMisses]

def countsAt (s : System) (a : Nat) : Option (List Nat) :=
  match s.interconnect.nodeAt a with
  | some (.processor p) => some (counts p)
  | _ => none

theorem ReportedOf.counts {n memCount : Nat} {s : System} {processors : List Processor}
    (hof : ReportedOf n s processors memCount) {l : List (List Nat)}
    (hl : (List.range n).map (fun i => countsAt s (i + 1)) = l.map some) :
    processors.map RunBenchmarks.counts = l := by
  refine List.map_injective_iff.mpr (Option.some_injective _) (Eq.trans ?_ hl)
  refine List.ext_getElem (by simp [hof.length]) fun i hi _ => ?_
  have hi : i < processors.length := by simpa using hi
  have hp := hof.processor i processors[i] (List.getElem?_eq_getElem hi)
  simp [countsAt, hp]

/-- Two processors: the first stores to line `0x40`, loads it again, and loads and stores line
`0x80`, to which the second stores before it loads it. -/
def sharedLine : Input where
  params := ⟨2, .mesi, 3, 2⟩
  maxTicks := 30
  files := fun i => ⟨if i = 0 then
      [.ofAddress false 0x40, .ofAddress true 0x40, .ofAddress true 0x80, .ofAddress false 0x80]
    else [.ofAddress false 0x80, .ofAddress true 0x80], true⟩
  nextaddress := 0
  nextop := 'n'

/-- The report of two processors at the end of their traces. -/
theorem statistics_are_read_back_shared_line : ∃ (m : Simulation) (processors : List Processor)
    (memCount : Nat) (text : List Char), Point sharedLine 31 .condition m
      ∧ ReportedOf 2 m.system processors memCount
      ∧ processors.map counts = [[4, 16, 1, 1, 1, 1], [2, 8, 0, 1, 1, 0]]
      ∧ m.system.interconnect.busyCycles = 10
      ∧ m.output wholeNumbers sharedLine 31 = .ok text
      ∧ parseSimLog text
        = reported wholeNumbers processors memCount m.system.interconnect.busyCycles := by
  obtain ⟨m, hend, hp⟩ := sharedLine.exists_end
    (fun m => decide ((List.range 2).map (fun i => countsAt m.system (i + 1))
        = [[4, 16, 1, 1, 1, 1], [2, 8, 0, 1, 1, 0]].map some
      ∧ m.system.interconnect.busyCycles = 10)) (by decide +kernel)
  obtain ⟨hcounts, hbusy⟩ := of_decide_eq_true hp
  obtain ⟨processors, memCount, text, hof, hread⟩ :=
    statistics_are_read_back wholeNumbers sharedLine 31 m hend
  exact ⟨m, processors, memCount, text, hend, hof, hof.counts hcounts, hbusy, hread⟩

end CoherenceSim.RunBenchmarks
