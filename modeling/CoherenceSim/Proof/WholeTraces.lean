import CoherenceSim.Proof.Completion
import CoherenceSim.Proof.Traces

/-!
# Whole traces are run

The loop of the program ends after a number of ticks, not when the traces are at their ends. When
the number is large enough, the traces were run to their ends by then, and the system is drained.

An instruction that is still in a file is worth what it will cost once it is given to its
processor. What is left in the files and what is left to do in the system add up to a number that
no turn of a processor changes and every tick lowers: when a tick finds a drained system, then
every processor has just had its turn and got nothing, so that all files are at their ends.
-/

namespace CoherenceSim

open BusNode Interconnect

variable {x : Input} {tickCount k : Nat} {phase : Phase} {m m' : Simulation} {pNum p : Nat}
  {ps : Params} {Q : Instruction → Prop} {s s' : System} {i : Instruction}

/-! ## The loop goes through -/

/-- Every processor has its turn. -/
theorem Point.turns (hpoint : Point x tickCount (.processors k) m) :
    ∃ m', Point x tickCount (.processors 0) m' := by
  induction k generalizing m with
  | zero => exact ⟨m, hpoint⟩
  | succ k ih =>
      obtain ⟨m', hm'⟩ := hpoint.progress
      exact ih (.processor hpoint hm')

theorem Point.ticks (hpoint : Point x tickCount (.processors 0) m) : ∃ m', m.tick = .ok m' := by
  obtain ⟨h, hrun⟩ := hpoint.run
  obtain ⟨_, request, s', htick, _⟩ := (System.run_allFollow hrun).1.tick
  exact ⟨_, by rw [Simulation.tick, htick]; rfl⟩

/-- **The loop gets to its end**, whatever is in the files. -/
theorem Input.exists_condition (x : Input) (t : Nat) (ht : t ≤ x.maxTicks + 1) :
    ∃ m, Point x t .condition m := by
  induction t with
  | zero =>
      obtain ⟨s, hs, _⟩ := System.new_spec x.params
      exact ⟨_, .start hs⟩
  | succ t ih =>
      obtain ⟨m, hm⟩ := ih (by omega)
      obtain ⟨m₁, hm₁⟩ := (Point.enter hm (by omega)).turns
      obtain ⟨m₂, hm₂⟩ := hm₁.ticks
      exact ⟨m₂, .tick hm₁ hm₂⟩

/-! ## What an instruction costs -/

/-- What an instruction adds to the work that is left. -/
def instructionPrice (ps : Params) : Nat := 2 * (lookupPrice ps + 1) * (ps.memoryLatency + 3)

/-- A `NOP` is dropped. -/
theorem System.Ok.inserted_nop (hok : s.Ok ps Q) (heq : s.insertInstruction i pNum = .ok s')
    (hnop : Processor.isMemoryOp i = false) :
    s'.interconnect.nodeLocked = s.interconnect.nodeLocked
      ∧ ∀ b, s'.interconnect.nodeAt b = s.interconnect.nodeAt b := by
  obtain ⟨p, hp, hlock, hat⟩ := hok.inserted heq
  refine ⟨hlock, fun b => ?_⟩
  have hdropped : p.processInstruction i = p := by
    rw [Processor.processInstruction, hnop]
    rfl
  rw [hat, hdropped]
  split
  · rename_i hb
    rw [hb, hp]
  · rfl

theorem workLeft_insertInstruction (hok : s.Ok ps (fun _ => True))
    (heq : s.insertInstruction i pNum = .ok s') : workLeft ps s'
      ≤ workLeft ps s + if Processor.isMemoryOp i = true then instructionPrice ps else 0 := by
  obtain ⟨_, hins⟩ := hok.of_insertInstruction trivial heq
  have hpatience : patienceOf ps s'.interconnect = patienceOf ps s.interconnect := by
    rw [patienceOf, hins.memory, ← patienceOf]
  by_cases hop : Processor.isMemoryOp i = true
  · have hmul := Nat.mul_le_mul_right (ps.memoryLatency + 3) (busWork_insertInstruction hok heq)
    rw [Nat.add_mul] at hmul
    rw [if_pos hop, workLeft, workLeft, hpatience, instructionPrice]
    omega
  · obtain ⟨hlock, hat⟩ := hok.inserted_nop heq (by simpa using hop)
    have hbus : busWork ps s'.interconnect = busWork ps s.interconnect := by
      have hsum : totalWork ps s'.interconnect = totalWork ps s.interconnect :=
        Finset.sum_congr rfl fun a _ => workAt_congr (hat a)
      rw [busWork, busWork, hlock, hsum]
    rw [if_neg hop, workLeft, workLeft, hpatience, hbus]
    exact Nat.le_refl _

/-! ## Turns -/

/-- A processor with an instruction pending is left alone; the others are given one. -/
theorem Simulation.insert_of_give (heq : m.giveInstruction pNum = .ok m') :
    m' = m ∧ m.system.hasPendingInstructions pNum = .ok true
      ∨ m.system.hasPendingInstructions pNum = .ok false ∧ ∃ i,
        m.system.insertInstruction i pNum = .ok m'.system
          ∧ m'.calls = m.calls ++ [.insertInstruction i pNum] := by
  obtain ⟨b, hb, heq⟩ := Outcome.bind_eq_ok.mp heq
  cases b with
  | true =>
      cases heq
      exact Or.inl ⟨rfl, hb⟩
  | false =>
      obtain ⟨s, hs, heq⟩ := Outcome.bind_eq_ok.mp heq
      cases heq
      rw [readInstruction_system] at hs
      exact Or.inr ⟨hb, _, hs, congrArg (· ++ _) readInstruction_calls⟩

/-- A file that counts as ended is at its end. -/
theorem Point.ended (hpoint : Point x tickCount phase m) (p : Nat) (hp : m.eofChecker p = true) :
    (m.myfiles p).eof = true := by
  induction hpoint with
  | start => cases hp
  | @enter _ m _ _ ih =>
      have hor : m.eofChecker p = true ∨ (m.myfiles p).feof = true := by
        simp only [Simulation.checkEof, Bool.or_eq_true, Bool.and_eq_true] at hp
        exact hp.imp id And.right
      exact hor.elim ih id
  | @processor _ pNum m m' _ heq ih =>
      have hgives := Simulation.gives_of_eq heq
      by_cases hne : p = pNum
      · subst hne
        have heof : m'.eofChecker = m.eofChecker := by
          cases hgives with
          | pending _ h => rw [h]
          | gives _ _ heof _ _ => exact heof
        rw [heof] at hp
        rw [(hgives.ended hp).1]
        exact ih hp
      · obtain ⟨hfiles, heof, _⟩ := hgives.other hne
        rw [heof] at hp
        rw [hfiles]
        exact ih hp
  | @tick _ m m' _ heq ih =>
      obtain ⟨hfiles, _⟩ := Simulation.tick_frame heq
      obtain ⟨_, _, heq⟩ := Outcome.bind_eq_ok.mp heq
      cases heq
      exact ih hp

/-- **Nobody who has lines left goes without**: the turn of a processor that has nothing pending
gives it the next line of its file. -/
theorem Point.gives_line (hpoint : Point x tickCount (.processors (pNum + 1)) m)
    (heq : m.giveInstruction pNum = .ok m') (hno : x.NoStale pNum)
    (hpending : m.system.hasPendingInstructions pNum = .ok false)
    (hleft : m.given pNum ≠ (x.files pNum).instructions) :
    ∃ l : TraceLine, m'.given pNum = m.given pNum ++ [l.instruction] := by
  have hp : pNum < x.params.numProcessors := hpoint.left_le rfl
  have hgives := Simulation.gives_of_eq heq
  cases hpoint.stage with
  | first h =>
      obtain ⟨hfile, heof, hgiven⟩ := h.untouched pNum (Nat.lt_succ_self _)
      cases hlines : (x.files pNum).lines with
      | nil =>
          rw [hgiven, TraceFile.instructions, hlines] at hleft
          exact absurd rfl hleft
      | cons l rest =>
          rw [TraceFile.text, hlines] at hfile
          exact ⟨l, (hgives.line hpending heof hfile).2.2⟩
  | later h =>
      obtain ⟨rest, hfile, hgiven⟩ := h.read pNum hp hno
      cases rest with
      | nil =>
          rw [List.map_nil, List.append_nil] at hgiven
          exact absurd hgiven.symm hleft
      | cons l rest =>
          have heof : m.eofChecker pNum = false := by
            by_contra h0
            have hend := hpoint.ended pNum (by simpa using h0)
            rw [hfile] at hend
            cases hend
          exact ⟨l, (hgives.line hpending heof hfile).2.2⟩

/-! ## What is left to do -/

/-- No file is read too late. -/
def Input.Timely (x : Input) : Prop := ∀ p < x.params.numProcessors, x.NoStale p

/-- The lines that have not been given to their processors. -/
def Input.linesLeft (x : Input) (m : Simulation) : Nat :=
  ∑ p ∈ Finset.range x.params.numProcessors, ((x.files p).lines.length - (m.given p).length)

def Input.toDo (x : Input) (m : Simulation) : Nat :=
  x.linesLeft m * instructionPrice x.params + workLeft x.params m.system

/-- As many ticks are enough. -/
def Input.ticksNeeded (x : Input) : Nat :=
  (∑ p ∈ Finset.range x.params.numProcessors, (x.files p).lines.length) * instructionPrice x.params
    + completionBound x.params []

/-- The traces are run. -/
structure Finished (x : Input) (m : Simulation) : Prop where
  drained : Drained x.params m.system
  read : ∀ p < x.params.numProcessors, m.given p = (x.files p).instructions

/-- A processor that had its turn. -/
def Provided (x : Input) (m : Simulation) (p : Nat) : Prop :=
  m.system.hasPendingInstructions p = .ok true ∨ m.given p = (x.files p).instructions

theorem Point.length_given (hpoint : Point x tickCount phase m) (hx : x.Timely)
    (hp : p < x.params.numProcessors) : (m.given p).length ≤ (x.files p).lines.length := by
  have hle := (hpoint.given_isPrefix hp (hx p hp)).length_le
  rwa [TraceFile.instructions, List.length_map] at hle

/-- The turn of a processor moves work from its file to the system, or does nothing. -/
theorem Point.toDo_give (hpoint : Point x tickCount (.processors (pNum + 1)) m) (hx : x.Timely)
    (heq : m.giveInstruction pNum = .ok m') : x.toDo m' ≤ x.toDo m := by
  have hp : pNum < x.params.numProcessors := hpoint.left_le rfl
  obtain ⟨h, hrun⟩ := hpoint.run
  have hok := (System.run_allFollow hrun).1
  rcases Simulation.insert_of_give heq with ⟨rfl, _⟩ | ⟨_, i, hinsert, hcalls⟩
  · exact Nat.le_refl _
  have hgiven (p : Nat) := Simulation.given_append (p := p) hcalls
  have hwork := workLeft_insertInstruction hok hinsert
  by_cases hop : Processor.isMemoryOp i = true
  · -- the line that is paid for
    have hlines : x.linesLeft m' + 1 ≤ x.linesLeft m := by
      refine sum_add_le_sum (g := 0) (Finset.mem_range.mpr hp) ?_ fun q _ hq => ?_
      · have hle := (Point.processor hpoint heq).length_given hx hp
        rw [hgiven pNum, if_pos ⟨rfl, hop⟩, List.length_append, List.length_singleton] at hle ⊢
        omega
      · rw [hgiven q, if_neg fun h0 => hq h0.1, List.append_nil]
        omega
    have hmul := Nat.mul_le_mul_right (instructionPrice x.params) hlines
    rw [if_pos hop] at hwork
    rw [Nat.add_mul] at hmul
    rw [Input.toDo, Input.toDo]
    omega
  · have hlines : x.linesLeft m' = x.linesLeft m := by
      refine Finset.sum_congr rfl fun q _ => ?_
      rw [hgiven q, if_neg fun h0 => hop h0.2, List.append_nil]
    rw [if_neg hop] at hwork
    rw [Input.toDo, Input.toDo, hlines]
    omega

/-- A processor has an instruction pending when its queue is not empty. -/
theorem Point.pending_iff (hpoint : Point x tickCount phase m) (hp : p < x.params.numProcessors) :
    m.system.hasPendingInstructions p = .ok true
      ↔ ∃ q, m.system.interconnect.nodeAt (p + 1) = some (.processor q) ∧ q.instrQueue ≠ [] := by
  obtain ⟨q, hq, hpending⟩ := hpoint.processorAt hp
  have hiff : q.hasPendingInstructions = true ↔ q.instrQueue ≠ [] := by
    rw [Processor.hasPendingInstructions, decide_eq_true_eq, List.length_pos_iff]
  rw [hpending]
  constructor
  · intro h0
    exact ⟨q, hq, hiff.mp (Except.ok.inj h0)⟩
  · rintro ⟨q', hq', hne⟩
    rw [hq] at hq'; cases hq'
    rw [hiff.mpr hne]

/-- After its turn, a processor is provided for. -/
theorem Point.provided_give (hpoint : Point x tickCount (.processors (pNum + 1)) m) (hx : x.Timely)
    (heq : m.giveInstruction pNum = .ok m')
    (hprovided : ∀ p, pNum + 1 ≤ p → p < x.params.numProcessors → Provided x m p) :
    ∀ p, pNum ≤ p → p < x.params.numProcessors → Provided x m' p := by
  have hpNum : pNum < x.params.numProcessors := hpoint.left_le rfl
  have hpoint' := Point.processor hpoint heq
  intro p hle hp
  obtain ⟨h, hrun⟩ := hpoint.run
  have hok := (System.run_allFollow hrun).1
  rcases Simulation.insert_of_give heq with ⟨rfl, hpending⟩ | ⟨hpending, i, hinsert, hcalls⟩
  · by_cases hne : p = pNum
    · exact Or.inl (hne ▸ hpending)
    · exact hprovided p (by omega) hp
  obtain ⟨q, hq, _, hat⟩ := hok.inserted hinsert
  have hgiven := Simulation.given_append (p := p) hcalls
  by_cases hne : p = pNum
  · subst hne
    by_cases hop : Processor.isMemoryOp i = true
    · refine Or.inl ((hpoint'.pending_iff hp).mpr ⟨_, (hat _).trans (if_pos rfl), ?_⟩)
      rw [Processor.processInstruction, if_pos hop]
      exact List.append_ne_nil_of_right_ne_nil _ (List.cons_ne_nil _ _)
    · rw [if_neg fun h0 => hop h0.2, List.append_nil] at hgiven
      refine Or.inr ?_
      by_contra hleft
      rw [hgiven] at hleft
      obtain ⟨l, hl⟩ := hpoint.gives_line heq (hx p hp) hpending hleft
      rw [hgiven] at hl
      exact absurd hl.symm (by simp)
  · rw [if_neg fun h0 => hne h0.1, List.append_nil] at hgiven
    rcases hprovided p (by omega) hp with h0 | h0
    · refine Or.inl ?_
      rw [hpoint.pending_iff hp] at h0
      rw [hpoint'.pending_iff hp, hat, if_neg (by omega)]
      exact h0
    · exact Or.inr (hgiven.trans h0)

/-- Once the traces are run there are only `NOP`s. -/
theorem Finished.give (hf : Finished x m) (hx : x.Timely)
    (hpoint : Point x tickCount (.processors (pNum + 1)) m)
    (heq : m.giveInstruction pNum = .ok m') : Finished x m' := by
  have hp : pNum < x.params.numProcessors := hpoint.left_le rfl
  obtain ⟨h, hrun⟩ := hpoint.run
  have hok := (System.run_allFollow hrun).1
  rcases Simulation.insert_of_give heq with ⟨rfl, _⟩ | ⟨_, i, hinsert, hcalls⟩
  · exact hf
  have hgiven (p : Nat) := Simulation.given_append (p := p) hcalls
  have hnop : Processor.isMemoryOp i = false := by
    by_contra hop
    have hop : Processor.isMemoryOp i = true := by simpa using hop
    have hle := (Point.processor hpoint heq).length_given hx hp
    rw [hgiven pNum, if_pos ⟨rfl, hop⟩, hf.read pNum hp, List.length_append,
      TraceFile.instructions, List.length_map] at hle
    exact absurd hle (by simp)
  obtain ⟨_, hat⟩ := hok.inserted_nop hinsert hnop
  refine ⟨⟨fun a p hp => hf.drained.processor a p (by rw [← hat]; exact hp), fun m hm => ?_⟩,
    fun q hq => ?_⟩
  · rw [memoryAt, hat] at hm
    exact hf.drained.memory m hm
  · rw [hgiven q, hnop, if_neg (by simp), List.append_nil]
    exact hf.read q hq

/-- What holds at each point, by the number of ticks that were made. -/
inductive Paid (x : Input) : Nat → Phase → Simulation → Prop
  | condition {t : Nat} {m : Simulation} : Finished x m ∨ x.toDo m + t ≤ x.ticksNeeded →
      Paid x t .condition m
  | processors {t k : Nat} {m : Simulation} : Finished x m ∨ x.toDo m + t ≤ x.ticksNeeded →
      (∀ p, k ≤ p → p < x.params.numProcessors → Provided x m p) →
      Paid x (t + 1) (.processors k) m

/-- **Every tick pays**, until the traces are run. -/
theorem Point.paid_tick (hpoint : Point x tickCount (.processors 0) m)
    (hlen : 2 ≤ x.params.burstLength) (hlen' : x.params.burstLength < 2 ^ 32)
    (hlatency : x.params.memoryLatency < 2 ^ 32)
    (hprovided : ∀ p, 0 ≤ p → p < x.params.numProcessors → Provided x m p)
    (heq : m.tick = .ok m') : Finished x m' ∨ ¬ Finished x m ∧ x.toDo m' < x.toDo m := by
  obtain ⟨h, hrun⟩ := hpoint.run
  obtain ⟨hok, hw, _⟩ := System.run_workLeft hlen hlen' hlatency hrun
  obtain ⟨mid, req, s', htick, hcycle, hok'⟩ := hok.tick
  obtain ⟨_, _, hgiven⟩ := Simulation.tick_frame heq
  have hsystem : m'.system = s' := by
    rw [Simulation.tick, htick] at heq
    cases heq
    rfl
  have hlines : x.linesLeft m' = x.linesLeft m :=
    Finset.sum_congr rfl fun q _ => by rw [hgiven q]
  by_cases hd : Drained x.params m.system
  · -- whoever has nothing pending after its turn has nothing left
    refine Or.inl ⟨by rw [hsystem]; exact hd.cycle hcycle hok hok', fun p hp => ?_⟩
    rw [hgiven p]
    refine (hprovided p (Nat.zero_le p) hp).resolve_left fun h0 => ?_
    obtain ⟨q, hq, hne⟩ := (hpoint.pending_iff hp).mp h0
    exact hne (hd.processor _ q hq).1
  · refine Or.inr ⟨fun hf => hd hf.drained, ?_⟩
    have hlt := (hcycle.workLeft_lt hw hlen hlen' hlatency hok hok').resolve_right fun h0 => hd h0.2
    rw [Input.toDo, Input.toDo, hlines, hsystem]
    omega

theorem Point.paid (hpoint : Point x tickCount phase m) (hx : x.Timely)
    (hlen : 2 ≤ x.params.burstLength) (hlen' : x.params.burstLength < 2 ^ 32)
    (hlatency : x.params.memoryLatency < 2 ^ 32) : Paid x tickCount phase m := by
  induction hpoint with
  | @start s hs =>
      obtain ⟨s₀, hs₀, hinit⟩ := System.new_spec x.params
      rw [hs] at hs₀; cases hs₀
      have hle := hinit.workLeft_le
      exact .condition (Or.inr (Nat.add_le_add_left hle _))
  | @enter t m _ _ ih =>
      cases ih with
      | condition h =>
          refine .processors ?_ fun p hp hp' => by omega
          exact h.imp (fun hf => ⟨hf.drained, hf.read⟩) id
  | @processor t pNum m m' hpoint heq ih =>
      cases ih with
      | processors h hprovided =>
          refine .processors ?_ (hpoint.provided_give hx heq hprovided)
          refine h.imp (fun hf => hf.give hx hpoint heq) fun hle => ?_
          have := hpoint.toDo_give hx heq
          omega
  | @tick t m m' hpoint heq ih =>
      cases ih with
      | processors h hprovided =>
          refine .condition ?_
          refine (hpoint.paid_tick hlen hlen' hlatency hprovided heq).imp id fun h0 => ?_
          have := h.resolve_left h0.1
          omega

/-- **Whole traces are run.** If no file is read too late, and the number of ticks is large enough
for the lines of the files, then the loop goes through, and at its end every processor has run its
trace: it has handed over the instructions of its file and no others, in their order; each was found
to be a hit or a miss; and nobody waits for anything. -/
theorem main_runs_every_trace (x : Input) (hlen : 2 ≤ x.params.burstLength)
    (hlen' : x.params.burstLength < 2 ^ 32) (hlatency : x.params.memoryLatency < 2 ^ 32)
    (hno : ∀ p < x.params.numProcessors, x.NoStale p) (hticks : x.ticksNeeded ≤ x.maxTicks) :
    (∃ m, Point x (x.maxTicks + 1) .condition m)
      ∧ ∀ m, Point x (x.maxTicks + 1) .condition m → Drained x.params m.system
        ∧ ∃ h, System.run x.params m.calls = .ok (h, m.system)
          ∧ ∀ p < x.params.numProcessors, ∃ q,
            m.system.interconnect.nodeAt (p + 1) = some (.processor q)
              ∧ handedOver (p + 1) h = (x.files p).instructions
              ∧ (x.files p).lines.length = q.cacheController.loadHits + q.cacheController.loadMisses
                + q.cacheController.storeHits + q.cacheController.storeMisses := by
  refine ⟨x.exists_condition _ (Nat.le_refl _), fun m hpoint => ?_⟩
  have hf : Finished x m := by
    cases hpoint.paid hno hlen hlen' hlatency with
    | condition h => exact h.resolve_right fun hle => by omega
  obtain ⟨h, hrun⟩ := hpoint.run
  refine ⟨hf.drained, h, hrun, fun p hp => ?_⟩
  obtain ⟨q, hq, _⟩ := hpoint.processorAt hp
  obtain ⟨hgiven, hops, hcounted⟩ := (System.run_allFollow hrun).2 (p + 1) q hq
  obtain ⟨hempty, hpending, _⟩ := hf.drained.processor _ q hq
  rw [← Simulation.given, hf.read p hp, hempty, List.append_nil] at hgiven
  rw [Controller.waiting_of_not_pending hpending, Nat.add_zero] at hcounted
  have hlines : (x.files p).lines.length = (handedOver (p + 1) h).length := by
    rw [← hgiven, TraceFile.instructions, List.length_map]
  refine ⟨q, hq, hgiven.symm, ?_⟩
  rw [hlines, hops, hcounted]
  rfl

/-- Two processors that both store to line `0x80` and then load line `0x40`. -/
def storeThenLoad : Input where
  params := ⟨2, .mesi, 1, 2⟩
  maxTicks := 100000
  files := fun _ => ⟨[.ofAddress false 0x80, .ofAddress true 0x40], false⟩
  nextaddress := 0
  nextop := 'r'

/-- Both traces are run, the store before the load. -/
theorem main_runs_every_trace_store_then_load :
    ∃ m h, Point storeThenLoad 100001 .condition m
      ∧ System.run storeThenLoad.params m.calls = .ok (h, m.system)
      ∧ ∀ p < 2, handedOver (p + 1) h = [⟨.store, 0x80, by decide⟩, ⟨.load, 0x40, by decide⟩] := by
  obtain ⟨⟨m, hm⟩, hall⟩ := main_runs_every_trace storeThenLoad (by decide) (by decide) (by decide)
    (fun p _ h0 => by cases h0) (by decide)
  obtain ⟨_, h, hrun, hhanded⟩ := hall m hm
  refine ⟨m, h, hm, hrun, fun p hp => ?_⟩
  obtain ⟨q, _, hq, _⟩ := hhanded p hp
  exact hq

end CoherenceSim
