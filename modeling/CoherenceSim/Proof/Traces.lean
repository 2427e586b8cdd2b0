import CoherenceSim.Model.Main
import CoherenceSim.Proof.InstructionOrder

/-!
# Every processor runs its own trace

`fscanf` is called once a line and finds the end of the file while it reads the last one, so
that a file which is not empty is never read again after its last line. A file that is empty
is found out by the first call only. That call leaves `nextaddress` and `nextop` as the
processor before has left them, and the program takes them for an instruction.

The first iteration is therefore told apart: `First` is what holds in it, and `Later` what
holds ever after.
-/

namespace CoherenceSim

open File

/-! ## One line -/

namespace TraceFile

variable {finalNewline : Bool} {l : TraceLine} {rest : List TraceLine}

/-- A line starts with a digit. -/
theorem head_render : ∀ c ∈ (render finalNewline rest).head?, isHexDigit c = true := by
  cases rest with
  | nil => exact fun _ h => by cases h
  | cons l rest =>
      obtain ⟨d, digits, hdigits⟩ := List.exists_cons_of_ne_nil l.nonempty
      obtain ⟨c, tail, htail, hc⟩ := head_hexMark l.marked digits
        (l.isHex d (by rw [hdigits]; exact List.mem_cons_self))
      intro c' hc'
      simp only [render, TraceLine.text, hdigits, htail, List.append_assoc, List.cons_append,
        List.head?_cons, Option.mem_def, Option.some.injEq] at hc'
      rw [← hc']
      exact hc

theorem isEmpty_render : (render finalNewline rest).isEmpty = rest.isEmpty := by
  cases rest with
  | nil => rfl
  | cons l rest => simp [render, TraceLine.text]

/-- The end of a line is skipped, and the end of the file is found after the last one. -/
theorem skipSpace_render :
    skipSpace ⟨(if rest.isEmpty && !finalNewline then [] else ['\n']) ++ render finalNewline rest,
      false⟩ = ⟨render finalNewline rest, rest.isEmpty⟩ := by
  have hhead : ∀ c ∈ (render finalNewline rest).head?, isSpace c = false :=
    fun c hc => not_isSpace_of_isHexDigit (head_render c hc)
  split
  · rw [List.nil_append, skipSpace_eq false hhead, isEmpty_render]
    rfl
  · rw [List.cons_append, List.nil_append, skipSpace_cons false rfl hhead, isEmpty_render]
    rfl

/-- **A line is read back**, and nothing of the next. -/
theorem fscanf_render (nextaddress : UInt64) (nextop : Char) :
    fscanf ⟨render finalNewline (l :: rest), false⟩ nextaddress nextop
      = (⟨render finalNewline rest, rest.isEmpty⟩, UInt64.ofNat (hexValue l.digits), l.op) := by
  have hop : isSpace l.op = false := by
    rcases l.isOp with h | h <;> rw [h] <;> rfl
  have htext : render finalNewline (l :: rest) = hexMark l.marked ++ l.digits ++ (' ' :: l.op ::
      ((if rest.isEmpty && !finalNewline then [] else ['\n']) ++ render finalNewline rest)) := by
    simp only [render, TraceLine.text, List.append_assoc, List.cons_append, List.nil_append]
  rw [fscanf, htext, scanHex_append l.marked l.nonempty l.isHex l.fits
    fun c hc => by cases hc; exact ⟨rfl, by decide, by decide⟩]
  dsimp only
  rw [List.isEmpty_cons, skipSpace_cons false rfl fun c hc => by cases hc; exact hop]
  dsimp only [getc, List.isEmpty_cons]
  rw [Bool.or_false, skipSpace_render]

/-- Nothing is read from an empty file. -/
theorem fscanf_nil (nextaddress : UInt64) (nextop : Char) :
    fscanf (fopen []) nextaddress nextop = (atEnd, nextaddress, nextop) := by
  rw [fscanf, fopen, scanHex_nil]

end TraceFile

/-! ## One processor -/

/-- An operation that makes a load or a store. -/
def IsOp (c : Char) : Prop := c = 'r' ∨ c = 'w'

namespace Simulation

variable {m m' : Simulation} {pNum p : Nat} {l : TraceLine} {rest : List TraceLine}
  {finalNewline : Bool}

/-- The loads and stores passed to `insertInstruction` for this processor. -/
def given (m : Simulation) (pNum : Nat) : List Instruction := givenTo (pNum + 1) m.calls

theorem given_append {i : Instruction} (h : m'.calls = m.calls ++ [.insertInstruction i pNum]) :
    m'.given p = m.given p ++ if p = pNum ∧ Processor.isMemoryOp i = true then [i] else [] := by
  rw [given, h, givenTo_append, ← given]
  simp only [givenTo, Nat.add_right_cancel_iff, eq_comm]

theorem isMemoryOp_inst : Processor.isMemoryOp m.inst = true ↔ IsOp m.nextop := by
  simp only [Processor.isMemoryOp, inst, IsOp, Bool.or_eq_true]
  by_cases hr : m.nextop = 'r'
  · simp [hr]
  · by_cases hw : m.nextop = 'w' <;> simp [hr, hw]

/-- The record is what `nextaddress` and `nextop` say. -/
theorem inst_of_line (haddress : m.nextaddress = UInt64.ofNat (hexValue l.digits))
    (hop : m.nextop = l.op) : m.inst = l.instruction := by
  simp only [inst, TraceLine.instruction, haddress, hop, if_pos l.isOp,
    UInt64.toNat_ofNat_of_lt' l.fits]

@[simp] theorem readInstruction_system : (m.readInstruction pNum).system = m.system := by
  rw [readInstruction]; split <;> rfl

@[simp] theorem readInstruction_calls : (m.readInstruction pNum).calls = m.calls := by
  rw [readInstruction]; split <;> rfl

@[simp] theorem readInstruction_eofChecker :
    (m.readInstruction pNum).eofChecker = m.eofChecker := by
  rw [readInstruction]; split <;> rfl

theorem readInstruction_myfiles (h : p ≠ pNum) :
    (m.readInstruction pNum).myfiles p = m.myfiles p := by
  rw [readInstruction]
  split
  · rfl
  · exact if_neg h

/-- What the body of the loop over the processors does. -/
inductive Gives (m : Simulation) (pNum : Nat) (m' : Simulation) : Prop
  | pending : m.system.hasPendingInstructions pNum = .ok true → m' = m → Gives m pNum m'
  | gives : m.system.hasPendingInstructions pNum = .ok false →
      m'.myfiles = (m.readInstruction pNum).myfiles → m'.eofChecker = m.eofChecker →
      m'.nextop = (m.readInstruction pNum).nextop →
      m'.calls = m.calls ++ [.insertInstruction (m.readInstruction pNum).inst pNum] →
      Gives m pNum m'

theorem gives_of_eq (h : m.giveInstruction pNum = .ok m') : Gives m pNum m' := by
  obtain ⟨b, hb, h⟩ := Outcome.bind_eq_ok.mp h
  cases b with
  | true =>
      cases h
      exact .pending hb rfl
  | false =>
      obtain ⟨s, _, h⟩ := Outcome.bind_eq_ok.mp h
      cases h
      exact .gives hb rfl readInstruction_eofChecker rfl (congrArg (· ++ _) readInstruction_calls)

theorem Gives.eq_or_not_pending (h : Gives m pNum m') :
    m' = m ∨ m.system.hasPendingInstructions pNum = .ok false := by
  cases h with
  | pending _ h => exact .inl h
  | gives h => exact .inr h

/-- The other processors do not notice. -/
theorem Gives.other (h : Gives m pNum m') (hp : p ≠ pNum) :
    m'.myfiles p = m.myfiles p ∧ m'.eofChecker p = m.eofChecker p ∧ m'.given p = m.given p := by
  cases h with
  | pending _ h => rw [h]; exact ⟨rfl, rfl, rfl⟩
  | gives _ hfiles heof _ hcalls =>
      refine ⟨by rw [hfiles, readInstruction_myfiles hp], by rw [heof], ?_⟩
      rw [given_append hcalls, if_neg fun h0 => hp h0.1, List.append_nil]

/-- After the end of the file there are only `NOP`s. -/
theorem Gives.ended (h : Gives m pNum m') (heof : m.eofChecker pNum = true) :
    m'.myfiles pNum = m.myfiles pNum ∧ m'.given pNum = m.given pNum := by
  cases h with
  | pending _ h => rw [h]; exact ⟨rfl, rfl⟩
  | gives _ hfiles _ _ hcalls =>
      have hread : m.readInstruction pNum = { m with nextaddress := 0, nextop := 'n' } := by
        rw [readInstruction, if_pos heof]
      rw [hread] at hfiles hcalls
      refine ⟨by rw [hfiles], ?_⟩
      rw [given_append hcalls, if_neg fun h0 => ?_, List.append_nil]
      have hop := isMemoryOp_inst.mp h0.2
      rcases hop with hop | hop <;> cases hop

/-- Nothing is read, and nothing given, in the tick of the system. -/
theorem tick_frame (h : m.tick = .ok m') :
    m'.myfiles = m.myfiles ∧ m'.nextop = m.nextop ∧ ∀ p, m'.given p = m.given p := by
  obtain ⟨_, _, h⟩ := Outcome.bind_eq_ok.mp h
  cases h
  refine ⟨rfl, rfl, fun p => ?_⟩
  rw [given, givenTo_append]
  exact List.append_nil _

/-- **A line that is left is read and given to its processor.** -/
theorem Gives.line (h : Gives m pNum m')
    (hpending : m.system.hasPendingInstructions pNum = .ok false)
    (heof : m.eofChecker pNum = false)
    (hfile : m.myfiles pNum = ⟨TraceFile.render finalNewline (l :: rest), false⟩) :
    m'.myfiles pNum = ⟨TraceFile.render finalNewline rest, rest.isEmpty⟩ ∧ m'.nextop = l.op
      ∧ m'.given pNum = m.given pNum ++ [l.instruction] := by
  cases h with
  | pending h _ => rw [hpending] at h; cases h
  | gives _ hfiles _ hop hcalls =>
      have hread : m.readInstruction pNum = { m with
          myfiles := fun i => if i = pNum then ⟨TraceFile.render finalNewline rest, rest.isEmpty⟩
            else m.myfiles i
          nextaddress := UInt64.ofNat (hexValue l.digits)
          nextop := l.op } := by
        rw [readInstruction, if_neg (by rw [heof]; exact Bool.false_ne_true), hfile,
          TraceFile.fscanf_render]
      rw [hread] at hfiles hop hcalls
      refine ⟨by rw [hfiles]; exact if_pos rfl, hop, ?_⟩
      rw [given_append hcalls, if_pos ⟨rfl, isMemoryOp_inst.mpr l.isOp⟩, inst_of_line rfl rfl]

/-- **The first call on an empty file** leaves the operation of another processor. -/
theorem Gives.nothing (h : Gives m pNum m')
    (hpending : m.system.hasPendingInstructions pNum = .ok false)
    (heof : m.eofChecker pNum = false) (hfile : m.myfiles pNum = fopen []) :
    m'.myfiles pNum = atEnd ∧ m'.nextop = m.nextop
      ∧ (¬ IsOp m.nextop → m'.given pNum = m.given pNum)
      ∧ (IsOp m.nextop → m'.given pNum ≠ []) := by
  cases h with
  | pending h _ => rw [hpending] at h; cases h
  | gives _ hfiles _ hop hcalls =>
      have hread : m.readInstruction pNum = { m with
          myfiles := fun i => if i = pNum then atEnd else m.myfiles i } := by
        rw [readInstruction, if_neg (by rw [heof]; exact Bool.false_ne_true), hfile,
          TraceFile.fscanf_nil]
      rw [hread] at hfiles hop hcalls
      refine ⟨by rw [hfiles]; exact if_pos rfl, hop, fun h0 => ?_, fun h0 => ?_⟩
      · rw [given_append hcalls, if_neg fun h1 => h0 (isMemoryOp_inst.mp h1.2), List.append_nil]
      · rw [given_append hcalls, if_pos ⟨rfl, isMemoryOp_inst.mpr h0⟩]
        exact List.append_ne_nil_of_right_ne_nil _ (List.cons_ne_nil _ _)

end Simulation

/-! ## Points -/

section

variable {x : Input} {tickCount k : Nat} {phase : Phase} {m m' : Simulation} {pNum p : Nat}

/-- **The loop is a run of the system.** -/
theorem Point.run (hpoint : Point x tickCount phase m) :
    ∃ h, System.run x.params m.calls = .ok (h, m.system) := by
  induction hpoint with
  | start hs => exact ⟨[], by rw [System.run, hs]; rfl⟩
  | enter _ _ ih => exact ih
  | @processor _ pNum m _ _ heq ih =>
      obtain ⟨h, hrun⟩ := ih
      obtain ⟨b, _, heq⟩ := Outcome.bind_eq_ok.mp heq
      cases b with
      | true => cases heq; exact ⟨h, hrun⟩
      | false =>
          obtain ⟨s, hs, heq⟩ := Outcome.bind_eq_ok.mp heq
          cases heq
          refine ⟨h, ?_⟩
          rw [Simulation.readInstruction_system] at hs
          rw [Simulation.readInstruction_calls, System.run_append, hrun, Outcome.ok_bind,
            System.exec, hs]
          rfl
  | @tick _ m _ _ heq ih =>
      obtain ⟨h, hrun⟩ := ih
      obtain ⟨⟨request, s⟩, hs, heq⟩ := Outcome.bind_eq_ok.mp heq
      cases heq
      refine ⟨⟨m.system, request, s⟩ :: h, ?_⟩
      rw [System.run_append, hrun, Outcome.ok_bind, System.exec, hs]
      rfl

/-- The processors are gone through from the last. -/
theorem Point.left_le (hpoint : Point x tickCount phase m) (hphase : phase = .processors k) :
    k ≤ x.params.numProcessors := by
  induction hpoint generalizing k with
  | start | tick => cases hphase
  | enter => cases hphase; exact le_rfl
  | processor _ _ ih => cases hphase; exact (Nat.le_succ _).trans (ih rfl)

theorem Point.processorAt (hpoint : Point x tickCount phase m) (hp : p < x.params.numProcessors) :
    ∃ q, m.system.interconnect.nodeAt (p + 1) = some (.processor q)
      ∧ m.system.hasPendingInstructions p = .ok q.hasPendingInstructions := by
  obtain ⟨h, hrun⟩ := hpoint.run
  have hok := (System.run_allFollow hrun).1
  obtain ⟨q, hq, _⟩ := hok.valid.processor (a := p + 1) (by omega) (by omega)
  refine ⟨q, hq, ?_⟩
  have hlen : p < m.system.processors.length := by rw [hok.processors]; simpa using hp
  have hget : m.system.processors[p]? = some (p + 1) := by
    rw [hok.processors]; simp [hp]
  simp only [System.hasPendingInstructions, hlen, decide_true, assertThat_true, Outcome.ok_bind,
    hget, System.getProcessor_eq hq]
  rfl

/-- A processor that was given nothing is given its first instruction. -/
theorem Point.not_pending (hpoint : Point x tickCount phase m) (hp : p < x.params.numProcessors)
    (hgiven : m.given p = []) : m.system.hasPendingInstructions p = .ok false := by
  obtain ⟨q, hq, hpending⟩ := hpoint.processorAt hp
  obtain ⟨h, hrun⟩ := hpoint.run
  have hfollows := ((System.run_allFollow hrun).2 (p + 1) q hq).given
  rw [← Simulation.given, hgiven] at hfollows
  rw [hpending, Processor.hasPendingInstructions, (List.append_eq_nil_iff.mp hfollows.symm).2]
  rfl

/-- No assertion fails while the processors are given their instructions. -/
theorem Point.progress (hpoint : Point x tickCount (.processors (pNum + 1)) m) :
    ∃ m', m.giveInstruction pNum = .ok m' := by
  have hp : pNum < x.params.numProcessors := hpoint.left_le rfl
  obtain ⟨q, _, hpending⟩ := hpoint.processorAt hp
  obtain ⟨h, hrun⟩ := hpoint.run
  cases hq : q.hasPendingInstructions with
  | true => exact ⟨m, by rw [Simulation.giveInstruction, hpending, hq]; rfl⟩
  | false =>
      obtain ⟨s, hs, _⟩ := (System.run_allFollow hrun).1.insertInstruction
        (i := (m.readInstruction pNum).inst) trivial hp
      rw [← @Simulation.readInstruction_system m pNum] at hs
      exact ⟨_, by rw [Simulation.giveInstruction, hpending, hq, Outcome.ok_bind]; dsimp only
                   rw [hs]; rfl⟩

end

/-! ## The loop, computed -/

namespace Simulation

/-- The processors below this one are given their instructions. -/
def giveAll : Nat → Simulation → Outcome Simulation
  | 0, m => pure m
  | pNum + 1, m => do giveAll pNum (← m.giveInstruction pNum)

/-- Some iterations of the loop. -/
def loop (numProcs : Nat) : Nat → Simulation → Outcome Simulation
  | 0, m => pure m
  | n + 1, m => do
      let m ← (m.checkEof numProcs).giveAll numProcs
      loop numProcs n (← m.tick)

end Simulation

/-- The loop from its start to its end. -/
def Input.simulate (x : Input) : Outcome Simulation := do
  let s ← System.new x.params.numProcessors x.params.controllerType x.params.memoryLatency
    x.params.burstLength
  (Simulation.start x s).loop x.params.numProcessors (x.maxTicks + 1)

section

variable {x : Input} {tickCount pNum n : Nat} {m m' : Simulation}

theorem Point.giveAll (hpoint : Point x tickCount (.processors pNum) m)
    (heq : m.giveAll pNum = .ok m') : Point x tickCount (.processors 0) m' := by
  induction pNum generalizing m with
  | zero => cases heq; exact hpoint
  | succ pNum ih =>
      obtain ⟨m₁, hgive, heq⟩ := Outcome.bind_eq_ok.mp heq
      exact ih (hpoint.processor hgive) heq

theorem Point.loop (hpoint : Point x tickCount .condition m) (hle : tickCount + n ≤ x.maxTicks + 1)
    (heq : m.loop x.params.numProcessors n = .ok m') : Point x (tickCount + n) .condition m' := by
  induction n generalizing tickCount m with
  | zero => cases heq; exact hpoint
  | succ n ih =>
      obtain ⟨m₁, hgive, heq⟩ := Outcome.bind_eq_ok.mp heq
      obtain ⟨m₂, htick, heq⟩ := Outcome.bind_eq_ok.mp heq
      have hnext := ((hpoint.enter (by omega)).giveAll hgive).tick htick
      rw [Nat.add_comm n, ← Nat.add_assoc]
      exact ih hnext (by omega) heq

/-- An end of the loop that exists because it can be computed. -/
theorem Input.exists_end (x : Input) (p : Simulation → Bool)
    (hp : x.simulate.toOption.any p = true) :
    ∃ m, Point x (x.maxTicks + 1) .condition m ∧ p m = true := by
  obtain ⟨m, hm, hp⟩ := Outcome.any_toOption.mp hp
  obtain ⟨s, hs, hm⟩ := Outcome.bind_eq_ok.mp hm
  have hend := (Point.start hs).loop (by omega) hm
  rw [Nat.zero_add] at hend
  exact ⟨m, hend, hp⟩

end

/-! ## The run of the loop -/

/-- What was not read of the file is whole lines, and what was read was given. -/
def TraceFile.ReadUpTo (file : TraceFile) (f : File) (given : List Instruction) : Prop :=
  ∃ rest, f = ⟨render file.finalNewline rest, rest.isEmpty⟩
    ∧ file.instructions = given ++ rest.map TraceLine.instruction

/-- When the file is empty, the first call of `fscanf` leaves an operation that makes no
instruction: nothing was read for any processor before, and the variable held none. -/
def Input.NoStale (x : Input) (p : Nat) : Prop :=
  (x.files p).lines = [] → (∀ q, p < q → q < x.params.numProcessors → (x.files q).lines = [])
    ∧ x.nextop ≠ 'r' ∧ x.nextop ≠ 'w'

/-- In the first iteration, when the processors below `k` are left. -/
structure First (x : Input) (k : Nat) (m : Simulation) : Prop where
  untouched : ∀ p < k, m.myfiles p = fopen (x.files p).text ∧ m.eofChecker p = false
    ∧ m.given p = []
  read : ∀ p, k ≤ p → p < x.params.numProcessors → x.NoStale p →
    (x.files p).ReadUpTo (m.myfiles p) (m.given p)
  stale : ∀ p, k ≤ p → p < x.params.numProcessors → ¬ x.NoStale p → m.given p ≠ []
  nextop : IsOp m.nextop ↔ IsOp x.nextop
    ∨ ∃ q, k ≤ q ∧ q < x.params.numProcessors ∧ (x.files q).lines ≠ []

/-- In a later iteration, when the processors below `k` are left. -/
structure Later (x : Input) (k : Nat) (m : Simulation) : Prop where
  read : ∀ p < x.params.numProcessors, x.NoStale p →
    (x.files p).ReadUpTo (m.myfiles p) (m.given p)
  ended : ∀ p < k, (m.myfiles p).eof = true → m.eofChecker p = true

section

variable {x : Input} {tickCount k : Nat} {phase : Phase} {m m' : Simulation} {pNum p : Nat}

theorem TraceFile.ReadUpTo.isPrefix {file : TraceFile} {f : File} {given : List Instruction}
    (h : file.ReadUpTo f given) : given <+: file.instructions := by
  obtain ⟨rest, _, h⟩ := h
  exact ⟨_, h.symm⟩

/-- A stale operation is one that the variable held, or that was read for a processor before. -/
theorem Input.not_noStale_iff : ¬ x.NoStale p ↔ (x.files p).lines = [] ∧ (IsOp x.nextop
    ∨ ∃ q, p < q ∧ q < x.params.numProcessors ∧ (x.files q).lines ≠ []) := by
  rw [NoStale, IsOp]
  constructor
  · intro h
    rw [Classical.not_imp] at h
    refine ⟨h.1, ?_⟩
    by_contra hno
    rw [not_or, not_or] at hno
    refine h.2 ⟨fun q hpq hq => ?_, hno.1.1, hno.1.2⟩
    by_contra hne
    exact hno.2 ⟨q, hpq, hq, hne⟩
  · rintro ⟨hempty, hstale⟩ h
    obtain ⟨hall, hr, hw⟩ := h hempty
    rcases hstale with hop | ⟨q, hpq, hq, hne⟩
    · rcases hop with hop | hop
      · exact hr hop
      · exact hw hop
    · exact hne (hall q hpq hq)

theorem first_start {s : System} : First x x.params.numProcessors (.start x s) where
  untouched _ _ := ⟨rfl, rfl, rfl⟩
  read p hp hp' := by omega
  stale p hp hp' := by omega
  nextop := ⟨Or.inl, fun h => h.resolve_right fun ⟨q, hq, hq', _⟩ => by omega⟩

/-- No file is at its end before it was read. -/
theorem First.checkEof {n : Nat} (h : First x k m) : First x k (m.checkEof n) where
  untouched p hp := by
    obtain ⟨hfile, heof, hgiven⟩ := h.untouched p hp
    refine ⟨hfile, ?_, hgiven⟩
    simp [Simulation.checkEof, heof, hfile, feof, fopen]
  read := h.read
  stale := h.stale
  nextop := h.nextop

theorem Simulation.checkEof_ended (hp : p < k) (heof : (m.myfiles p).eof = true) :
    (m.checkEof k).eofChecker p = true := by
  simp [checkEof, hp, feof, heof]

/-- A processor has its turn, and those that had theirs keep what they have. -/
theorem First.turn (h : First x (pNum + 1) m) (hgives : m.Gives pNum m')
    (hread : x.NoStale pNum → (x.files pNum).ReadUpTo (m'.myfiles pNum) (m'.given pNum))
    (hstale : ¬ x.NoStale pNum → m'.given pNum ≠ [])
    (hnextop : IsOp m'.nextop ↔ IsOp x.nextop
      ∨ ∃ q, pNum ≤ q ∧ q < x.params.numProcessors ∧ (x.files q).lines ≠ []) :
    First x pNum m' := by
  refine ⟨fun p hp => ?_, fun p hp hp' hno => ?_, fun p hp hp' hno => ?_, hnextop⟩
  · obtain ⟨hfiles, heof, hgiven⟩ := hgives.other hp.ne
    rw [hfiles, heof, hgiven]
    exact h.untouched p (by omega)
  · by_cases hne : p = pNum
    · rw [hne] at hno ⊢
      exact hread hno
    · obtain ⟨hfiles, _, hgiven⟩ := hgives.other hne
      rw [hfiles, hgiven]
      exact h.read p (by omega) hp' hno
  · by_cases hne : p = pNum
    · rw [hne] at hno ⊢
      exact hstale hno
    · rw [(hgives.other hne).2.2]
      exact h.stale p (by omega) hp' hno

/-- **One processor in the first iteration.** -/
theorem First.giveInstruction (h : First x (pNum + 1) m) (hgives : m.Gives pNum m')
    (hp : pNum < x.params.numProcessors)
    (hpending : m.system.hasPendingInstructions pNum = .ok false) : First x pNum m' := by
  obtain ⟨hfile, heof, hgiven⟩ := h.untouched pNum (Nat.lt_succ_self _)
  rw [TraceFile.text] at hfile
  cases hlines : (x.files pNum).lines with
  | nil =>
      rw [hlines] at hfile
      obtain ⟨hend, hop, hquiet, hloud⟩ := hgives.nothing hpending heof hfile
      have hiff : ¬ x.NoStale pNum ↔ IsOp m.nextop := by
        rw [Input.not_noStale_iff, h.nextop, and_iff_right hlines]
        rfl
      refine h.turn hgives (fun hno => ?_) (fun hno => hloud (hiff.mp hno)) ?_
      · have hnop : ¬ IsOp m.nextop := fun h0 => hiff.mpr h0 hno
        rw [hend, hquiet hnop, hgiven]
        exact ⟨[], rfl, by rw [TraceFile.instructions, hlines]; rfl⟩
      · -- an empty file is not among those that were read
        rw [hop, h.nextop]
        refine or_congr_right ⟨fun ⟨q, hq, hq', hne⟩ => ⟨q, by omega, hq', hne⟩, ?_⟩
        rintro ⟨q, hq, hq', hne⟩
        have hq₀ : q ≠ pNum := by rintro rfl; exact hne hlines
        exact ⟨q, by omega, hq', hne⟩
  | cons l rest =>
      rw [hlines] at hfile
      obtain ⟨hleft, hop, hgive⟩ := hgives.line hpending heof hfile
      have hnonempty : (x.files pNum).lines ≠ [] := by rw [hlines]; exact List.cons_ne_nil _ _
      refine h.turn hgives (fun _ => ?_) (fun hno => ?_) ?_
      · rw [hleft, hgive, hgiven]
        exact ⟨rest, rfl, by rw [TraceFile.instructions, hlines]; rfl⟩
      · exact absurd (Input.not_noStale_iff.mp hno).1 hnonempty
      · rw [hop]
        exact iff_of_true l.isOp (.inr ⟨pNum, le_rfl, hp, hnonempty⟩)

/-- **One processor in a later iteration.** -/
theorem Later.giveInstruction (h : Later x (pNum + 1) m) (hgives : m.Gives pNum m') :
    Later x pNum m' := by
  refine ⟨fun p hp hno => ?_, fun p hp heof => ?_⟩
  · by_cases hne : p = pNum
    · rw [hne] at hp hno ⊢
      obtain ⟨rest, hfile, hgiven⟩ := h.read pNum hp hno
      cases heof : m.eofChecker pNum with
      | true =>
          obtain ⟨hfiles, hgives⟩ := hgives.ended heof
          exact ⟨rest, hfiles.trans hfile, by rw [hgives, hgiven]⟩
      | false =>
          rcases hgives.eq_or_not_pending with rfl | hpending
          · exact ⟨rest, hfile, hgiven⟩
          cases rest with
          | nil =>
              -- the end of the file would have been found
              have hended := h.ended pNum (Nat.lt_succ_self _) (by rw [hfile]; rfl)
              rw [heof] at hended
              cases hended
          | cons l rest =>
              obtain ⟨hleft, _, hgive⟩ := hgives.line hpending heof hfile
              refine ⟨rest, hleft, ?_⟩
              rw [hgive, hgiven, List.map_cons, List.append_assoc, List.cons_append,
                List.nil_append]
    · obtain ⟨hfiles, _, hgiven⟩ := hgives.other hne
      rw [hfiles, hgiven]
      exact h.read p hp hno
  · obtain ⟨hfiles, heofs, _⟩ := hgives.other hp.ne
    rw [heofs]
    exact h.ended p (by omega) (hfiles ▸ heof)

/-- What holds at each point, by the number of iterations that were entered. -/
inductive Stage (x : Input) : Nat → Phase → Simulation → Prop
  | start {m : Simulation} : First x x.params.numProcessors m → Stage x 0 .condition m
  | first {k : Nat} {m : Simulation} : First x k m → Stage x 1 (.processors k) m
  | firstDone {m : Simulation} : First x 0 m → Stage x 1 .condition m
  | later {t k : Nat} {m : Simulation} : Later x k m → Stage x (t + 2) (.processors k) m
  | laterDone {t : Nat} {m : Simulation} : Later x 0 m → Stage x (t + 2) .condition m

/-- Every later iteration starts by looking for the ends of the files. -/
theorem later_checkEof (hread : ∀ p < x.params.numProcessors, x.NoStale p →
      (x.files p).ReadUpTo (m.myfiles p) (m.given p)) :
    Later x x.params.numProcessors (m.checkEof x.params.numProcessors) :=
  ⟨hread, fun _ hp heof => Simulation.checkEof_ended hp heof⟩

/-- **Every point is at one of the stages.** -/
theorem Point.stage (hpoint : Point x tickCount phase m) : Stage x tickCount phase m := by
  induction hpoint with
  | start _ => exact .start first_start
  | enter _ _ ih =>
      cases ih with
      | start h => exact .first h.checkEof
      | firstDone h => exact .later (later_checkEof fun p => h.read p (Nat.zero_le p))
      | laterDone h => exact .later (later_checkEof h.read)
  | @processor _ pNum m m' hpoint heq ih =>
      have hgives := Simulation.gives_of_eq heq
      have hp : pNum < x.params.numProcessors := hpoint.left_le rfl
      cases ih with
      | first h =>
          have hgiven := (h.untouched pNum (Nat.lt_succ_self _)).2.2
          exact .first (h.giveInstruction hgives hp (hpoint.not_pending hp hgiven))
      | later h => exact .later (h.giveInstruction hgives)
  | tick _ heq ih =>
      obtain ⟨hfiles, hop, hgiven⟩ := Simulation.tick_frame heq
      cases ih with
      | first h =>
          refine .firstDone ⟨fun p hp => absurd hp (Nat.not_lt_zero p), ?_, ?_, ?_⟩
          · simp only [hfiles, hgiven]
            exact h.read
          · simp only [hgiven]
            exact h.stale
          · rw [hop]
            exact h.nextop
      | later h =>
          refine .laterDone ⟨?_, fun p hp => absurd hp (Nat.not_lt_zero p)⟩
          simp only [hfiles, hgiven]
          exact h.read

/-- A processor whose file is not read too late has what its file starts with. -/
theorem Point.given_isPrefix (hpoint : Point x tickCount phase m)
    (hp : p < x.params.numProcessors) (hno : x.NoStale p) :
    m.given p <+: (x.files p).instructions := by
  -- a processor that had no turn was given nothing
  have first {k : Nat} (h : First x k m) : m.given p <+: (x.files p).instructions := by
    rcases Nat.lt_or_ge p k with hk | hk
    · rw [(h.untouched p hk).2.2]
      exact List.nil_prefix
    · exact (h.read p hk hp hno).isPrefix
  cases hpoint.stage with
  | start h | first h | firstDone h => exact first h
  | later h | laterDone h => exact (h.read p hp hno).isPrefix

/-- The first iteration gives every processor its first instruction. -/
theorem Input.exists_first (x : Input) : ∃ m, Point x 1 (.processors 0) m ∧ First x 0 m := by
  obtain ⟨s, hs, _⟩ := System.new_spec x.params
  have hturns : ∀ d, d ≤ x.params.numProcessors →
      ∃ m, Point x 1 (.processors (x.params.numProcessors - d)) m := by
    intro d
    induction d with
    | zero => exact fun _ => ⟨_, .enter (.start hs) (Nat.zero_le _)⟩
    | succ d ih =>
        intro hd
        obtain ⟨m, hm⟩ := ih (by omega)
        have hsucc : x.params.numProcessors - d = x.params.numProcessors - (d + 1) + 1 := by omega
        rw [hsucc] at hm
        obtain ⟨m', hm'⟩ := hm.progress
        exact ⟨m', .processor hm hm'⟩
  obtain ⟨m, hm⟩ := hturns _ le_rfl
  rw [Nat.sub_self] at hm
  refine ⟨m, hm, ?_⟩
  cases hm.stage with
  | first h => exact h

/-- Each processor runs its own trace: at every point of the loop, the loads and stores passed
to `insertInstruction` for it are the first records of its file. -/
def Input.OwnTraces (x : Input) : Prop :=
  ∀ tickCount phase m, Point x tickCount phase m → ∀ p < x.params.numProcessors,
    m.given p <+: (x.files p).instructions

/-- A processor that takes a stale operation runs an instruction its file does not have. -/
theorem Input.not_ownTraces_of_stale (hp : p < x.params.numProcessors) (hstale : ¬ x.NoStale p) :
    ¬ x.OwnTraces := by
  intro hown
  obtain ⟨m, hpoint, hfirst⟩ := x.exists_first
  have hprefix := hown 1 _ m hpoint p hp
  have hempty : (x.files p).instructions = [] := by
    rw [TraceFile.instructions, (not_noStale_iff.mp hstale).1]
    rfl
  rw [hempty] at hprefix
  exact hfirst.stale p (Nat.zero_le p) hp hstale (List.prefix_nil.mp hprefix)

/-- **Every processor runs its own trace exactly when no empty file is read too late:** when a
file is empty, those of the processors with higher numbers are empty as well, and the variable
`nextop`, which is not initialised, holds neither operation. -/
theorem own_traces_iff (x : Input) :
    x.OwnTraces ↔ ∀ p < x.params.numProcessors, (x.files p).lines = [] →
      (∀ q, p < q → q < x.params.numProcessors → (x.files q).lines = [])
        ∧ x.nextop ≠ 'r' ∧ x.nextop ≠ 'w' := by
  constructor
  · intro hown p hp
    by_contra hstale
    exact Input.not_ownTraces_of_stale hp hstale hown
  · intro hno tickCount phase m hpoint p hp
    exact hpoint.given_isPrefix hp (hno p hp)

end

/-- Two processors: the file of the first is empty, and that of the second has one load. -/
def emptyFirst : Input where
  params := ⟨2, .mesi, 1, 1⟩
  maxTicks := 1
  files := fun i => ⟨if i = 0 then [] else
    [⟨false, ['4', '0'], 'r', by decide, List.all_eq_true.mp rfl, by decide, .inl rfl⟩], true⟩
  nextaddress := 0
  nextop := 'n'

/-- **The first processor runs the load of the second.** -/
theorem not_ownTraces : ¬ emptyFirst.OwnTraces :=
  Input.not_ownTraces_of_stale (p := 0) (by decide) fun hno =>
    absurd ((hno rfl).1 1 (by decide) (by decide)) (List.cons_ne_nil _ _)

end CoherenceSim
