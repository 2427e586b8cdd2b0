import CoherenceSim.Lib.Reorder
import CoherenceSim.Proof.SystemTick
import Mathlib.Data.List.Nodup

/-!
# Orders that do not matter

`System::Tick` ticks the processors from the last to the first, and then the memory; the main loop
gives the processors their instructions in that order as well. Neither order matters. A component
that ticks, and a processor that is given an instruction, looks at itself only, and so two of them
commute; whatever the components have to do with each other they do on the bus, one at a time.
-/

namespace CoherenceSim

open BusNode Interconnect

/-! ## Visits commute -/

namespace Interconnect

variable {ν : Type}

theorem visit_eq (f : ν → Outcome ν) (ic : Interconnect ν) (a : Nat) :
    visit f ic a = (ic.getNode a >>= f).map (ic.putNode a) := by
  rw [visit]
  cases ic.getNode a with
  | error e => rfl
  | ok n =>
      simp only [Outcome.ok_bind]
      cases f n <;> rfl

theorem getNode_putNode_of_ne (ic : Interconnect ν) (n : ν) {a b : Nat} (hne : b ≠ a) :
    (ic.putNode a n).getNode b = ic.getNode b := by
  simp only [getNode, putNode, OrdMap.find?_assign, if_neg hne]

theorem putNode_comm (ic : Interconnect ν) (n m : ν) {a b : Nat} (hne : a ≠ b) :
    (ic.putNode a n).putNode b m = (ic.putNode b m).putNode a n := by
  simp only [putNode, OrdMap.assign_comm hne]

/-- Visits of different nodes may be made in any order. -/
theorem visit_comm (f g : ν → Outcome ν) (ic : Interconnect ν) {a b : Nat} (hne : a ≠ b) :
    Alike (visit f ic a >>= (visit g · b)) (visit g ic b >>= (visit f · a)) := by
  simp only [visit_eq]
  -- whatever becomes of the one node, the other one is where it was
  have hthen (n m : ν) : ((ic.putNode a n).getNode b >>= g) = (ic.getNode b >>= g)
      ∧ ((ic.putNode b m).getNode a >>= f) = (ic.getNode a >>= f) :=
    ⟨by rw [getNode_putNode_of_ne ic n (Ne.symm hne)], by rw [getNode_putNode_of_ne ic m hne]⟩
  cases hn : ic.getNode a >>= f with
  | error e =>
      cases hm : ic.getNode b >>= g with
      | error e' => exact .error _ _
      | ok m =>
          simp only [Except.map, Outcome.error_bind, Outcome.ok_bind, (hthen m m).2, hn]
          exact .error _ _
  | ok n =>
      simp only [Except.map, Outcome.ok_bind, (hthen n n).1]
      cases hm : ic.getNode b >>= g with
      | error e' => exact .error _ _
      | ok m =>
          simp only [Outcome.ok_bind, (hthen m m).2, hn]
          exact .ok_of_eq (ic.putNode_comm n m hne)

end Interconnect

/-! ## Components -/

/-- A component ticks. -/
def Node.tick : Node → Outcome Node
  | .processor p => do pure (.processor (← p.tick))
  | .memory m => do pure (.memory (← m.tick))

/-- A processor is given an instruction. -/
def Node.processInstruction (i : Instruction) : Node → Outcome Node
  | .processor p => pure (.processor (p.processInstruction i))
  | .memory _ => throw .noSuchNode

theorem Node.tick_of_tickProcessor {n n' : Node} (h : n.tickProcessor = .ok n') : n.tick = .ok n' := by
  cases n with
  | processor p => exact h
  | memory m => cases h

namespace System

variable {s s' : System}

/-- `Tick`, with the components in this order. -/
def tickIn (order : List Nat) (s : System) : Outcome (Option BusRequest × System) := do
  let ic ← order.foldlM (visit Node.tick) s.interconnect
  tickInterconnect { s with interconnect := ic, tickNumber := s.tickNumber + 1 }

/-- The order of `Tick`. -/
def ownOrder (s : System) : List Nat := s.processors.reverse ++ [s.memory]

theorem tickIn_perm {order order' : List Nat} (h : order.Perm order') (s : System) :
    Alike (s.tickIn order) (s.tickIn order') :=
  (Alike.foldlM_perm (fun ic _ _ hij => ic.visit_comm _ _ hij) h _).bind fun _ _ => .refl _

theorem tickIn_processors {order : List Nat} {req : Option BusRequest}
    (h : s.tickIn order = .ok (req, s')) : s'.processors = s.processors := by
  obtain ⟨ic, _, h⟩ := Outcome.bind_eq_ok.mp h
  obtain ⟨x, _, h⟩ := Outcome.bind_eq_ok.mp h
  cases h
  rfl

theorem visits_of_tickProcessors (l : List Nat) : ∀ {ic ic' : Interconnect Node},
    l.foldlM (visit Node.tickProcessor) ic = .ok ic' → l.foldlM (visit Node.tick) ic = .ok ic' := by
  induction l with
  | nil => exact fun h => h
  | cons a l ih =>
      intro ic ic' h
      rw [List.foldlM_cons] at h ⊢
      obtain ⟨ic₁, hvisit, hrest⟩ := Outcome.bind_eq_ok.mp h
      obtain ⟨n, hn, h₁⟩ := Outcome.bind_eq_ok.mp hvisit
      obtain ⟨n', hn', h₁⟩ := Outcome.bind_eq_ok.mp h₁
      have htick : visit Node.tick ic a = .ok ic₁ := by
        rw [visit, hn, Outcome.ok_bind, Node.tick_of_tickProcessor hn', Outcome.ok_bind]
        exact h₁
      rw [htick]
      exact ih hrest

/-- `Tick` goes through the components in its own order. -/
theorem tickIn_ownOrder {x : Option BusRequest × System} (h : s.tick = .ok x) :
    s.tickIn s.ownOrder = .ok x := by
  rw [tick_eq] at h
  obtain ⟨mid, hmid, h⟩ := Outcome.bind_eq_ok.mp h
  rw [tickNodes, tickProcessors_eq] at hmid
  cases hic : s.processors.reverse.foldlM (visit Node.tickProcessor) s.interconnect with
  | error e => rw [hic] at hmid; cases hmid
  | ok ic =>
      rw [hic, Except.map, Outcome.ok_bind] at hmid
      obtain ⟨m, hm, hmid⟩ := Outcome.bind_eq_ok.mp hmid
      obtain ⟨m', hm', hmid⟩ := Outcome.bind_eq_ok.mp hmid
      obtain ⟨n, hn, hm⟩ := Outcome.bind_eq_ok.mp hm
      cases n with
      | processor p => cases hm
      | memory m₀ =>
          cases hm
          cases hmid
          have hmemory : visit Node.tick ic s.memory = .ok (ic.putNode s.memory (.memory m')) := by
            rw [visit, hn, Outcome.ok_bind, Node.tick, hm']
            rfl
          rw [tickIn, ownOrder, List.foldlM_append, visits_of_tickProcessors _ hic, Outcome.ok_bind,
            List.foldlM_cons, hmemory]
          exact h

/-! ## Instructions -/

/-- A system whose interconnect was worked on. -/
def withInterconnect (s : System) (x : Outcome (Interconnect Node)) : Outcome System :=
  x.map fun ic => { s with interconnect := ic }

theorem insertInstruction_visit {processorNum a : Nat} (h : s.processors[processorNum]? = some a)
    (i : Instruction) : s.insertInstruction i processorNum
      = s.withInterconnect (visit (Node.processInstruction i) s.interconnect a) := by
  obtain ⟨hlen, _⟩ := List.getElem?_eq_some_iff.mp h
  simp only [insertInstruction, hlen, decide_true, assertThat_true, Outcome.ok_bind, h]
  rw [getProcessor, visit]
  cases s.interconnect.getNode a with
  | error e => rfl
  | ok n => cases n <;> rfl

theorem insertInstruction_error {processorNum : Nat} (h : s.processors[processorNum]? = none)
    (i : Instruction) : ∃ e, s.insertInstruction i processorNum = .error e := by
  have hlen := List.getElem?_eq_none_iff.mp h
  exact ⟨.noSuchProcessor, by
    rw [insertInstruction, decide_eq_false (by omega), assertThat_false, Outcome.error_bind]⟩

theorem insertInstruction_processors {i : Instruction} {processorNum : Nat}
    (h : s.insertInstruction i processorNum = .ok s') : s'.processors = s.processors := by
  cases ha : s.processors[processorNum]? with
  | none =>
      obtain ⟨e, he⟩ := insertInstruction_error ha i
      rw [he] at h; cases h
  | some a =>
      rw [insertInstruction_visit ha, withInterconnect] at h
      cases hv : visit (Node.processInstruction i) s.interconnect a with
      | error e => rw [hv] at h; cases h
      | ok ic => rw [hv] at h; cases h; rfl

theorem insertInstruction_twice {p q a b : Nat} (ha : s.processors[p]? = some a)
    (hb : s.processors[q]? = some b) (i j : Instruction) :
    (s.insertInstruction i p >>= fun s => s.insertInstruction j q) = s.withInterconnect
      (visit (Node.processInstruction i) s.interconnect a
        >>= (visit (Node.processInstruction j) · b)) := by
  rw [insertInstruction_visit ha]
  cases visit (Node.processInstruction i) s.interconnect a with
  | error e => rfl
  | ok ic => exact insertInstruction_visit (s := { s with interconnect := ic }) hb j

/-- A processor that is not there, in whatever order. -/
theorem insertInstruction_fails {p q : Nat} (ha : s.processors[p]? = none) (i j : Instruction) :
    (s.insertInstruction i p >>= fun s => s.insertInstruction j q).toOption = none
      ∧ (s.insertInstruction j q >>= fun s => s.insertInstruction i p).toOption = none := by
  constructor
  · obtain ⟨e, he⟩ := insertInstruction_error ha i
    rw [he]
    rfl
  · cases hj : s.insertInstruction j q with
    | error e => rfl
    | ok s₁ =>
        obtain ⟨e, he⟩ := insertInstruction_error (s := s₁)
          (by rw [insertInstruction_processors hj]; exact ha) i
        rw [Outcome.ok_bind, he]
        rfl

/-- **Two processors may be given their instructions in any order.** -/
theorem insertInstruction_comm (hnodup : s.processors.Nodup) {p q : Nat} (hne : p ≠ q)
    (i j : Instruction) : Alike (s.insertInstruction i p >>= fun s => s.insertInstruction j q)
      (s.insertInstruction j q >>= fun s => s.insertInstruction i p) := by
  cases ha : s.processors[p]? with
  | none =>
      obtain ⟨h₁, h₂⟩ := insertInstruction_fails (q := q) ha i j
      exact h₁.trans h₂.symm
  | some a =>
      cases hb : s.processors[q]? with
      | none =>
          obtain ⟨h₁, h₂⟩ := insertInstruction_fails (q := p) hb j i
          exact h₂.trans h₁.symm
      | some b =>
          rw [insertInstruction_twice ha hb, insertInstruction_twice hb ha]
          have hab : a ≠ b := by
            intro hab
            obtain ⟨hp, ha⟩ := List.getElem?_eq_some_iff.mp ha
            obtain ⟨hq, hb⟩ := List.getElem?_eq_some_iff.mp hb
            exact hne (hnodup.getElem_inj_iff.mp (ha.trans (hab.trans hb.symm)))
          exact (visit_comm _ _ s.interconnect hab).map

end System

/-! ## Runs -/

/-- One call, and the order in which the components tick. -/
inductive CallStep
  | insertInstruction (i : Instruction) (processorNum : Nat)
  | tick (order : List Nat)
  deriving Repr, DecidableEq

/-- The order of `Tick` in a system with these parameters. -/
def Params.ownOrder (ps : Params) : List Nat :=
  ((List.range ps.numProcessors).map (· + 1)).reverse ++ [ps.numProcessors + 1]

/-- A call as the source performs it. -/
def Event.step (ps : Params) : Event → CallStep
  | .insertInstruction i processorNum => .insertInstruction i processorNum
  | .tick => .tick ps.ownOrder

/-- The same calls, up to orders: those of the components in a tick, and those of insertions at
different processors between two ticks. -/
inductive Reordered : List CallStep → List CallStep → Prop
  | nil : Reordered [] []
  | cons (e : CallStep) {l l' : List CallStep} : Reordered l l' → Reordered (e :: l) (e :: l')
  | tick {order order' : List Nat} (l : List CallStep) : order.Perm order' →
      Reordered (.tick order :: l) (.tick order' :: l)
  | swap (i j : Instruction) {p q : Nat} (l : List CallStep) : p ≠ q →
      Reordered (.insertInstruction i p :: .insertInstruction j q :: l)
        (.insertInstruction j q :: .insertInstruction i p :: l)
  | trans {l l' l'' : List CallStep} : Reordered l l' → Reordered l' l'' → Reordered l l''

namespace System

/-- Perform a sequence of calls. -/
def execSteps : List CallStep → List TickRecord × System → Outcome (List TickRecord × System)
  | [], hs => pure hs
  | .insertInstruction i processorNum :: rest, (h, s) => do
      execSteps rest (h, ← s.insertInstruction i processorNum)
  | .tick order :: rest, (h, s) => do
      let (request, s') ← s.tickIn order
      execSteps rest (⟨s, request, s'⟩ :: h, s')

/-- A new system, and a sequence of calls on it. -/
def runSteps (ps : Params) (steps : List CallStep) : Outcome (List TickRecord × System) := do
  let s ← System.new ps.numProcessors ps.controllerType ps.memoryLatency ps.burstLength
  execSteps steps ([], s)

theorem execSteps_reordered {l l' : List CallStep} (hl : Reordered l l') :
    ∀ {h : List TickRecord} {s : System}, s.processors.Nodup →
      Alike (execSteps l (h, s)) (execSteps l' (h, s)) := by
  induction hl with
  | nil => exact fun _ => .refl _
  | cons e _ ih =>
      intro h s hs
      cases e with
      | insertInstruction i p =>
          exact (Alike.refl _).bind fun s₁ hs₁ => ih (insertInstruction_processors hs₁ ▸ hs)
      | tick order =>
          exact (Alike.refl _).bind fun ⟨_, s₁⟩ hs₁ => ih (tickIn_processors hs₁ ▸ hs)
  | tick l hperm =>
      intro h s hs
      exact (s.tickIn_perm hperm).bind fun _ _ => .refl _
  | @swap i j p q l hne =>
      intro h s hs
      have hassoc (i j : Instruction) (p q : Nat) :
          execSteps (.insertInstruction i p :: .insertInstruction j q :: l) (h, s)
            = (s.insertInstruction i p >>= fun s => s.insertInstruction j q)
              >>= fun s => execSteps l (h, s) := by
        rw [execSteps]
        cases s.insertInstruction i p <;> rfl
      rw [hassoc, hassoc]
      exact (insertInstruction_comm hs hne i j).bind fun _ _ => .refl _
  | trans _ _ ih₁ ih₂ => exact fun hs => (ih₁ hs).trans (ih₂ hs)

theorem Ok.ownOrder {ps : Params} {Q : Instruction → Prop} {s : System} (h : s.Ok ps Q) :
    s.ownOrder = ps.ownOrder := by
  rw [System.ownOrder, Params.ownOrder, h.processors, h.memory]

theorem execSteps_events {ps : Params} (events : List Event) :
    ∀ {h : List TickRecord} {s : System}, s.Ok ps (fun _ => True) →
      execSteps (events.map (Event.step ps)) (h, s) = exec events (h, s) := by
  induction events with
  | nil => exact fun _ => rfl
  | cons e rest ih =>
      intro h s hok
      rw [List.map_cons]
      cases e with
      | insertInstruction i p =>
          rw [Event.step, execSteps, exec]
          cases hs₁ : s.insertInstruction i p with
          | error e => rfl
          | ok s₁ => exact ih (hok.of_insertInstruction trivial hs₁).1
      | tick =>
          obtain ⟨_, req, s₁, hs₁, _, hok₁⟩ := hok.tick
          rw [Event.step, execSteps, exec, ← hok.ownOrder, tickIn_ownOrder hs₁, hs₁]
          exact ih hok₁

end System

/-- **The orders of the main loop and of `Tick` do not matter.** However the components are
ordered in every tick, and the insertions between two ticks, the run fails as before or it has the
same ticks and ends in the same state. -/
theorem orders_do_not_matter (ps : Params) (events : List Event) (steps : List CallStep)
    (h : Reordered (events.map (Event.step ps)) steps) :
    (System.runSteps ps steps).toOption = (System.run ps events).toOption := by
  obtain ⟨s, hs, hinit⟩ := System.new_spec ps
  have hok := hinit.ok fun _ => True
  have hnodup : s.processors.Nodup := by
    rw [hok.processors, List.Nodup, List.pairwise_map]
    exact List.nodup_range.imp fun hne => by omega
  rw [System.runSteps, System.run, hs, Outcome.ok_bind, Outcome.ok_bind,
    ← System.execSteps_events events hok]
  exact (System.execSteps_reordered h hnodup).symm

/-- Two processors, the other way round: memory ticks first. -/
theorem orders_do_not_matter_two_stores :
    (System.runSteps ⟨2, .mesi, 1, 2⟩ [.insertInstruction ⟨.store, 64, by decide⟩ 0,
      .insertInstruction ⟨.store, 128, by decide⟩ 1, .tick [3, 1, 2]]).toOption
    = (System.run ⟨2, .mesi, 1, 2⟩ [.insertInstruction ⟨.store, 128, by decide⟩ 1,
      .insertInstruction ⟨.store, 64, by decide⟩ 0, .tick]).toOption :=
  orders_do_not_matter _ _ _ (.trans (.swap _ _ _ (by decide))
    (.cons _ (.cons _ (.tick _ (by decide)))))

end CoherenceSim
