import CoherenceSim.Proof.SystemTick

/-!
# The ticks of one instruction

The ticks that a controller spends on one instruction are an `Episode`: the tick of the lookup,
then ticks in which the controller is not idle. Histories list the latest tick first.
-/

namespace CoherenceSim

/-- In this tick the idle controller `c` takes up the instruction that is pending. -/
structure LooksUp (a : Nat) (i : Instruction) (rec : TickRecord) (c : Controller) : Prop where
  controller : controllerAt rec.before.interconnect a = some c
  idle : c.currentState = .idleState
  pending : c.pendingInstructionFlag = true
  instruction : c.currentInstruction = some i

/-- In this tick the controller is at work on the instruction. -/
def WorksOn (a : Nat) (i : Instruction) (rec : TickRecord) : Prop :=
  ∃ c, controllerAt rec.before.interconnect a = some c ∧ c.currentState ≠ .idleState
    ∧ c.pendingInstructionFlag = true ∧ c.currentInstruction = some i

/-- `recs` are the ticks of the history that have gone into the instruction, which `c` looked
up in the first of them. -/
inductive Episode (a : Nat) (i : Instruction) (c : Controller) :
    List TickRecord → List TickRecord → Prop
  | lookup {rec : TickRecord} {older : List TickRecord} : LooksUp a i rec c →
      Episode a i c [rec] (rec :: older)
  | work {rec : TickRecord} {recs older : List TickRecord} : WorksOn a i rec →
      Episode a i c recs older → Episode a i c (rec :: recs) (rec :: older)

instance (a : Nat) (i : Instruction) (rec : TickRecord) : Decidable (WorksOn a i rec) :=
  decidable_of_iff ((controllerAt rec.before.interconnect a).any fun c =>
    decide (c.currentState ≠ .idleState ∧ c.pendingInstructionFlag = true
      ∧ c.currentInstruction = some i))
    (by simp only [Option.any_eq_true, decide_eq_true_eq]; rfl)

instance (a : Nat) (i : Instruction) (rec : TickRecord) : Decidable (∃ c, LooksUp a i rec c) :=
  decidable_of_iff ((controllerAt rec.before.interconnect a).any fun c =>
    decide (c.currentState = .idleState ∧ c.pendingInstructionFlag = true
      ∧ c.currentInstruction = some i)) (by
    simp only [Option.any_eq_true, decide_eq_true_eq]
    exact exists_congr fun c =>
      ⟨fun ⟨h₁, h₂, h₃, h₄⟩ => ⟨h₁, h₂, h₃, h₄⟩, fun ⟨h₁, h₂, h₃, h₄⟩ => ⟨h₁, h₂, h₃, h₄⟩⟩)

variable {a : Nat} {i : Instruction} {c c' : Controller} {rec : TickRecord}
  {recs recs' older : List TickRecord}

theorem LooksUp.not_worksOn (h : LooksUp a i rec c) : ¬ WorksOn a i rec := by
  rintro ⟨c', hc', hne, _⟩
  rw [h.controller] at hc'; cases hc'
  exact hne h.idle

/-- A history ends in one episode at most. -/
theorem Episode.unique (h : Episode a i c recs older) (h' : Episode a i c' recs' older) :
    recs' = recs ∧ c' = c := by
  induction h generalizing recs' with
  | lookup hl =>
      cases h' with
      | lookup hl' =>
          have heq := hl.controller.symm.trans hl'.controller
          cases heq
          exact ⟨rfl, rfl⟩
      | work hw => exact absurd hw hl.not_worksOn
  | work hw _ ih =>
      cases h' with
      | lookup hl' => exact absurd hw hl'.not_worksOn
      | work _ h' =>
          obtain ⟨rfl, rfl⟩ := ih h'
          exact ⟨rfl, rfl⟩

theorem Episode.subset (h : Episode a i c recs older) : recs ⊆ older := by
  induction h with
  | lookup =>
      intro rec hrec
      rw [List.mem_singleton.mp hrec]
      exact List.mem_cons_self
  | work _ _ ih => exact List.cons_subset_cons _ ih

/-! ## The line of an instruction -/

theorem Controller.Instructs.lineKey_eq {opcode : Opcode} {adx : Nat} (hi : c.Instructs opcode adx)
    (hc : c.currentInstruction = some i) (ok : c.cache.Ok) : lineKey i.address = lineKey adx := by
  obtain ⟨j, hj, _, rfl⟩ := hi
  rw [hc] at hj; cases hj
  exact (ok.lineKey_getLineAlignedAddress i.isLt).symm

theorem Controller.Instructs.opcode_eq {opcode : Opcode} {adx : Nat} (hi : c.Instructs opcode adx)
    (hc : c.currentInstruction = some i) : i.opcode = opcode := by
  obtain ⟨j, hj, hop, _⟩ := hi
  rw [hc] at hj; cases hj
  exact hop

end CoherenceSim
