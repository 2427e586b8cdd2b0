import Mathlib.Data.Set.Insert
import Mathlib.Logic.Function.Basic
import Mathlib.Logic.Relation

/-!
# One line on a snooping bus

A set of agents share a bus and one memory line. An agent may hold the line, owned or
shared; it may have a miss on it, which passes from waiting for the bus to waiting for an
answer to being answered; and it may have urgent commands of its own in a queue. Memory
answers reads, too, and may lock the bus while it does.

Nothing is compared globally. What an agent may do with an answer is decided by three
flags, which record the commands it saw while it waited. The invariant below says why
that is enough for ownership to be exclusive.

The protocol is stated as a relation, with everything left out that exclusivity does not
depend on: who gets the bus when, how long an answer takes, why a line is dropped.
-/

namespace CoherenceSim

namespace SnoopLine

/-- How an agent holds the line. -/
inductive Copy
  | owned
  | shared
  deriving Repr, DecidableEq

/-- Who answered a read. -/
inductive Source
  | memory
  | agent
  deriving Repr, DecidableEq

inductive Command
  | read
  | readX
  | write
  | dataMemory
  | dataAgent
  | invalidate
  | shareMe
  deriving Repr, DecidableEq

/-- A miss: what was asked for, how far it got, and what was seen meanwhile. -/
structure Miss where
  excl : Bool
  sent : Bool
  answer : Option Source
  sawRead : Bool
  sawReadX : Bool
  sawInvalidate : Bool
  deriving Repr, DecidableEq

namespace Miss

/-- A miss that has not been on the bus yet. -/
def new (excl : Bool) : Miss := ⟨excl, false, none, false, false, false⟩

/-- The command that asks for the line. -/
def command (m : Miss) : Command := if m.excl then .readX else .read

/-- Nothing was seen while waiting. -/
def Clear (m : Miss) : Prop := m.sawRead = false ∧ m.sawReadX = false ∧ m.sawInvalidate = false

/-- A request, exclusive or not, was seen while waiting. -/
def saw (m : Miss) (excl : Bool) : Prop := if excl then m.sawReadX = true else m.sawRead = true

theorem Clear.not_saw {m : Miss} (h : m.Clear) (excl : Bool) : ¬ m.saw excl := by
  cases excl <;> simp [saw, h.1, h.2.1]

end Miss

structure Agent where
  line : Option Copy
  miss : Option Miss
  out : Set Command

/-- The commands by which an agent hands its copy out. -/
def Answers (cmd : Command) : Prop := cmd = .write ∨ cmd = .dataAgent

/-- The commands that carry the line. -/
def Delivers (cmd : Command) : Prop := cmd = .write ∨ cmd = .dataAgent ∨ cmd = .dataMemory

theorem Miss.not_delivers_command (m : Miss) : ¬ Delivers m.command := by
  unfold Miss.command Delivers; split <;> simp

/-- Where the line in such a command comes from. -/
def source (cmd : Command) : Source := if cmd = .dataMemory then .memory else .agent

/-! ## What agents do -/

/-- What an agent does by itself. -/
inductive Local : Agent → Agent → Prop
  | drop (a : Agent) : Local a { a with line := none }
  | start (a : Agent) (excl : Bool) : a.line = none → a.miss = none →
      Local a { a with miss := some (Miss.new excl) }
  | giveUp {a : Agent} {m : Miss} : a.miss = some m → m.answer ≠ none →
      Local a { a with miss := none }
  | giveBack {a : Agent} {m : Miss} : a.miss = some m → m.answer ≠ none →
      Local a { a with miss := none, out := insert .write a.out }
  | fillShared {a : Agent} {m : Miss} : a.miss = some m → m.answer ≠ none → m.excl = false →
      m.sawReadX = false → m.sawInvalidate = false →
      Local a { a with line := some .shared, miss := none }
  | fillAlone {a : Agent} {m : Miss} : a.miss = some m → m.answer = some .memory →
      m.excl = false → m.Clear → Local a { a with line := some .owned, miss := none }
  | fillOwned {a : Agent} {m : Miss} : a.miss = some m → m.answer ≠ none → m.excl = true →
      m.Clear → Local a { a with line := some .owned, miss := none }
  | upgrade (a : Agent) : Local a { a with out := insert .invalidate a.out }

/-- What a delivery cancels: perhaps the agent's own copy on its way out. -/
structure Trim (cmd : Command) (out out' : Set Command) : Prop where
  subset : out' ⊆ out
  lost : ∀ c ∈ out, c ∉ out' → c = .dataAgent ∧ Delivers cmd

theorem Trim.rfl {cmd : Command} {out : Set Command} : Trim cmd out out :=
  ⟨Set.Subset.refl _, fun _ h h' => absurd h h'⟩

/-- The agent has no part in this command. -/
structure Unconcerned (cmd : Command) (a : Agent) : Prop where
  line : a.line ≠ none → Delivers cmd
  miss : ∀ m, a.miss = some m → m.answer = none → Delivers cmd ∧ m.sent = false

/-- What an agent does about a command of another. -/
inductive Snoop : Command → Agent → Agent → Prop
  | holdRead {a : Agent} {c : Command} : a.line ≠ none → Answers c →
      Snoop .read a { a with line := some .shared, out := insert c a.out }
  | holdReadX {a : Agent} {c : Command} : a.line ≠ none → Answers c →
      Snoop .readX a { a with line := none, out := insert c a.out }
  | holdInvalidate {a : Agent} : a.line ≠ none → Snoop .invalidate a { a with line := none }
  | holdInvalidateWrite {a : Agent} : a.line ≠ none →
      Snoop .invalidate a { a with line := none, out := insert .write a.out }
  | holdShareMe {a : Agent} : a.line ≠ none → Snoop .shareMe a { a with line := some .shared }
  | waitRead {a : Agent} {m : Miss} : a.line = none → a.miss = some m → m.answer = none →
      Snoop .read a
        { a with miss := some { m with sawRead := true }, out := insert .shareMe a.out }
  | waitReadX {a : Agent} {m : Miss} : a.line = none → a.miss = some m → m.answer = none →
      Snoop .readX a { a with miss := some { m with sawReadX := true } }
  | waitInvalidate {a : Agent} {m : Miss} : a.line = none → a.miss = some m → m.answer = none →
      Snoop .invalidate a { a with miss := some { m with sawInvalidate := true } }
  | waitShareMe {a : Agent} {m : Miss} : a.line = none → a.miss = some m → m.answer = none →
      Snoop .shareMe a { a with miss := some { m with sawRead := true } }
  | answered {cmd : Command} {a : Agent} {m : Miss} {out' : Set Command} : Delivers cmd →
      a.miss = some m → m.sent = true → m.answer = none → Trim cmd a.out out' →
      Snoop cmd a { a with miss := some { m with answer := some (source cmd) }, out := out' }
  | ignored {cmd : Command} {a : Agent} {out' : Set Command} : Unconcerned cmd a →
      Trim cmd a.out out' → Snoop cmd a { a with out := out' }

theorem Local.congr {a b b' : Agent} (h : Local a b) (heq : b' = b) : Local a b' := heq ▸ h

theorem Snoop.congr {cmd : Command} {a b b' : Agent} (h : Snoop cmd a b) (heq : b' = b) :
    Snoop cmd a b' := heq ▸ h

/-- An agent that has nothing to do with the line. -/
def Agent.idle : Agent := ⟨none, none, ∅⟩

theorem Snoop.idle (cmd : Command) : Snoop cmd .idle .idle :=
  .ignored ⟨fun h => absurd rfl h, fun _ h => (by cases h)⟩ .rfl

/-! ## What a snooping agent keeps -/

/-- The record of a miss only ever grows. -/
structure Miss.Grew (m m' : Miss) : Prop where
  excl : m'.excl = m.excl
  sent : m'.sent = m.sent
  sawRead : m.sawRead = true → m'.sawRead = true
  sawReadX : m.sawReadX = true → m'.sawReadX = true
  sawInvalidate : m.sawInvalidate = true → m'.sawInvalidate = true

theorem Miss.Grew.saw {m m' : Miss} (h : m.Grew m') {excl : Bool} (hs : m.saw excl) :
    m'.saw excl := by
  cases excl with
  | false => exact h.sawRead hs
  | true => exact h.sawReadX hs

theorem Miss.Grew.clear {m m' : Miss} (h : m.Grew m') (hc : m'.Clear) : m.Clear := by
  refine ⟨?_, ?_, ?_⟩
  · exact Bool.eq_false_iff.mpr fun hs => absurd (h.sawRead hs) (by simp [hc.1])
  · exact Bool.eq_false_iff.mpr fun hs => absurd (h.sawReadX hs) (by simp [hc.2.1])
  · exact Bool.eq_false_iff.mpr fun hs => absurd (h.sawInvalidate hs) (by simp [hc.2.2])

theorem Miss.Grew.rfl {m : Miss} : m.Grew m := ⟨Eq.refl _, Eq.refl _, id, id, id⟩

/-- What every command leaves true of an agent that snoops it. -/
structure Kept (cmd : Command) (a a' : Agent) : Prop where
  owned : a'.line = some .owned → a.line = some .owned
  held : a'.line ≠ none → a.line ≠ none
  miss : ∀ m', a'.miss = some m' → ∃ m, a.miss = some m ∧ m.Grew m'
    ∧ (m'.answer = m.answer ∨ (Delivers cmd ∧ m.sent = true ∧ m.answer = none
      ∧ m'.answer = some (source cmd)))

theorem Snoop.kept {cmd : Command} {a a' : Agent} (h : Snoop cmd a a') : Kept cmd a a' := by
  -- most commands leave the miss alone
  have same : ∀ {b : Agent}, b.miss = a.miss → ∀ m', b.miss = some m' → ∃ m, a.miss = some m
      ∧ m.Grew m' ∧ (m'.answer = m.answer
        ∨ (Delivers cmd ∧ m.sent = true ∧ m.answer = none
      ∧ m'.answer = some (source cmd))) :=
    fun hb m' hm' => ⟨m', hb ▸ hm', Miss.Grew.rfl, Or.inl rfl⟩
  cases h with
  | holdRead hl _ => exact ⟨fun h => (by cases h), fun _ => hl, same rfl⟩
  | holdReadX hl _ => exact ⟨fun h => (by cases h), fun _ => hl, same rfl⟩
  | holdInvalidate hl => exact ⟨fun h => (by cases h), fun _ => hl, same rfl⟩
  | holdInvalidateWrite hl => exact ⟨fun h => (by cases h), fun _ => hl, same rfl⟩
  | holdShareMe hl => exact ⟨fun h => (by cases h), fun _ => hl, same rfl⟩
  | waitRead hl hm ha =>
      refine ⟨id, id, fun m' hm' => ⟨_, hm, ?_, ?_⟩⟩ <;> cases hm'
      · exact ⟨rfl, rfl, fun _ => rfl, id, id⟩
      · exact Or.inl rfl
  | waitReadX hl hm ha =>
      refine ⟨id, id, fun m' hm' => ⟨_, hm, ?_, ?_⟩⟩ <;> cases hm'
      · exact ⟨rfl, rfl, id, fun _ => rfl, id⟩
      · exact Or.inl rfl
  | waitInvalidate hl hm ha =>
      refine ⟨id, id, fun m' hm' => ⟨_, hm, ?_, ?_⟩⟩ <;> cases hm'
      · exact ⟨rfl, rfl, id, id, fun _ => rfl⟩
      · exact Or.inl rfl
  | waitShareMe hl hm ha =>
      refine ⟨id, id, fun m' hm' => ⟨_, hm, ?_, ?_⟩⟩ <;> cases hm'
      · exact ⟨rfl, rfl, fun _ => rfl, id, id⟩
      · exact Or.inl rfl
  | answered hd hm hs ha _ =>
      refine ⟨id, id, fun m' hm' => ⟨_, hm, ?_, ?_⟩⟩ <;> cases hm'
      · exact ⟨rfl, rfl, id, id, id⟩
      · exact Or.inr ⟨hd, hs, ha, rfl⟩
  | ignored _ _ => exact ⟨id, id, same rfl⟩

/-- A command that carries nothing cancels nothing. -/
theorem Snoop.out_subset {cmd : Command} {a a' : Agent} (h : Snoop cmd a a')
    (hcmd : ¬ Delivers cmd) : a.out ⊆ a'.out := by
  have trim : ∀ {out' : Set Command}, Trim cmd a.out out' → a.out ⊆ out' := by
    intro out' ht c hc
    by_contra hne
    exact hcmd (ht.lost c hc hne).2
  cases h with
  | holdRead _ _ => exact Set.subset_insert _ _
  | holdReadX _ _ => exact Set.subset_insert _ _
  | holdInvalidate _ => exact Set.Subset.refl _
  | holdInvalidateWrite _ => exact Set.subset_insert _ _
  | holdShareMe _ => exact Set.Subset.refl _
  | waitRead _ _ _ => exact Set.subset_insert _ _
  | waitReadX _ _ _ => exact Set.Subset.refl _
  | waitInvalidate _ _ _ => exact Set.Subset.refl _
  | waitShareMe _ _ _ => exact Set.Subset.refl _
  | answered _ _ _ _ ht => exact trim ht
  | ignored _ ht => exact trim ht

/-- Whatever is on the bus, an agent waiting for an answer gets it or takes note. -/
theorem Snoop.notices {cmd : Command} {a a' : Agent} (h : Snoop cmd a a')
    (hline : a.line = none) {m' : Miss} (hm' : a'.miss = some m') (hs : m'.sent = true)
    (ha : m'.answer = none) : ¬ m'.Clear := by
  intro hc
  cases h with
  | holdRead hl _ => exact hl hline
  | holdReadX hl _ => exact hl hline
  | holdInvalidate hl => exact hl hline
  | holdInvalidateWrite hl => exact hl hline
  | holdShareMe hl => exact hl hline
  | waitRead _ _ _ => cases hm'; exact absurd hc.1 (by simp)
  | waitReadX _ _ _ => cases hm'; exact absurd hc.2.1 (by simp)
  | waitInvalidate _ _ _ => cases hm'; exact absurd hc.2.2 (by simp)
  | waitShareMe _ _ _ => cases hm'; exact absurd hc.1 (by simp)
  | answered _ _ _ _ _ => cases hm'; cases ha
  | ignored hu _ => rw [(hu.miss _ hm' ha).2] at hs; cases hs

/-- What a request finds and leaves at an agent. -/
structure Requested (excl : Bool) (a a' : Agent) : Prop where
  notOwned : a'.line ≠ some .owned
  dropped : excl = true → a'.line = none
  saw : ∀ m', a'.miss = some m' → a.line = none → m'.answer = none → m'.saw excl
  answer : excl = false → a'.line ≠ none → ∃ c ∈ a'.out, Answers c
  shareMe : excl = false → a'.miss ≠ none → a.line = none →
    (∀ m, a.miss = some m → m.answer = none) → .shareMe ∈ a'.out

theorem Snoop.requested {m : Miss} {a a' : Agent} (h : Snoop m.command a a') :
    Requested m.excl a a' := by
  have hcmd := m.not_delivers_command
  have hexcl : m.command = .readX ↔ m.excl = true := by
    unfold Miss.command; split <;> simp_all
  have hread : m.command = .read ↔ m.excl = false := by
    unfold Miss.command; split <;> simp_all
  generalize m.command = cmd at h hcmd hexcl hread
  cases h with
  | holdRead hl hc =>
      refine ⟨by simp, fun he => ?_, fun _ _ h0 => absurd h0 hl, fun _ _ => ⟨_, Set.mem_insert _ _, hc⟩,
        fun _ _ h0 => absurd h0 hl⟩
      rw [hread.mp rfl] at he; cases he
  | holdReadX hl hc =>
      exact ⟨by simp, fun _ => rfl, fun _ _ h0 => absurd h0 hl, fun _ h0 => absurd rfl h0,
        fun _ _ h0 => absurd h0 hl⟩
  | waitRead hl hm ha =>
      refine ⟨by simp [hl], fun _ => hl, fun m' hm' _ _ => ?_, fun _ h0 => absurd hl h0,
        fun _ _ _ _ => Set.mem_insert _ _⟩
      cases hm'; rw [hread.mp rfl]; rfl
  | waitReadX hl hm ha =>
      refine ⟨by simp [hl], fun _ => hl, fun m' hm' _ _ => ?_, fun _ h0 => absurd hl h0, fun he => ?_⟩
      · cases hm'; rw [hexcl.mp rfl]; rfl
      · rw [hexcl.mp rfl] at he; cases he
  | ignored hu _ =>
      have hl : a.line = none := by_contra fun h0 => hcmd (hu.line h0)
      refine ⟨by simp [hl], fun _ => hl, fun m' hm' _ ha => ?_, fun _ h0 => absurd hl h0,
        fun _ h0 _ hall => ?_⟩
      · exact absurd (hu.miss m' hm' ha).1 hcmd
      · obtain ⟨m', hm'⟩ := Option.ne_none_iff_exists'.mp h0
        exact absurd (hu.miss m' hm' (hall m' hm')).1 hcmd
  | holdInvalidate _ => simp_all
  | holdInvalidateWrite _ => simp_all
  | holdShareMe _ => simp_all
  | waitInvalidate _ _ _ => simp_all
  | waitShareMe _ _ _ => simp_all
  | answered hd _ _ _ _ => exact absurd hd hcmd

/-! ## The invariant -/

/-- The invariant of one agent. -/
structure Own (a : Agent) : Prop where
  noLine : a.miss ≠ none → a.line = none
  sent : ∀ m, a.miss = some m → m.answer ≠ none → m.sent = true
  /-- Once its request is out, an agent has no copy of the line left to hand out. -/
  noAnswer : ∀ m, a.miss = some m → m.sent = true → ∀ c ∈ a.out, ¬ Answers c

/-- The invariant of two agents. -/
structure Pair (a b : Agent) : Prop where
  owned : a.line = some .owned → b.line = none
  /-- Beside an owner, whoever asks knows that it asked too early. -/
  ownedMiss : a.line = some .owned → ∀ n, b.miss = some n → n.sent = true → n.sawReadX = true
  /-- Of two requests that are out, one saw the other. -/
  race : ∀ m n, a.miss = some m → b.miss = some n → m.sent = true → n.sent = true →
    m.saw n.excl ∨ n.saw m.excl
  excl : ∀ m, a.miss = some m → m.sent = true → m.excl = true → m.Clear → b.line = none
  /-- A read that nobody disturbed has not been told yet of the others it concerns: the
  command that will tell it is still queued. -/
  read : ∀ m, a.miss = some m → m.sent = true → m.excl = false → m.answer = none → m.Clear →
    (b.line ≠ none → ∃ c ∈ b.out, Answers c ∨ c = .shareMe)
    ∧ ∀ n, b.miss = some n → n.sent = true → .shareMe ∈ b.out
  /-- Memory's answer to an undisturbed read means that there is no other copy. -/
  alone : ∀ m, a.miss = some m → m.excl = false → m.answer = some .memory → m.Clear →
    b.line = none ∧ ∀ n, b.miss = some n → n.sent = false

/-- The part of `Pair` that outlives every command of others. -/
structure Guarded (a b : Agent) : Prop where
  owned : a.line = some .owned → b.line = none
  ownedMiss : a.line = some .owned → ∀ n, b.miss = some n → n.sent = true → n.sawReadX = true
  race : ∀ m n, a.miss = some m → b.miss = some n → m.sent = true → n.sent = true →
    m.saw n.excl ∨ n.saw m.excl
  excl : ∀ m, a.miss = some m → m.sent = true → m.excl = true → m.Clear → b.line = none

theorem Pair.guarded {a b : Agent} (h : Pair a b) : Guarded a b :=
  ⟨h.owned, h.ownedMiss, h.race, h.excl⟩

theorem Kept.noLine {cmd : Command} {a a' : Agent} (hk : Kept cmd a a') (h : a.line = none) :
    a'.line = none := by_contra fun h0 => hk.held h0 h

/-- The first agent snoops a command. -/
theorem Guarded.left {cmd : Command} {a a' b : Agent} (h : Guarded a b) (hk : Kept cmd a a') :
    Guarded a' b where
  owned ho := h.owned (hk.owned ho)
  ownedMiss ho := h.ownedMiss (hk.owned ho)
  race m' n hm' hn hs hs' := by
    obtain ⟨m, hm, hg, _⟩ := hk.miss m' hm'
    rw [hg.excl]
    exact (h.race m n hm hn (hg.sent ▸ hs) hs').imp hg.saw id
  excl m' hm' hs hex hc := by
    obtain ⟨m, hm, hg, _⟩ := hk.miss m' hm'
    exact h.excl m hm (hg.sent ▸ hs) (hg.excl ▸ hex) (hg.clear hc)

/-- The second agent snoops a command. -/
theorem Guarded.right {cmd : Command} {a b b' : Agent} (h : Guarded a b) (hk : Kept cmd b b') :
    Guarded a b' where
  owned ho := hk.noLine (h.owned ho)
  ownedMiss ho n' hn' hs := by
    obtain ⟨n, hn, hg, _⟩ := hk.miss n' hn'
    exact hg.sawReadX (h.ownedMiss ho n hn (hg.sent ▸ hs))
  race m n' hm hn' hs hs' := by
    obtain ⟨n, hn, hg, _⟩ := hk.miss n' hn'
    rw [hg.excl]
    exact (h.race m n hm hn hs (hg.sent ▸ hs')).imp id hg.saw
  excl m hm hs hex hc := hk.noLine (h.excl m hm hs hex hc)

/-! ## Local steps -/

section LocalSteps

variable {a a' b : Agent}

theorem Local.own (h : Local a a') (ha : Own a) : Own a' := by
  cases h with
  | drop => exact ⟨fun _ => rfl, ha.sent, ha.noAnswer⟩
  | start excl hl hm =>
      refine ⟨fun _ => hl, fun m hm' h0 => ?_, fun m hm' hs => ?_⟩ <;> cases hm'
      · exact absurd rfl h0
      · cases hs
  | giveUp hm h0 => exact ⟨fun h => absurd rfl h, fun _ h => (by cases h), fun _ h => (by cases h)⟩
  | giveBack hm h0 => exact ⟨fun h => absurd rfl h, fun _ h => (by cases h), fun _ h => (by cases h)⟩
  | fillShared hm h0 _ _ _ =>
      exact ⟨fun h => absurd rfl h, fun _ h => (by cases h), fun _ h => (by cases h)⟩
  | fillAlone hm h0 _ _ =>
      exact ⟨fun h => absurd rfl h, fun _ h => (by cases h), fun _ h => (by cases h)⟩
  | fillOwned hm h0 _ _ =>
      exact ⟨fun h => absurd rfl h, fun _ h => (by cases h), fun _ h => (by cases h)⟩
  | upgrade =>
      refine ⟨ha.noLine, ha.sent, fun m hm hs c hc => ?_⟩
      rcases hc with rfl | hc
      · simp [Answers]
      · exact ha.noAnswer m hm hs c hc

/-- Without a miss of its own, an agent owes the other only what an owner owes. -/
theorem pair_of_noMiss (hm : a'.miss = none)
    (hl : a'.line = some .owned → b.line = none
      ∧ ∀ n, b.miss = some n → n.sent = true → n.sawReadX = true) : Pair a' b where
  owned ho := (hl ho).1
  ownedMiss ho := (hl ho).2
  race m _ h0 := by rw [hm] at h0; cases h0
  excl m h0 := by rw [hm] at h0; cases h0
  read m h0 := by rw [hm] at h0; cases h0
  alone m h0 := by rw [hm] at h0; cases h0

theorem Local.pair_left (h : Local a a') (ha : Own a) (hab : Pair a b) : Pair a' b := by
  cases h with
  | drop =>
      exact ⟨fun h => (by cases h), fun h => (by cases h), hab.race, hab.excl, hab.read, hab.alone⟩
  | start excl hl hm =>
      refine ⟨fun h => (by rw [hl] at h; cases h), fun h => (by rw [hl] at h; cases h), ?_, ?_, ?_, ?_⟩
      · intro m n h0 _ hs; cases h0; cases hs
      · intro m h0 hs; cases h0; cases hs
      · intro m h0 hs; cases h0; cases hs
      · intro m h0 _ hans; cases h0; cases hans
  | giveUp hm _ => exact pair_of_noMiss rfl fun ho => ⟨hab.owned ho, hab.ownedMiss ho⟩
  | giveBack hm _ => exact pair_of_noMiss rfl fun ho => ⟨hab.owned ho, hab.ownedMiss ho⟩
  | fillShared hm _ _ _ _ => exact pair_of_noMiss rfl fun ho => (by cases ho)
  | fillAlone hm hans hex hc =>
      obtain ⟨hl, hn⟩ := hab.alone _ hm hex hans hc
      exact pair_of_noMiss rfl fun _ => ⟨hl, fun n h0 hs => by rw [hn n h0] at hs; cases hs⟩
  | fillOwned hm h0 hex hc =>
      have hs := ha.sent _ hm h0
      refine pair_of_noMiss rfl fun _ => ⟨hab.excl _ hm hs hex hc, fun n hn hns => ?_⟩
      rcases hab.race _ _ hm hn hs hns with hsaw | hsaw
      · exact absurd hsaw (hc.not_saw _)
      · rw [hex] at hsaw; exact hsaw
  | upgrade => exact ⟨hab.owned, hab.ownedMiss, hab.race, hab.excl, hab.read, hab.alone⟩

theorem Local.pair_right (h : Local a a') (ha : Own a) (hb : Own b) (hab : Pair a b)
    (hba : Pair b a) : Pair b a' := by
  cases h with
  | drop =>
      refine ⟨fun _ => rfl, hba.ownedMiss, hba.race, fun _ _ _ _ _ => rfl, ?_, ?_⟩
      · intro m hm hs hex hans hc
        exact ⟨fun h0 => absurd rfl h0, (hba.read m hm hs hex hans hc).2⟩
      · intro m hm hex hans hc
        exact ⟨rfl, (hba.alone m hm hex hans hc).2⟩
  | start excl hl hm =>
      -- a new miss is not out yet, so that it owes the other nothing
      have unsent : ∀ n, some (Miss.new excl) = some n → n.sent = false := by
        intro n hn; cases hn; rfl
      refine ⟨fun _ => hl, ?_, ?_, fun _ _ _ _ _ => hl, ?_, ?_⟩
      · intro _ n hn hs; rw [unsent n hn] at hs; cases hs
      · intro _ n _ hn _ hs; rw [unsent n hn] at hs; cases hs
      · intro m _ _ _ _ _
        exact ⟨fun h0 => absurd hl h0, fun n hn hs => by rw [unsent n hn] at hs; cases hs⟩
      · intro m _ _ _ _
        exact ⟨hl, unsent⟩
  | giveUp hm h0 =>
      refine ⟨hba.owned, fun _ _ h => (by cases h), fun _ _ _ h => (by cases h), hba.excl, ?_, ?_⟩
      · intro m hm hs hex hans hc
        exact ⟨(hba.read m hm hs hex hans hc).1, fun _ h => (by cases h)⟩
      · intro m hm hex hans hc
        exact ⟨(hba.alone m hm hex hans hc).1, fun _ h => (by cases h)⟩
  | giveBack hm h0 =>
      refine ⟨hba.owned, fun _ _ h => (by cases h), fun _ _ _ h => (by cases h), hba.excl, ?_, ?_⟩
      · intro m hm hs hex hans hc
        refine ⟨fun hl => ?_, fun _ h => (by cases h)⟩
        obtain ⟨c, hc', hw⟩ := (hba.read m hm hs hex hans hc).1 hl
        exact ⟨c, Set.mem_insert_of_mem _ hc', hw⟩
      · intro m hm hex hans hc
        exact ⟨(hba.alone m hm hex hans hc).1, fun _ h => (by cases h)⟩
  | @fillShared m hm h0 hex hsx hsi =>
      have hs := ha.sent _ hm h0
      -- whoever fetches exclusively was seen by this read, or saw it, and is not clear
      have missed : ∀ n, b.miss = some n → n.sent = true → n.Clear → n.excl = true → False := by
        intro n hn hns hc hnx
        rcases hba.race n m hn hm hns hs with h | h
        · exact hc.not_saw _ h
        · rw [hnx, Miss.saw, if_pos rfl, hsx] at h; cases h
      refine ⟨?_, fun _ _ h => (by cases h), fun _ _ _ h => (by cases h), ?_, ?_, ?_⟩
      · intro ho
        have := hba.ownedMiss ho m hm hs
        rw [hsx] at this; cases this
      · intro n hn hns hnx hc
        exact (missed n hn hns hc hnx).elim
      · intro n hn hns hnx hans hc
        exact ⟨fun _ => ⟨_, (hba.read n hn hns hnx hans hc).2 m hm hs, Or.inr rfl⟩,
          fun _ h => (by cases h)⟩
      · intro n hn hnx hans hc
        have := (hba.alone n hn hnx hans hc).2 m hm
        rw [hs] at this; cases this
  | @fillAlone m hm hans hex hc =>
      have hs := ha.sent _ hm (by rw [hans]; simp)
      obtain ⟨hl, hn⟩ := hab.alone _ hm hex hans hc
      -- memory answers a read that nobody disturbed only if nobody else has asked
      have noSent : ∀ n, b.miss = some n → n.sent = true → False := by
        intro n h0 hns; rw [hn n h0] at hns; cases hns
      refine ⟨fun ho => (by rw [hl] at ho; cases ho), fun _ _ h => (by cases h),
        fun _ _ _ h => (by cases h), ?_, ?_, ?_⟩
      · intro n h0 hns _ _; exact (noSent n h0 hns).elim
      · intro n h0 hns _ _ _; exact (noSent n h0 hns).elim
      · intro n h0 _ hans' _
        exact (noSent n h0 (hb.sent n h0 (by rw [hans']; simp))).elim
  | @fillOwned m hm h0 hex hc =>
      have hs := ha.sent _ hm h0
      have hl := hab.excl _ hm hs hex hc
      -- of two requests that are out, one was seen by the other
      have missed : ∀ n, b.miss = some n → n.sent = true → n.Clear → False := by
        intro n hn hns hnc
        rcases hab.race m n hm hn hs hns with h | h
        · exact hc.not_saw _ h
        · exact hnc.not_saw _ h
      refine ⟨fun ho => (by rw [hl] at ho; cases ho), fun _ _ h => (by cases h),
        fun _ _ _ h => (by cases h), ?_, ?_, ?_⟩
      · intro n hn hns _ hnc; exact (missed n hn hns hnc).elim
      · intro n hn hns _ _ hnc; exact (missed n hn hns hnc).elim
      · intro n hn _ hans hnc
        exact (missed n hn (hb.sent n hn (by rw [hans]; simp)) hnc).elim
  | upgrade =>
      refine ⟨hba.owned, hba.ownedMiss, hba.race, hba.excl, ?_, hba.alone⟩
      intro m hm hs hex hans hc
      obtain ⟨h1, h2⟩ := hba.read m hm hs hex hans hc
      refine ⟨fun hl => ?_, fun n hn hns => Set.mem_insert_of_mem _ (h2 n hn hns)⟩
      obtain ⟨c, hc', hw⟩ := h1 hl
      exact ⟨c, Set.mem_insert_of_mem _ hc', hw⟩

end LocalSteps

/-! ## Bus steps -/

section BusSteps

variable {cmd : Command} {a a' b b' : Agent}

theorem Snoop.own (h : Snoop cmd a a') (ha : Own a) : Own a' := by
  -- what is cancelled leaves a smaller queue
  have trim : ∀ {out' : Set Command}, Trim cmd a.out out' →
      ∀ m, a.miss = some m → m.sent = true → ∀ c ∈ out', ¬ Answers c :=
    fun ht m hm hs c hc => ha.noAnswer m hm hs c (ht.subset hc)
  have held : a.line ≠ none → ∀ m, a.miss ≠ some m := by
    intro hl m hm
    exact hl (ha.noLine (by rw [hm]; simp))
  cases h with
  | holdRead hl _ =>
      exact ⟨fun h0 => absurd (ha.noLine h0) hl, fun m hm => absurd hm (held hl m),
        fun m hm => absurd hm (held hl m)⟩
  | holdReadX hl _ => exact ⟨fun _ => rfl, ha.sent, fun m hm => absurd hm (held hl m)⟩
  | holdInvalidate hl => exact ⟨fun _ => rfl, ha.sent, ha.noAnswer⟩
  | holdInvalidateWrite hl => exact ⟨fun _ => rfl, ha.sent, fun m hm => absurd hm (held hl m)⟩
  | holdShareMe hl => exact ⟨fun h0 => absurd (ha.noLine h0) hl, ha.sent, ha.noAnswer⟩
  | waitRead hl hm hans =>
      refine ⟨fun _ => hl, ?_, ?_⟩
      · intro m' hm' h0; cases hm'; exact absurd hans h0
      · intro m' hm' hs c hc; cases hm'
        rcases hc with rfl | hc
        · simp [Answers]
        · exact ha.noAnswer _ hm hs c hc
  | waitReadX hl hm hans =>
      refine ⟨fun _ => hl, ?_, ?_⟩
      · intro m' hm' h0; cases hm'; exact absurd hans h0
      · intro m' hm' hs; cases hm'; exact ha.noAnswer _ hm hs
  | waitInvalidate hl hm hans =>
      refine ⟨fun _ => hl, ?_, ?_⟩
      · intro m' hm' h0; cases hm'; exact absurd hans h0
      · intro m' hm' hs; cases hm'; exact ha.noAnswer _ hm hs
  | waitShareMe hl hm hans =>
      refine ⟨fun _ => hl, ?_, ?_⟩
      · intro m' hm' h0; cases hm'; exact absurd hans h0
      · intro m' hm' hs; cases hm'; exact ha.noAnswer _ hm hs
  | answered _ hm hs _ ht =>
      refine ⟨fun _ => ha.noLine (by rw [hm]; simp), ?_, ?_⟩
      · intro m' hm' _; cases hm'; exact hs
      · intro m' hm' hs'; cases hm'; exact trim ht _ hm hs
  | ignored _ ht => exact ⟨ha.noLine, ha.sent, trim ht⟩

/-- Two agents that both snoop the same broadcast. -/
theorem Snoop.pair (h : Snoop cmd a a') (h' : Snoop cmd b b') (hcmd : cmd ≠ .dataMemory)
    (ha : Own a) (hab : Pair a b) : Pair a' b' := by
  have hk := h.kept
  have hk' := h'.kept
  have hg := (hab.guarded.left hk).right hk'
  refine ⟨hg.owned, hg.ownedMiss, hg.race, hg.excl, ?_, ?_⟩
  · -- who still waits for its answer has taken note of the command, and is not clear
    intro m' hm' hs _ hans hc
    obtain ⟨m, hm, _, _⟩ := hk.miss m' hm'
    exact absurd hc (h.notices (ha.noLine (by rw [hm]; simp)) hm' hs hans)
  · intro m' hm' hex hans hc
    obtain ⟨m, hm, hg, hold | ⟨_, _, _, hnew⟩⟩ := hk.miss m' hm'
    · obtain ⟨hl, hn⟩ := hab.alone m hm (hg.excl ▸ hex) (hold ▸ hans) (hg.clear hc)
      refine ⟨hk'.noLine hl, fun n' hn' => ?_⟩
      obtain ⟨n, hn0, hg', _⟩ := hk'.miss n' hn'
      rw [hg'.sent, hn n hn0]
    · rw [hans, source, if_neg hcmd] at hnew; cases hnew

/-- A request goes out, and another agent snoops it. -/
theorem request_pair {m : Miss} (hm : a.miss = some m) (h0 : m.answer = none)
    (h : Snoop m.command b b') (ha : Own a) (hb : Own b)
    (hwait : ∀ n, b.miss = some n → n.answer = none) :
    Pair { a with miss := some { m with sent := true } } b'
      ∧ Pair b' { a with miss := some { m with sent := true } } := by
  have hl : a.line = none := ha.noLine (by rw [hm]; simp)
  have hreq := h.requested
  have hk := h.kept
  have hcmd := m.not_delivers_command
  have unanswered : ∀ n', b'.miss = some n' → n'.answer = none := by
    intro n' hn'
    obtain ⟨n, hn, _, hold | ⟨hd, _⟩⟩ := hk.miss n' hn'
    · rw [hold, hwait n hn]
    · exact absurd hd hcmd
  have line : b'.miss ≠ none → b.line = none := by
    intro hne
    obtain ⟨n', hn'⟩ := Option.ne_none_iff_exists'.mp hne
    obtain ⟨n, hn, _⟩ := hk.miss n' hn'
    exact hb.noLine (by rw [hn]; simp)
  -- who waits for the line itself takes note of the request
  have saw : ∀ n', b'.miss = some n' → n'.saw m.excl := fun n' hn' =>
    hreq.saw n' hn' (line (by rw [hn']; simp)) (unanswered n' hn')
  constructor
  -- the requester: what it finds at the other agent, and leaves there
  · refine ⟨fun ho => (by rw [hl] at ho; cases ho), fun ho => (by rw [hl] at ho; cases ho), ?_, ?_,
      ?_, ?_⟩
    · intro m' n' hm' hn' _ _; cases hm'
      exact Or.inr (saw n' hn')
    · intro m' hm' _ hex _; cases hm'
      exact hreq.dropped hex
    · intro m' hm' _ hex _ _; cases hm'
      refine ⟨fun hne => ?_, fun n' hn' _ => ?_⟩
      · obtain ⟨c, hc, hw⟩ := hreq.answer hex hne
        exact ⟨c, hc, Or.inl hw⟩
      · have hne : b'.miss ≠ none := by rw [hn']; simp
        exact hreq.shareMe hex hne (line hne) hwait
    · intro m' hm' _ hans; cases hm'
      rw [h0] at hans; cases hans
  -- the other agent: the requester holds nothing
  · refine ⟨fun _ => hl, fun ho => absurd ho hreq.notOwned, ?_, fun _ _ _ _ _ => hl, ?_, ?_⟩
    · intro n' m' hn' hm' _ _; cases hm'
      exact Or.inl (saw n' hn')
    · intro n' hn' hs _ hans hc
      exact absurd hc (h.notices (line (by rw [hn']; simp)) hn' hs hans)
    · intro n' hn' _ hans _
      rw [unanswered n' hn'] at hans; cases hans

/-- An agent sends a command of its queue, and another agent snoops it. -/
theorem send_pair {out' : Set Command} (hcmd : cmd ∈ a.out) (hmem : cmd ≠ .dataMemory)
    (h : Snoop cmd b b') (ha : Own a) (hb : Own b)
    (hab : Pair a b) (hba : Pair b a) :
    Pair { a with out := out' } b' ∧ Pair b' { a with out := out' } := by
  have hk := h.kept
  have hg := hab.guarded.right hk
  have hg' := hba.guarded.left hk
  have line : ∀ n', b'.miss = some n' → b.line = none := by
    intro n' hn'
    obtain ⟨n, hn, _⟩ := hk.miss n' hn'
    exact hb.noLine (by rw [hn]; simp)
  constructor
  · refine ⟨hg.owned, hg.ownedMiss, hg.race, hg.excl, ?_, ?_⟩
    · intro m hm hs hex hans hc
      obtain ⟨h1, h2⟩ := hab.read m hm hs hex hans hc
      -- having asked, this agent has nothing to deliver, so the command cancels nothing
      have hout := h.out_subset (fun hd => hd.elim
        (fun e => ha.noAnswer m hm hs cmd hcmd (Or.inl e))
        fun hd => hd.elim (fun e => ha.noAnswer m hm hs cmd hcmd (Or.inr e)) hmem)
      refine ⟨fun hne => ?_, fun n' hn' hs' => ?_⟩
      · obtain ⟨c, hc', hw⟩ := h1 (hk.held hne)
        exact ⟨c, hout hc', hw⟩
      · obtain ⟨n, hn, hg, _⟩ := hk.miss n' hn'
        exact hout (h2 n hn (hg.sent ▸ hs'))
    · intro m hm hex hans hc
      obtain ⟨hl, h1⟩ := hab.alone m hm hex hans hc
      refine ⟨hk.noLine hl, fun n' hn' => ?_⟩
      obtain ⟨n, hn, hg, _⟩ := hk.miss n' hn'
      rw [hg.sent, h1 n hn]
  · refine ⟨hg'.owned, hg'.ownedMiss, hg'.race, hg'.excl, ?_, ?_⟩
    · intro n' hn' hs' _ hans hc
      exact absurd hc (h.notices (line n' hn') hn' hs' hans)
    · intro n' hn' hex hans hc
      obtain ⟨n, hn, hg, hold | ⟨_, _, _, hnew⟩⟩ := hk.miss n' hn'
      · exact hba.alone n hn (hg.excl ▸ hex) (hold ▸ hans) (hg.clear hc)
      · rw [hans, source, if_neg hmem] at hnew; cases hnew

/-- The queue hands out no copy that the agent still has, and announces none. -/
def Quiet (a : Agent) : Prop := ∀ c ∈ a.out, c = .invalidate ∨ (c = .write ∧ a.line = none)

theorem Quiet.noShareMe (h : Quiet a) : .shareMe ∉ a.out := by
  intro hc
  rcases h _ hc with h | h <;> simp at h

theorem Quiet.line_of_answers (h : Quiet a) {c : Command} (hc : c ∈ a.out) (hw : Answers c) :
    a.line = none := by
  rcases h c hc with rfl | h
  · rcases hw with h | h <;> cases h
  · exact h.2

theorem Quiet.of_empty (h : a.out = ∅) : Quiet a := by
  intro c hc
  rw [h] at hc; exact hc.elim

theorem Quiet.snoop (h : Snoop .dataMemory a a') (hq : Quiet a) : Quiet a' := by
  cases h with
  | answered _ _ _ _ ht => exact fun c hc => hq c (ht.subset hc)
  | ignored _ ht => exact fun c hc => hq c (ht.subset hc)

theorem Quiet.act (h : Local a a') (ha : Own a) (hq : Quiet a) : Quiet a' := by
  -- the queue of an agent that has been answered holds no write-back of this line
  have filled : ∀ m, a.miss = some m → m.answer ≠ none → ∀ c ∈ a.out, c = .invalidate := by
    intro m hm h0 c hc
    rcases hq c hc with h | h
    · exact h
    · exact absurd (Or.inl h.1) (ha.noAnswer m hm (ha.sent m hm h0) c hc)
  cases h with
  | drop => exact fun c hc => (hq c hc).imp id fun h => ⟨h.1, rfl⟩
  | start excl hl hm => exact hq
  | giveUp hm h0 => exact hq
  | giveBack hm h0 =>
      intro c hc
      rcases hc with rfl | hc
      · exact Or.inr ⟨rfl, ha.noLine (by rw [hm]; simp)⟩
      · exact hq c hc
  | fillShared hm h0 _ _ _ => exact fun c hc => Or.inl (filled _ hm h0 c hc)
  | fillAlone hm h0 _ _ => exact fun c hc => Or.inl (filled _ hm (by rw [h0]; simp) c hc)
  | fillOwned hm h0 _ _ => exact fun c hc => Or.inl (filled _ hm h0 c hc)
  | upgrade =>
      intro c hc
      rcases hc with rfl | hc
      · exact Or.inl rfl
      · exact hq c hc

/-- Memory answers one agent while every queue is quiet. -/
theorem memory_pair (h : Snoop .dataMemory a a') (ha : Own a) (hqa : Quiet a) (hqb : Quiet b)
    (hab : Pair a b) (hba : Pair b a) : Pair a' b ∧ Pair b a' := by
  have hk := h.kept
  have line : ∀ m', a'.miss = some m' → a.line = none := by
    intro m' hm'
    obtain ⟨m, hm, _⟩ := hk.miss m' hm'
    exact ha.noLine (by rw [hm]; simp)
  have hg := hab.guarded.left hk
  have hg' := hba.guarded.right hk
  have quiet {x : Agent} (hx : Quiet x) (hl : x.line ≠ none) :
      ¬ ∃ c ∈ x.out, Answers c ∨ c = .shareMe := by
    rintro ⟨c, hc, hw | rfl⟩
    · exact hl (hx.line_of_answers hc hw)
    · exact hx.noShareMe hc
  constructor
  · refine ⟨hg.owned, hg.ownedMiss, hg.race, hg.excl, ?_, ?_⟩
    · intro m' hm' hs _ hans hc
      exact absurd hc (h.notices (line m' hm') hm' hs hans)
    · intro m' hm' hex hans hc
      obtain ⟨m, hm, hg, hold | ⟨_, hs, h0, _⟩⟩ := hk.miss m' hm'
      · exact hab.alone m hm (hg.excl ▸ hex) (hold ▸ hans) (hg.clear hc)
      · -- with every queue quiet, nobody is left who would have told of another copy
        obtain ⟨h1, h2⟩ := hab.read m hm hs (hg.excl ▸ hex) h0 (hg.clear hc)
        refine ⟨by_contra fun hl => quiet hqb hl (h1 hl), fun n hn => ?_⟩
        exact Bool.eq_false_iff.mpr fun hs' => hqb.noShareMe (h2 n hn hs')
  · refine ⟨hg'.owned, hg'.ownedMiss, hg'.race, hg'.excl, ?_, ?_⟩
    · intro n hn hs hex hans hc
      obtain ⟨h1, h2⟩ := hba.read n hn hs hex hans hc
      refine ⟨fun hl => absurd (h1 (hk.held hl)) (quiet hqa (hk.held hl)), fun m' hm' hs' => ?_⟩
      obtain ⟨m, hm, hg, _⟩ := hk.miss m' hm'
      exact absurd (h2 m hm (hg.sent ▸ hs')) hqa.noShareMe
    · intro n hn hex hans hc
      obtain ⟨hl, h1⟩ := hba.alone n hn hex hans hc
      refine ⟨hk.noLine hl, fun m' hm' => ?_⟩
      obtain ⟨m, hm, hg, _⟩ := hk.miss m' hm'
      rw [hg.sent, h1 m hm]

end BusSteps

/-- What an agent does between two commands. -/
def Acts (a a' : Agent) : Prop := a' = a ∨ Local a a'

theorem Acts.own {a a' : Agent} (h : Acts a a') (ha : Own a) : Own a' := by
  rcases h with rfl | h
  · exact ha
  · exact h.own ha

theorem Acts.pair {a a' b : Agent} (h : Acts a a') (ha : Own a) (hb : Own b) (hab : Pair a b)
    (hba : Pair b a) : Pair a' b ∧ Pair b a' := by
  rcases h with rfl | h
  · exact ⟨hab, hba⟩
  · exact ⟨h.pair_left ha hab, h.pair_right ha hb hab hba⟩

theorem Acts.quiet {a a' : Agent} (h : Acts a a') (ha : Own a) (hq : Quiet a) : Quiet a' := by
  rcases h with rfl | h
  · exact hq
  · exact hq.act h ha

/-! ## The whole bus -/

/-- All agents, and whether memory holds the bus. -/
structure Bus (ι : Type) where
  agent : ι → Agent
  locked : Bool

section Bus

variable {ι : Type}

inductive Step : Bus ι → Bus ι → Prop
  /-- All agents act at once, and nobody notices anybody else. -/
  | acts {b b' : Bus ι} : (∀ i, Acts (b.agent i) (b'.agent i)) → b'.locked = b.locked → Step b b'
  /-- Requests have the lowest priority of all the commands of one agent, though not of
  all agents together; and an answer is consumed before the next request. -/
  | request {b b' : Bus ι} (i : ι) {m : Miss} : b.locked = false → b'.locked = false →
      (b.agent i).miss = some m → m.answer = none → (b.agent i).out = ∅ →
      (∀ j n, (b.agent j).miss = some n → n.answer = none) →
      b'.agent i = { b.agent i with miss := some { m with sent := true } } →
      (∀ j, j ≠ i → Snoop m.command (b.agent j) (b'.agent j)) → Step b b'
  | send {b b' : Bus ι} (i : ι) {cmd : Command} {out' : Set Command} : b.locked = false →
      b'.locked = false → cmd ∈ (b.agent i).out → cmd ≠ .dataMemory → out' ⊆ (b.agent i).out →
      b'.agent i = { b.agent i with out := out' } →
      (∀ j, j ≠ i → Snoop cmd (b.agent j) (b'.agent j)) → Step b b'
  /-- Memory waits until all urgent commands are sent, unless it has the lock. -/
  | memory {b b' : Bus ι} (i : ι) : (b.locked = false → ∀ j, (b.agent j).out = ∅) →
      Snoop .dataMemory (b.agent i) (b'.agent i) → (∀ j, j ≠ i → b'.agent j = b.agent j) →
      b'.locked = b.locked → Step b b'
  | lock {b : Bus ι} : (∀ j, (b.agent j).out = ∅) → Step b { b with locked := true }
  | unlock {b : Bus ι} : Step b { b with locked := false }

structure Inv (b : Bus ι) : Prop where
  own : ∀ i, Own (b.agent i)
  pair : ∀ i j, i ≠ j → Pair (b.agent i) (b.agent j)
  quiet : b.locked = true → ∀ i, Quiet (b.agent i)

theorem Inv.unlocked {b : Bus ι} (h : b.locked = false) {P : Prop} : b.locked = true → P := by
  intro h'; rw [h] at h'; cases h'

/-- Pairs in which one of the two agents made the step. -/
theorem pair_of_actor {b' : Bus ι} (i : ι)
    (hact : ∀ j, j ≠ i → Pair (b'.agent i) (b'.agent j) ∧ Pair (b'.agent j) (b'.agent i))
    (hrest : ∀ j k, j ≠ i → k ≠ i → j ≠ k → Pair (b'.agent j) (b'.agent k)) :
    ∀ j k, j ≠ k → Pair (b'.agent j) (b'.agent k) := by
  intro j k hjk
  by_cases hj : j = i
  · subst hj; exact (hact k (Ne.symm hjk)).1
  · by_cases hk : k = i
    · subst hk; exact (hact j hj).2
    · exact hrest j k hj hk hjk

/-- **Preserved by every step.** -/
theorem Step.inv {b b' : Bus ι} (hs : Step b b') (h : Inv b) : Inv b' := by
  cases hs with
  | acts hl hlock =>
      refine ⟨fun i => (hl i).own (h.own i), fun i j hij => ?_, fun hq i => ?_⟩
      · -- first the one agent acts, then the other
        obtain ⟨h₁, h₂⟩ := (hl i).pair (h.own i) (h.own j) (h.pair i j hij) (h.pair j i (Ne.symm hij))
        exact ((hl j).pair (h.own j) ((hl i).own (h.own i)) h₂ h₁).2
      · rw [hlock] at hq
        exact (hl i).quiet (h.own i) (h.quiet hq i)
  | request i _ hlock hm h0 hout hwait hi hsn =>
      refine ⟨fun j => ?_, pair_of_actor i (fun j hj => ?_) fun j k hj hk hjk => ?_,
        Inv.unlocked hlock⟩
      · by_cases hj : j = i
        · subst hj
          rw [hi]
          -- an agent asks when its queue is empty, so that it has no copy left to hand out
          refine ⟨fun _ => (h.own j).noLine (by rw [hm]; simp), ?_, ?_⟩
          · intro m' hm' _; cases hm'; rfl
          · intro m' _ _ c hc
            rw [hout] at hc; exact hc.elim
        · exact (hsn j hj).own (h.own j)
      · rw [hi]
        exact request_pair hm h0 (hsn j hj) (h.own i) (h.own j) (hwait j)
      · exact (hsn j hj).pair (hsn k hk)
          (fun e => Miss.not_delivers_command _ (Or.inr (Or.inr e))) (h.own j) (h.pair j k hjk)
  | send i _ hlock hc hmem hout hi hsn =>
      refine ⟨fun j => ?_, pair_of_actor i (fun j hj => ?_) fun j k hj hk hjk => ?_,
        Inv.unlocked hlock⟩
      · by_cases hj : j = i
        · subst hj
          rw [hi]
          exact ⟨(h.own j).noLine, (h.own j).sent,
            fun m hm hs c hc => (h.own j).noAnswer m hm hs c (hout hc)⟩
        · exact (hsn j hj).own (h.own j)
      · rw [hi]
        exact send_pair hc hmem (hsn j hj) (h.own i) (h.own j) (h.pair i j (Ne.symm hj)) (h.pair j i hj)
      · exact (hsn j hj).pair (hsn k hk) hmem (h.own j) (h.pair j k hjk)
  | memory i hfree hsn hrest hlock =>
      -- with the lock the queues have been quiet since memory took it, without it they are empty
      have hq : ∀ j, Quiet (b.agent j) := by
        intro j
        cases hb : b.locked with
        | true => exact h.quiet hb j
        | false => exact Quiet.of_empty (hfree hb j)
      refine ⟨fun j => ?_, pair_of_actor i (fun j hj => ?_) fun j k hj hk hjk => ?_, fun _ j => ?_⟩
      · by_cases hj : j = i
        · subst hj; exact hsn.own (h.own j)
        · rw [hrest j hj]; exact h.own j
      · rw [hrest j hj]
        exact memory_pair hsn (h.own i) (hq i) (hq j) (h.pair i j (Ne.symm hj)) (h.pair j i hj)
      · rw [hrest j hj, hrest k hk]; exact h.pair j k hjk
      · by_cases hj : j = i
        · subst hj; exact (hq j).snoop hsn
        · rw [hrest j hj]; exact hq j
  | lock hout => exact ⟨h.own, h.pair, fun _ j => Quiet.of_empty (hout j)⟩
  | unlock => exact ⟨h.own, h.pair, fun hq => (by cases hq)⟩

/-- Any number of steps. -/
abbrev Steps : Bus ι → Bus ι → Prop := Relation.ReflTransGen Step

theorem Steps.inv {b b' : Bus ι} (hs : Steps b b') (h : Inv b) : Inv b' := by
  induction hs with
  | refl => exact h
  | tail _ hstep ih => exact hstep.inv ih

/-- Memory takes the bus only when no urgent command waits. -/
theorem Steps.relock {b b' : Bus ι} (h : ∀ i, b'.agent i = b.agent i)
    (hl : b'.locked = true → b.locked = false → ∀ i, (b.agent i).out = ∅) : Steps b b' := by
  have heq : b' = { b with locked := b'.locked } := by
    rw [← show b'.agent = b.agent from funext h]
  rw [heq]
  cases hb' : b'.locked with
  | false => exact .single .unlock
  | true =>
      cases hb : b.locked with
      | false => exact .single (.lock (hl hb' hb))
      | true => rw [← hb]

/-- Nobody holds the line, wants it, or has anything to say about it. -/
def Initial (b : Bus ι) : Prop :=
  ∀ i, (b.agent i).line = none ∧ (b.agent i).miss = none ∧ (b.agent i).out = ∅

theorem Initial.inv {b : Bus ι} (h : Initial b) : Inv b where
  own i := by
    obtain ⟨hl, hm, _⟩ := h i
    exact ⟨fun _ => hl, fun m h0 => (by rw [hm] at h0; cases h0),
      fun m h0 => (by rw [hm] at h0; cases h0)⟩
  pair i j _ := by
    obtain ⟨hl, hm, _⟩ := h i
    exact pair_of_noMiss hm fun h0 => (by rw [hl] at h0; cases h0)
  quiet _ i := Quiet.of_empty (h i).2.2

/-- **Exclusivity**: while one agent owns the line, no other has a copy. -/
theorem Inv.exclusive {b : Bus ι} (h : Inv b) {i j : ι} (hij : i ≠ j)
    (ho : (b.agent i).line = some .owned) : (b.agent j).line = none :=
  (h.pair i j hij).owned ho

end Bus

end SnoopLine

end CoherenceSim
