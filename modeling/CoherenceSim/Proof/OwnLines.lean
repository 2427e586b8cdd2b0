import CoherenceSim.Proof.Completion
import CoherenceSim.Proof.ProcessorTurn
import Mathlib.Data.Finset.Card

/-!
# Controllers keep to their own lines

A controller has to do with the lines of its own instructions only: they are all that it caches,
waits for and asks for. What others do to other lines does not concern it. So if the lines of one
processor are private, nobody else ever puts anything on the bus that is about one of them, but for
memory, which answers.
-/

namespace CoherenceSim

open BusNode

/-- The line of an instruction, as far as the cache tells lines apart. -/
def Instruction.key (i : Instruction) : Nat := lineKey i.address

/-- The lines of these instructions. -/
def linesOf (l : List Instruction) : Finset Nat := (l.map Instruction.key).toFinset

theorem mem_linesOf {l : List Instruction} {k : Nat} : k ∈ linesOf l ↔ ∃ i ∈ l, i.key = k := by
  rw [linesOf, List.mem_toFinset, List.mem_map]

namespace Controller

variable {c c' : Controller} {d : BusRequest} {B : Nat → Prop} {adx : Nat} {opcode : Opcode}

/-! ## The lines of a controller -/

/-- All that the controller has to do with is lines of `B`. -/
structure Keeps (B : Nat → Prop) (c : Controller) : Prop where
  current : ∀ i, c.currentInstruction = some i → B i.key
  cached : ∀ k, c.cache.stateAt k ≠ none → B k
  queued : ∀ r ∈ c.maxPriorityQueue, B (lineKey r.payload)

theorem Instructs.key (hi : c.Instructs opcode adx) (ok : c.cache.Ok) :
    ∃ i, c.currentInstruction = some i ∧ i.key = lineKey adx := by
  obtain ⟨i, hi, _, rfl⟩ := hi
  exact ⟨i, hi, (ok.lineKey_getLineAlignedAddress i.isLt).symm⟩

theorem Keeps.instructs (hk : c.Keeps B) (hi : c.Instructs opcode adx) (ok : c.cache.Ok) :
    B (lineKey adx) := by
  obtain ⟨i, hi, hkey⟩ := hi.key ok
  exact hkey ▸ hk.current i hi

theorem Keeps.held (hk : c.Keeps B) {m : MESI} (hm : c.cache.get adx = some m) :
    B (lineKey adx) := by
  refine hk.cached _ fun h0 => ?_
  rw [Cache.get, h0] at hm
  cases hm

theorem Keeps.awaiting (hk : c.Keeps B) (h : c.Inv) (hm : c.Missing) :
    B (lineKey c.awaitingDataLocalAddress) := by
  obtain ⟨_, hi⟩ := (h.miss hm).line
  exact hk.instructs hi h.cache

theorem Keeps.cached_put (hk : c.Keeps B) (hadx : B (lineKey adx)) {v : Option MESI} {k : Cache}
    (hput : c.cache.Put adx v k) : ∀ key, k.stateAt key ≠ none → B key := by
  intro key hkey
  rw [hput.stateAt] at hkey
  split at hkey
  · rename_i h0
    exact h0 ▸ hadx
  · exact hk.cached key hkey

theorem Keeps.cached_filled (hk : c.Keeps B) (hadx : B (lineKey adx)) {m : MESI} {k : Cache}
    (hfill : c.cache.Filled adx m k) : ∀ key, k.stateAt key ≠ none → B key := by
  intro key hkey
  by_cases h0 : key = lineKey adx
  · exact h0 ▸ hadx
  · rcases hfill.others key h0 with h1 | h1
    · exact hk.cached key (h1 ▸ hkey)
    · exact absurd h1 hkey

theorem Keeps.queued_cons (hk : c.Keeps B) (ok : c.cache.Ok) (ha : Aligned adx)
    (hadx : B (lineKey adx)) (code : CommandCode) :
    ∀ r ∈ c.makeRequest code adx :: c.maxPriorityQueue, B (lineKey r.payload) := by
  intro r hr
  rcases List.mem_cons.mp hr with rfl | hr
  · rwa [makeRequest, ok.getLineAlignedAddress_of_aligned ha]
  · exact hk.queued r hr

/-- Preserved by a step. -/
theorem Transitioned.keeps (hs : Transitioned c c') (h : c.Inv) (hk : c.Keeps B) :
    c'.Keeps B := by
  have hcurrent : ∀ i, c'.currentInstruction = some i → B i.key := by
    rw [hs.currentInstruction]
    exact hk.current
  cases hs with
  | rest | retire | wait | invalidateQueued | loadMiss | storeMiss | loadDropped =>
      exact ⟨hcurrent, hk.cached, hk.queued⟩
  | loadHit _ _ hi _ hput | storeHit _ _ hi _ _ hput =>
      exact ⟨hcurrent, hk.cached_put (hk.instructs hi h.cache) hput, hk.queued⟩
  | storeShared _ _ hi =>
      exact ⟨hcurrent, hk.cached,
        hk.queued_cons h.cache (hi.aligned h.cache) (hk.instructs hi h.cache) _⟩
  | loadFilled hs _ _ _ _ _ _ hfill =>
      exact ⟨hcurrent, hk.cached_filled (hk.awaiting h (Or.inl hs)) hfill, hk.queued⟩
  | storeDropped hs =>
      obtain ⟨_, hi⟩ := (h.miss (Or.inr hs)).line
      exact ⟨hcurrent, hk.cached,
        hk.queued_cons h.cache (hi.aligned h.cache) (hk.instructs hi h.cache) _⟩
  | storeFilled hs _ _ _ _ hfill =>
      exact ⟨hcurrent, hk.cached_filled (hk.awaiting h (Or.inr hs)) hfill, hk.queued⟩

theorem Keeps.withInstruction (hk : c.Keeps B) {i : Instruction} (hi : B i.key) :
    (c.withInstruction i).Keeps B :=
  ⟨fun _ h0 => by cases h0; exact hi, hk.cached, hk.queued⟩

/-- Preserved by what others do: what a controller neither holds nor waits for does not concern
it. -/
theorem Snooped.keeps (hs : Snooped d c c') (h : c.Inv) (hd : Aligned d.payload)
    (hk : c.Keeps B) : c'.Keeps B := by
  have hcurrent : ∀ i, c'.currentInstruction = some i → B i.key := by
    rw [hs.sameState.2.2.1]
    exact hk.current
  cases hs with
  | holdRead _ hm _ hput | holdReadX _ hm hput =>
      exact ⟨hcurrent, hk.cached_put (hk.held hm) hput, hk.queued_cons h.cache hd (hk.held hm) _⟩
  | holdInvalidateModified _ hm hput =>
      exact ⟨hcurrent, hk.cached_put (hk.held hm) hput, hk.queued_cons h.cache hd (hk.held hm) _⟩
  | holdInvalidate _ hm _ hput | holdShareMe _ hm _ hput =>
      exact ⟨hcurrent, hk.cached_put (hk.held hm) hput, hk.queued⟩
  | waitRead _ _ hw =>
      have hline := hk.awaiting h (h.missing_of_awaitsLocal hw)
      rw [(awaitsLocal_iff.mp hw).2] at hline
      exact ⟨hcurrent, hk.cached, hk.queued_cons h.cache hd hline _⟩
  | waitReadX | waitInvalidate | waitShareMe => exact ⟨hcurrent, hk.cached, hk.queued⟩
  | data | ignored =>
      exact ⟨hcurrent, hk.cached, fun r hr => hk.queued r (mem_uncancelled hr)⟩

/-- A controller sends only what it has to do with. -/
theorem Sent.keeps (hs : Sent c d c') (h : c.Inv) (hk : c.Keeps B) :
    B (lineKey d.payload) ∧ c'.Keeps B := by
  refine ⟨?_, ?_, ?_, fun r hr => hk.queued r (hs.mem_queue hr)⟩
  · cases hs with
    | @nullBurst r hr => exact hk.queued r (List.mem_of_mem_getLast? hr)
    | transfer hr | command hr => exact hk.queued _ (List.mem_of_mem_getLast? hr)
    | read _ hm => exact hk.awaiting h hm
  · rw [hs.sameState.2.2.1]
    exact hk.current
  · cases hs <;> exact hk.cached

end Controller

/-! ## A controller whose lines are private -/

/-- The lines that node `b` has to do with, if these are private to node `a`. -/
def Allotted (keys : Finset Nat) (a b k : Nat) : Prop := k ∈ keys ↔ b = a

/-- The request is about none of these lines, but for answers of memory. -/
def BusRequest.Elsewhere (keys : Finset Nat) (r : BusRequest) : Prop :=
  r.commandCode = .dataReturnMemory ∨ r.commandCode = .nullBurst ∨ lineKey r.payload ∉ keys

namespace Controller

variable {c c' : Controller} {d : BusRequest} {keys : Finset Nat} {a adx : Nat}

/-- Nobody was heard to want the line that the controller waits for. -/
structure Undisturbed (c : Controller) : Prop where
  sawBusRead : c.sawBusReadToMyIncomingAddress = false
  sawBusReadX : c.sawBusReadXToMyIncomingAddress = false
  sawInvalidate : c.sawInvalidateToMyIncomingAddress = false

/-- What a controller whose lines are private hears of the others: the answers of memory. -/
inductive Heard (d : BusRequest) (c : Controller) : Controller → Prop
  | answer : c.Missing → Heard d c { c with
      maxPriorityQueue := uncancelled d c.maxPriorityQueue
      gotDataReturnFromBusReadMemory := true
      gotDataReturnFromBusReadProcessor := false
      snoopedDataReturnFromWriteback := false
      awaitingBusRead := false
      awaitingDataLocal := false }
  | nothing : Heard d c { c with maxPriorityQueue := uncancelled d c.maxPriorityQueue }

/-- A line that is not its own a controller neither holds nor waits for. -/
theorem Keeps.unconcerned (hk : c.Keeps (Allotted keys a a)) (h : c.Inv)
    (hout : lineKey adx ∉ keys) : c.cache.get adx = none ∧ c.awaitsLocal adx = false := by
  constructor
  · by_contra hheld
    exact hout ((hk.cached _ hheld).mpr rfl)
  · by_contra hl
    have hl : c.awaitsLocal adx = true := by simpa using hl
    have hline := hk.awaiting h (h.missing_of_awaitsLocal hl)
    rw [(awaitsLocal_iff.mp hl).2] at hline
    exact hout (hline.mpr rfl)

/-- **Nobody disturbs it.** -/
theorem Snooped.heard (hs : Snooped d c c') (h : c.Inv) (hk : c.Keeps (Allotted keys a a))
    (hd : d.Elsewhere keys) : Heard d c c' := by
  -- commands that a holder heeds, or one who waits
  have wants {code : CommandCode} (hcode : d.commandCode = code)
      (hno : code ≠ .dataReturnMemory ∧ code ≠ .nullBurst) :
      c.cache.get d.payload = none ∧ c.awaitsLocal d.payload = false := by
    have hout := (hd.resolve_left (hcode ▸ hno.1)).resolve_left (hcode ▸ hno.2)
    exact hk.unconcerned h hout
  cases hs with
  | holdRead hcode hm | holdReadX hcode hm | holdInvalidate hcode hm
  | holdInvalidateModified hcode hm | holdShareMe hcode hm =>
      have hnone := (wants hcode (by simp)).1
      rw [hm] at hnone
      cases hnone
  | waitRead hcode _ hl | waitReadX hcode _ hl | waitInvalidate hcode _ hl
  | waitShareMe hcode _ hl =>
      have hfalse := (wants hcode (by simp)).2
      rw [hl] at hfalse
      cases hfalse
  | data hdel hm _ hadx =>
      have hmemory : d.commandCode = .dataReturnMemory := by
        by_contra hne
        have hnull : d.commandCode ≠ .nullBurst := by
          rcases hdel with h0 | h0 | h0 <;> simp [h0]
        have hline := hk.awaiting h hm
        rw [hadx] at hline
        exact ((hd.resolve_left hne).resolve_left hnull) (hline.mpr rfl)
      simp only [hmemory, reduceCtorEq, decide_true, decide_false]
      exact .answer hm
  | ignored => exact .nothing

end Controller

/-! ## Private lines -/

/-- The instruction of this call is on one of the lines that its node has to do with. -/
def Event.Assigns (lines : Nat → Nat → Prop) : Event → Prop
  | .insertInstruction i n => Processor.isMemoryOp i = true → lines (n + 1) i.key
  | .tick => True

/-- Every node has to do with its own lines only. -/
structure Apart (lines : Nat → Nat → Prop) (ic : Interconnect Node) : Prop where
  queued : ∀ b p, ic.nodeAt b = some (.processor p) → ∀ i ∈ p.instrQueue, lines b i.key
  kept : ∀ b c, controllerAt ic b = some c → c.Keeps (lines b)

variable {ps : Params} {Q : Instruction → Prop} {h : List TickRecord} {s mid s' : System}
  {req : Option BusRequest} {keys : Finset Nat} {a b : Nat} {B : Nat → Prop} {c c' : Controller}
  {lines : Nat → Nat → Prop}

theorem Passed.keeps (hp : Passed ps b c req c') (hi : c.Inv) (hk : c.Keeps B) : c'.Keeps B := by
  cases hp with
  | quiet | missed => exact ⟨hk.current, hk.cached, hk.queued⟩
  | sent _ _ hs => exact (hs.keeps hi.frame ⟨hk.current, hk.cached, hk.queued⟩).2
  | received _ hbus hs => exact hs.keeps hi hbus.receivable.payload hk

/-- What others put on the bus is about none of the private lines. -/
theorem BusEvent.elsewhere {r : BusRequest} {ic' : Interconnect Node}
    (hev : BusEvent ps mid.interconnect (some r) ic') (hmid : Valid ps Q mid.interconnect)
    (hk : ∀ b c, controllerAt mid.interconnect b = some c → c.Keeps (Allotted keys a b))
    (hne : r.sourceAddress ≠ a) : r.Elsewhere keys := by
  cases hev with
  | @controller a₀ c₀ _ _ _ hc₀ hsrc _ _ _ hs =>
      have hkeeps := hk a₀ c₀ hc₀
      have hline := (hs.keeps (hmid.controller hc₀).inv.frame
        ⟨hkeeps.current, hkeeps.cached, hkeeps.queued⟩).1
      exact Or.inr (Or.inr fun h0 => hne (hsrc.trans (hline.mp h0)))
  | memory hm _ _ _ _ hqm =>
      rcases (hmid.memoryOk hm).2.queue _ (by rw [hqm]; exact List.mem_cons_self) with h0 | h0
      · exact Or.inl h0.code
      · exact Or.inr (Or.inl h0.code)

namespace Processor

variable {p p' : Processor} {o : Option Instruction}

theorem Turn.keeps (ht : p.Turn c o p') (hq : ∀ i ∈ p.instrQueue, B i.key) (hk : c.Keeps B) :
    (∀ i ∈ p'.instrQueue, B i.key) ∧ p'.cacheController.Keeps B ∧ ∀ i, o = some i → B i.key := by
  cases ht with
  | rests | waits => exact ⟨hq, hk, fun i h0 => by cases h0⟩
  | @handsOver i rest _ hrest =>
      have hi : B i.key := hq i (by rw [hrest]; exact List.mem_cons_self)
      refine ⟨fun j hj => ?_, hk.withInstruction hi, fun j h0 => by cases h0; exact hi⟩
      exact hq j (by rw [hrest]; exact List.mem_cons_of_mem _ hj)

end Processor

/-- The first half of a cycle. -/
theorem Apart.turn (ha : Apart lines s.interconnect) {p p₁ : Processor}
    (hp : s.interconnect.nodeAt b = some (.processor p)) (hi : p.Inv Q) (htick : p.tick = .ok p₁) :
    (∀ i ∈ p₁.instrQueue, lines b i.key)
      ∧ p₁.cacheController.Keeps (lines b)
      ∧ ∀ i, p.handsOver = some i → lines b i.key := by
  obtain ⟨c₁, -, hs, hturn⟩ := hi.turn htick
  have hk := hs.keeps hi.controller (ha.kept b _ (controllerAt_of_nodeAt hp))
  exact hturn.keeps (ha.queued b p hp) ⟨hk.current, hk.cached, hk.queued⟩

theorem Apart.kept_ticks (ha : Apart lines s.interconnect) (hok : s.Ok ps Q) (hok' : s'.Ok ps Q)
    (hcycle : Cycle ps Q s mid req s') (hc : controllerAt mid.interconnect b = some c) :
    c.Keeps (lines b) := by
  obtain ⟨p₁, hp₁, rfl⟩ := nodeAt_of_controllerAt hc
  obtain ⟨p, p₁', _, hc⟩ := hcycle.processor hok hok' (hcycle.valid.controller hc).range
  rw [hc.between] at hp₁; cases hp₁
  exact (ha.turn hc.before hc.inv hc.tick).2.1

/-- **Preserved by a cycle.** -/
theorem Apart.cycle (ha : Apart lines s.interconnect) (hok : s.Ok ps Q) (hok' : s'.Ok ps Q)
    (hcycle : Cycle ps Q s mid req s') : Apart lines s'.interconnect := by
  refine ⟨fun b p₂ hp₂ => ?_, fun b c₂ hc₂ => ?_⟩
  · have hr := (hok'.valid.controller (controllerAt_of_nodeAt hp₂)).range
    obtain ⟨p, p₁, c₂, hc⟩ := hcycle.processor hok hok' hr
    rw [hc.after] at hp₂; cases hp₂
    exact (ha.turn hc.before hc.inv hc.tick).1
  · obtain ⟨c₁, hc₁, hpassed⟩ := hcycle.event.passed hcycle.valid hok'.valid hc₂
    exact hpassed.keeps (hcycle.valid.controller hc₁).inv (ha.kept_ticks hok hok' hcycle hc₁)

/-- Preserved by an insertion. -/
theorem Apart.insertInstruction (ha : Apart lines s.interconnect) (hok : s.Ok ps Q)
    {i : Instruction} {n : Nat} (hassign : (Event.insertInstruction i n).Assigns lines)
    (hins : Inserted s s') (heq : s.insertInstruction i n = .ok s') :
    Apart lines s'.interconnect := by
  obtain ⟨p₀, hp₀, rfl⟩ := hok.insertInstruction_eq heq
  refine ⟨fun b p hp j hj => ?_, fun b c hc => ?_⟩
  · simp only [System.putNode, Interconnect.nodeAt_putNode] at hp
    split at hp
    · rename_i hb
      cases hp
      subst hb
      cases hop : Processor.isMemoryOp i with
      | true =>
          rw [Processor.processInstruction_of_memoryOp hop] at hj
          rcases List.mem_append.mp hj with hj | hj
          · exact ha.queued _ p₀ hp₀ j hj
          · rw [List.mem_singleton.mp hj]
            exact hassign hop
      | false =>
          rw [Processor.processInstruction_of_not hop] at hj
          exact ha.queued _ p₀ hp₀ j hj
    · exact ha.queued b p hp j hj
  · rw [hins.controller] at hc
    exact ha.kept b c hc

theorem System.Initial.apart (hs : s.Initial ps) : Apart lines s.interconnect := by
  refine ⟨fun b p hp i hi => ?_, fun b c hc => ?_⟩
  · have hnew := hs.processor b p hp
    cases hnew
    cases hi
  · rw [hs.controller b c hc]
    exact ⟨fun i hi => (by cases hi), fun k hk => absurd (Cache.stateAt_new k) hk,
      fun r hr => (by cases hr)⟩

/-- A cycle of the processor at `a` whose lines are private. -/
structure PrivateCycle (ps : Params) (keys : Finset Nat) (a : Nat) (s mid : System)
    (req : Option BusRequest) (s' : System) (p p₁ : Processor) (c₂ : Controller) : Prop where
  cycle : ProcessorCycle ps (fun _ => True) a s mid req s' p p₁ c₂
  range : 1 ≤ a ∧ a ≤ ps.numProcessors
  inv : p₁.cacheController.Inv
  kept : p₁.cacheController.Keeps (Allotted keys a a)
  handed : ∀ i, p.handsOver = some i → i.key ∈ keys
  elsewhere : ∀ r, req = some r → r.sourceAddress ≠ a → r.Elsewhere keys

theorem Apart.privateCycle (ha : Apart (Allotted keys a) s.interconnect) (hok : s.Ok ps fun _ => True)
    (hok' : s'.Ok ps fun _ => True) (hcycle : Cycle ps (fun _ => True) s mid req s')
    (hr : 1 ≤ a ∧ a ≤ ps.numProcessors) :
    ∃ p p₁ c₂, PrivateCycle ps keys a s mid req s' p p₁ c₂ := by
  obtain ⟨p, p₁, c₂, hc⟩ := hcycle.processor hok hok' hr
  obtain ⟨_, hkept, hhanded⟩ := ha.turn hc.before hc.inv hc.tick
  have hbetween := controllerAt_of_nodeAt hc.between
  refine ⟨p, p₁, c₂, hc, hr, (hcycle.valid.controller hbetween).inv, hkept,
    fun i hi => (hhanded i hi).mpr rfl, fun r h0 hne => ?_⟩
  subst h0
  exact hcycle.event.elsewhere hcycle.valid (fun b c => ha.kept_ticks hok hok' hcycle) hne

/-- **Induction for a processor whose lines are private.** What holds of its controller as built,
and is preserved by such a cycle, holds of the controller in every run. -/
theorem System.run_private_induct {P : List TickRecord → Controller → Prop}
    (new : P [] ((Controller.new ps.controllerType ps.burstLength).setAddress a))
    (cycle : ∀ h s mid req s' p p₁ c₂, PrivateCycle ps keys a s mid req s' p p₁ c₂ →
      P h p.cacheController → P (⟨s, req, s'⟩ :: h) c₂)
    {events : List Event} (hassign : ∀ e ∈ events, e.Assigns (Allotted keys a))
    (hrun : System.run ps events = .ok (h, s)) :
    ∀ c, controllerAt s.interconnect a = some c → P h c := by
  refine ((System.run_events_induct (Q := fun _ => True)
    (P := fun events h s => (∀ e ∈ events, e.Assigns (Allotted keys a)) → Apart (Allotted keys a) s.interconnect
      ∧ ∀ c, controllerAt s.interconnect a = some c → P h c)
    ?_ ?_ ?_ (fun e _ => ?_) hrun).2 hassign).2
  · intro past h s s' i n hok _ hi heq ih hassign
    obtain ⟨ha, hP⟩ := ih fun e he => hassign e (List.mem_append_left _ he)
    have hins := (hok.of_insertInstruction hi heq).2
    refine ⟨ha.insertInstruction hok
      (hassign _ (List.mem_append_right _ (List.mem_singleton_self _))) hins heq, fun c hc => ?_⟩
    exact hP c (by rw [← hins.controller]; exact hc)
  · intro past h s mid req s' hok hok' hcycle ih hassign
    obtain ⟨ha, hP⟩ := ih fun e he => hassign e (List.mem_append_left _ he)
    refine ⟨ha.cycle hok hok' hcycle, fun c hc => ?_⟩
    obtain ⟨p, p₁, c₂, hprivate⟩ :=
      ha.privateCycle hok hok' hcycle (hok'.valid.controller hc).range
    rw [controllerAt_of_nodeAt hprivate.cycle.after] at hc; cases hc
    exact cycle _ _ mid _ _ p p₁ _ hprivate
      (hP _ (controllerAt_of_nodeAt hprivate.cycle.before))
  · intro s hs _
    refine ⟨hs.apart, fun c hc => ?_⟩
    rw [hs.controller a c hc]
    exact new
  · cases e <;> trivial

theorem mem_givenTo {events : List Event} {i : Instruction} {n : Nat}
    (hmem : Event.insertInstruction i n ∈ events) (hop : Processor.isMemoryOp i = true) :
    i ∈ givenTo (n + 1) events := by
  induction events with
  | nil => cases hmem
  | cons e rest ih =>
      rcases List.mem_cons.mp hmem with rfl | hrest
      · rw [givenTo, if_pos ⟨rfl, hop⟩]
        exact List.mem_cons_self
      · cases e with
        | insertInstruction j m =>
            rw [givenTo]
            split
            · exact List.mem_cons_of_mem _ (ih hrest)
            · exact ih hrest
        | tick => exact ih hrest

/-- If no other processor is given a line that this one is given, then its lines are its own. -/
theorem assigns_of_private {events : List Event}
    (hprivate : ∀ i n, Event.insertInstruction i n ∈ events → Processor.isMemoryOp i = true →
      n + 1 ≠ a → i.key ∉ linesOf (givenTo a events)) :
    ∀ e ∈ events, e.Assigns (Allotted (linesOf (givenTo a events)) a) := by
  intro e he
  cases e with
  | tick => trivial
  | insertInstruction i n =>
      intro hop
      constructor
      · intro hkey
        by_contra hne
        exact hprivate i n he hop hne hkey
      · rintro rfl
        exact mem_linesOf.mpr ⟨i, mem_givenTo he hop, rfl⟩

end CoherenceSim
