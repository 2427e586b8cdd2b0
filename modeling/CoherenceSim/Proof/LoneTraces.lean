import CoherenceSim.Proof.MissCost
import CoherenceSim.Proof.Upgrades

/-!
# A trace that runs alone

When one processor is given all the loads and stores, and no set of its cache gets more lines than
it has room for, the whole report can be read off its trace: the misses are its lines, the cycles
of waiting are what its accesses, its misses and its upgrades cost, and memory and the bus are busy
with the misses. When what arrives does not matter.
-/

namespace CoherenceSim

open BusNode Interconnect

variable {ps : Params} {a : Nat} {events : List Event} {h : List TickRecord} {s : System}

/-- If nobody else is given anything, then the lines of a processor are its own. -/
theorem private_of_lone
    (hlone : ∀ i n, Event.insertInstruction i n ∈ events → Processor.isMemoryOp i = true →
      n + 1 = a) :
    ∀ i n, Event.insertInstruction i n ∈ events → Processor.isMemoryOp i = true →
      n + 1 ≠ a → i.key ∉ linesOf (givenTo a events) :=
  fun i n hmem hop hne => absurd (hlone i n hmem hop) hne

theorem mem_append_ticks {i : Instruction} {n k : Nat}
    (hmem : Event.insertInstruction i n ∈ events ++ List.replicate k .tick) :
    Event.insertInstruction i n ∈ events := by
  refine (List.mem_append.mp hmem).resolve_right fun h0 => ?_
  cases List.eq_of_mem_replicate h0

/-- After so many ticks the system is drained. -/
theorem System.run_drains (hlen : 2 ≤ ps.burstLength) (hlen' : ps.burstLength < 2 ^ 32)
    (hlatency : ps.memoryLatency < 2 ^ 32) (hrun : System.run ps events = .ok (h, s)) {k : Nat}
    (hk : completionBound ps events ≤ k) :
    ∃ h' s', System.run ps (events ++ List.replicate k .tick) = .ok (h', s') ∧ Drained ps s' := by
  obtain ⟨hok, hw, hle⟩ := System.run_workLeft hlen hlen' hlatency hrun
  obtain ⟨⟨h', s'⟩, hmoves, _, hd⟩ := (ranking_workLeft hlen hlen' hlatency).reaches k
    (s := (h, s)) ⟨hok, hw⟩ (Nat.le_trans hle hk)
  refine ⟨h', s', ?_, hd⟩
  rw [System.run_append, hrun, Outcome.ok_bind]
  exact exec_of_moves hmoves

/-- **A trace that runs alone takes its time.** Let all loads and stores be given to one processor,
and no set of its cache get more of their lines than it has room for. Whenever they come, after so
many more ticks the processor has missed each line once, and has waited one cycle for each load and
store; for each line `memoryLatency` and `burstLength` cycles, with a latency of zero counted as
one; for the first line another one; and in MSI one for each store to a line that was loaded
first. Memory has counted a unit less than a burst as a read serviced for each line, and the bus was
busy a cycle more than a burst, and both one more for the first line. -/
theorem lone_trace_takes_its_time (ps : Params) (hlen : 2 ≤ ps.burstLength)
    (hlen' : ps.burstLength < 2 ^ 32) (hlatency : ps.memoryLatency < 2 ^ 32) (events : List Event)
    (h : List TickRecord) (s : System) (hrun : System.run ps events = .ok (h, s)) (a : Nat)
    (hlone : ∀ i n, Event.insertInstruction i n ∈ events → Processor.isMemoryOp i = true →
      n + 1 = a)
    (hfits : LinesFit (linesOf (givenTo a events))) (k : Nat) (hk : completionBound ps events ≤ k) :
    ∃ h' s', System.run ps (events ++ List.replicate k .tick) = .ok (h', s')
      ∧ ∀ p m, s'.interconnect.nodeAt a = some (.processor p) →
        memoryAt s'.interconnect (ps.numProcessors + 1) = some m →
        p.numberMemoryOperations = (givenTo a events).length
        ∧ p.cacheController.loadMisses + p.cacheController.storeMisses
          = (linesOf (givenTo a events)).card
        ∧ p.cacheController.loadHits + p.cacheController.storeHits
          = (givenTo a events).length - (linesOf (givenTo a events)).card
        ∧ p.totalWaitCycles = (givenTo a events).length
          + (linesOf (givenTo a events)).card * (max ps.memoryLatency 1 + ps.burstLength)
          + min (linesOf (givenTo a events)).card 1
          + (if ps.controllerType = .msi then upgrades (givenTo a events) else 0)
        ∧ m.memSendCounts = (linesOf (givenTo a events)).card * (ps.burstLength - 1)
          + min (linesOf (givenTo a events)).card 1
        ∧ s'.interconnect.busyCycles = (linesOf (givenTo a events)).card * (ps.burstLength + 1)
          + min (linesOf (givenTo a events)).card 1 := by
  obtain ⟨h', s', hrun', hd⟩ := System.run_drains hlen hlen' hlatency hrun hk
  refine ⟨h', s', hrun', fun p m hp hm => ?_⟩
  have hc := controllerAt_of_nodeAt hp
  have hgiven : givenTo a (events ++ List.replicate k .tick) = givenTo a events := by
    rw [givenTo_append, givenTo_ticks, List.append_nil]
  have hlone' := fun i n hmem => hlone i n (mem_append_ticks (k := k) hmem)
  obtain ⟨hempty, hpending, _, hquiet⟩ := hd.processor a p hp
  -- all was handed over, counted and looked up
  obtain ⟨hgiven', hops, hcounted⟩ := (System.run_allFollow hrun').2 a p hp
  rw [hgiven, hempty, List.append_nil] at hgiven'
  rw [Controller.waiting_of_not_pending hpending, Nat.add_zero] at hcounted
  obtain ⟨⟨_, looked, hhanded, hwarm⟩, _, looked', hhanded', _, hupgrades⟩ :=
    System.run_charges (private_of_lone hlone') (by rwa [hgiven]) hrun' _ hc
  rw [Controller.fetched_of_not_pending hpending, List.append_nil, ← hgiven'] at hhanded hhanded'
  subst hhanded hhanded'
  have hok := (Run.of_system_run hrun').ok
  obtain ⟨hwaits, hsends, hbusy⟩ := (System.run_lone hlen hlen' hlatency
    (hok.valid.controller hc).range (assigns_of_lone hlone') hrun').paid hok hp hm hpending
  have hmisses : p.cacheController.misses = (linesOf (givenTo a events)).card := hwarm.misses
  have hops : (givenTo a events).length = p.numberMemoryOperations :=
    (congrArg List.length hgiven').trans hops
  have hlength : (givenTo a events).length
      = p.cacheController.hits + (linesOf (givenTo a events)).card := by
    rw [hops, hcounted, ← hmisses]
    simp only [Controller.counted, Controller.hits, Controller.misses]
    omega
  rw [hquiet, List.length_nil, Nat.add_zero] at hupgrades
  refine ⟨hops.symm, hmisses, ?_, ?_, ?_, ?_⟩
  · show p.cacheController.hits = _
    omega
  · show _ = _ + _ + _ + upgradesIn ps.controllerType _
    rw [hwaits, Controller.cost, hmisses, hupgrades, Nat.mul_succ]
    omega
  · rw [hsends, Controller.answers, hmisses]
  · rw [hbusy, Controller.busies, hmisses]

/-- Two stores to a line that was loaded, and one to a line of its own. -/
theorem lone_trace_takes_its_time_loaded_first : ∃ h s p m,
    System.run ⟨2, .msi, 3, 2⟩ (loadedFirst ++ List.replicate
      (completionBound ⟨2, .msi, 3, 2⟩ loadedFirst) .tick) = .ok (h, s)
      ∧ s.interconnect.nodeAt 1 = some (.processor p) ∧ memoryAt s.interconnect 3 = some m
      ∧ p.totalWaitCycles = 4 + 2 * (3 + 2) + 1 + 2 ∧ m.memSendCounts = 2 * (2 - 1) + 1
      ∧ s.interconnect.busyCycles = 2 * (2 + 1) + 1 := by
  obtain ⟨h, s, hrun, -⟩ := System.exists_run ⟨2, .msi, 3, 2⟩ loadedFirst (fun _ _ => true)
    (by decide +kernel)
  have hlone (i : Instruction) (n : Nat) (hmem : Event.insertInstruction i n ∈ loadedFirst)
      (_ : Processor.isMemoryOp i = true) : n + 1 = 1 := by
    simp [loadedFirst, Event.insert] at hmem
    omega
  have hfits : LinesFit (linesOf (givenTo 1 loadedFirst)) := fun _ =>
    (Finset.card_filter_le _ _).trans (by decide +kernel)
  obtain ⟨h', s', hrun', htime⟩ := lone_trace_takes_its_time _ (by decide) (by decide) (by decide) _
    h s hrun 1 hlone hfits _ (Nat.le_refl _)
  have hok := (Run.of_system_run hrun').ok
  obtain ⟨p, hp, _⟩ := hok.valid.processor (a := 1) (by decide) (by decide)
  obtain ⟨m, hm, _⟩ := hok.valid.memory
  have hm := memoryAt_of_nodeAt hm
  obtain ⟨-, -, -, hwaits, hsends, hbusy⟩ := htime p m hp hm
  refine ⟨h', s', p, m, hrun', hp, hm, hwaits.trans ?_, hsends.trans ?_, hbusy.trans ?_⟩ <;>
    decide +kernel

end CoherenceSim
