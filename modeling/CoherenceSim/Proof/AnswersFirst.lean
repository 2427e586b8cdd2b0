import CoherenceSim.Proof.Coherence
import CoherenceSim.Proof.Transfers

/-!
# Caches answer before memory

Caches and memory hear of a read at the same time. What a cache has to say to it goes into its
queue of maximum priority, and memory is served only when these queues are empty, or with the lock
that it took when they were. Memory may keep the lock for a whole burst, in which the controllers
go on ticking. But only a read makes a controller queue an answer, and nobody reads while memory
has the bus.
-/

namespace CoherenceSim

open Interconnect

/-- What a cache says to a read: the data, or that it has a copy. -/
def CommandCode.FromCache (code : CommandCode) : Prop :=
  code = .dataReturnProcessor ∨ code = .shareMe

/-- The commands that ask for a line. -/
def CommandCode.IsRead (code : CommandCode) : Prop := code = .busRead ∨ code = .busReadX

/-! ## The queue of a controller -/

namespace Controller

variable {c c' : Controller} {d r : BusRequest}

/-- A controller's own tick queues no answer. -/
theorem Ticked.mem_answers (hs : Ticked c c') (hr : r ∈ c'.maxPriorityQueue)
    (ha : r.commandCode.FromCache) : r ∈ c.maxPriorityQueue := by
  rcases hs.queue with h0 | ⟨code, adx, hcode, h0⟩
  · rw [h0] at hr
    exact hr
  · rw [h0] at hr
    rcases List.mem_cons.mp hr with rfl | hr
    · have ha : code.FromCache := ha
      rcases hcode with rfl | rfl <;> rcases ha with h1 | h1 <;> cases h1
    · exact hr

/-- Nothing but a read is answered. -/
theorem Snooped.mem_answers (hs : Snooped d c c') (hd : ¬ d.commandCode.IsRead)
    (hr : r ∈ c'.maxPriorityQueue) (ha : r.commandCode.FromCache) : r ∈ c.maxPriorityQueue := by
  rcases hs.queue with hsub | ⟨code, h0, hcode⟩
  · exact hsub.subset hr
  · rw [h0] at hr
    rcases List.mem_cons.mp hr with rfl | hr
    · have ha : code.FromCache := ha
      rcases hcode with h1 | h1 | ⟨_, rfl⟩
      · exact absurd (Or.inl h1) hd
      · exact absurd (Or.inr h1) hd
      · rcases ha with h1 | h1 <;> cases h1
    · exact hr

end Controller

/-! ## Memory's turn -/

/-- No cache has an answer left to send. -/
def NoAnswers (ic : Interconnect Node) : Prop :=
  ∀ a c, controllerAt ic a = some c → ∀ r ∈ c.maxPriorityQueue, ¬ r.commandCode.FromCache

/-- The queues hold no answers as long as memory has the lock. -/
def LockQuiet (ps : Params) (ic : Interconnect Node) : Prop :=
  ic.nodeLocked = true → ic.lockedAddress = ps.numProcessors + 1 → NoAnswers ic

variable {ps : Params} {Q : Instruction → Prop} {ic mid ic' : Interconnect Node}
  {req : Option BusRequest}

theorem NoUrgent.noAnswers (h : NoUrgent ic) : NoAnswers ic := by
  intro a c hc r hr
  rw [h a c hc] at hr; cases hr

theorem MemoryTurn.noAnswers (h : MemoryTurn ps ic) (hq : LockQuiet ps ic) : NoAnswers ic := by
  cases hl : ic.nodeLocked with
  | true => exact hq hl (h.locked hl)
  | false => exact (h.free hl).noAnswers

/-- Memory is served in its turn. -/
theorem BusEvent.memoryTurn {r : BusRequest} (hev : BusEvent ps ic (some r) ic')
    (hv : Valid ps Q ic) (hsrc : r.sourceAddress = ps.numProcessors + 1) : MemoryTurn ps ic := by
  cases hev with
  | controller hc ha =>
      have := (hv.controller hc).range
      omega
  | memory _ _ _ hlock hfree => exact ⟨hlock, hfree⟩

/-- Memory takes and keeps the lock in its turn, and nobody else is heard then. -/
theorem BusEvent.memoryTurn_of_locked (hev : BusEvent ps ic req ic') (hv : Valid ps Q ic)
    (hl : ic'.nodeLocked = true) (haddr : ic'.lockedAddress = ps.numProcessors + 1) :
    MemoryTurn ps ic ∧ ∀ r, req = some r → r.sourceAddress = ps.numProcessors + 1 := by
  cases hev with
  | quiet _ _ hlock =>
      obtain ⟨_, hlocked, hfree⟩ := hlock hl
      exact ⟨⟨hlocked, hfree⟩, fun r hr => (by cases hr)⟩
  | controller hc _ _ _ _ _ _ _ _ hlocked ha =>
      -- the lock is the controller's
      have hrange := (hv.controller hc).range
      have hcaddr := ha (hlocked.symm.trans hl)
      omega
  | memory _ hsrc _ hlock hfree =>
      exact ⟨⟨hlock, hfree⟩, fun r hr => (by cases hr; exact hsrc)⟩

/-- Memory does not read. -/
theorem BusEvent.not_read {r : BusRequest} (hev : BusEvent ps ic (some r) ic') (hv : Valid ps Q ic)
    (hsrc : r.sourceAddress = ps.numProcessors + 1) : ¬ r.commandCode.IsRead := by
  intro hread
  rcases hev.code_of_memory hv hsrc with (h0 | h0 | h0) | h0 <;> rw [h0] at hread <;>
    rcases hread with hread | hread <;> cases hread

/-- Nobody else sends `DATA_RETURN_MEMORY`. -/
theorem BusEvent.source_of_dataReturnMemory {r : BusRequest} (hev : BusEvent ps ic (some r) ic')
    (hv : Valid ps Q ic) (hcode : r.commandCode = .dataReturnMemory) :
    r.sourceAddress = ps.numProcessors + 1 := by
  cases hev with
  | controller hc _ _ _ _ hs =>
      exact absurd hcode (hs.not_dataReturnMemory (hv.controller hc).inv.frame)
  | memory _ hsrc => exact hsrc

/-! ## A cycle -/

theorem NoAnswers.ticks (h : NoAnswers ic) (hv : Valid ps Q ic) (hvm : Valid ps Q mid)
    (ht : Ticks ic mid) : NoAnswers mid := by
  intro a c' hc' r hr ha
  obtain ⟨c, hc, hs⟩ := ht.controllerBefore hv hvm hc'
  exact h a c hc r (hs.mem_answers hr ha) ha

theorem LockQuiet.ticks (h : LockQuiet ps ic) (hv : Valid ps Q ic) (hvm : Valid ps Q mid)
    (ht : Ticks ic mid) : LockQuiet ps mid := by
  intro hl haddr
  rw [ht.nodeLocked] at hl
  rw [ht.lockedAddress] at haddr
  exact (h hl haddr).ticks hv hvm ht

/-- Where only memory is heard, no answer is queued. -/
theorem NoAnswers.bus (h : NoAnswers ic) (hv : Valid ps Q ic) (hv' : Valid ps Q ic')
    (hev : BusEvent ps ic req ic')
    (hsrc : ∀ r, req = some r → r.sourceAddress = ps.numProcessors + 1) : NoAnswers ic' := by
  intro a c' hc' r hr ha
  obtain ⟨c, hc, hpassed⟩ := hev.passed hv hv' hc'
  refine h a c hc r ?_ ha
  cases hpassed with
  | quiet => exact hr
  | missed => exact hr
  | sent _ _ hs => exact hs.mem_queue hr
  | received _ _ hs => exact hs.mem_answers (hev.not_read hv (hsrc _ rfl)) hr ha

variable {s m s' : System} {h : List TickRecord} {x : TickRecord} {r : BusRequest}

/-- **Preserved by every cycle.** -/
theorem Cycle.lockQuiet (hcycle : Cycle ps Q s m req s') (hv : Valid ps Q s.interconnect)
    (hv' : Valid ps Q s'.interconnect) (hq : LockQuiet ps s.interconnect) :
    LockQuiet ps s'.interconnect := by
  intro hl haddr
  have hvm := hcycle.valid
  obtain ⟨hturn, hsrc⟩ := hcycle.event.memoryTurn_of_locked hvm hl haddr
  have hnone := hturn.noAnswers (hq.ticks hv hvm hcycle.ticks)
  exact hnone.bus hvm hv' hcycle.event hsrc

/-- What memory sends, it sends when no answer waits, and no answer waits afterwards. -/
theorem Cycle.noAnswers (hcycle : Cycle ps Q s m (some r) s') (hv : Valid ps Q s.interconnect)
    (hv' : Valid ps Q s'.interconnect) (hq : LockQuiet ps s.interconnect)
    (hsrc : r.sourceAddress = ps.numProcessors + 1) :
    NoAnswers m.interconnect ∧ NoAnswers s'.interconnect := by
  have hvm := hcycle.valid
  have hturn := hcycle.event.memoryTurn hvm hsrc
  have hnone := hturn.noAnswers (hq.ticks hv hvm hcycle.ticks)
  refine ⟨hnone, hnone.bus hvm hv' hcycle.event ?_⟩
  intro r' hr'
  cases hr'
  exact hsrc

/-! ## Runs -/

theorem Run.lockQuiet (hrun : Run ps h s) : LockQuiet ps s.interconnect := by
  refine Run.induct (P := fun _ s => LockQuiet ps s.interconnect) ?_ ?_ ?_ hrun
  · intro s hs hl
    rw [hs.free] at hl; cases hl
  · intro h s s' _ _ hins hq hl haddr a c hc
    rw [hins.nodeLocked] at hl
    rw [hins.lockedAddress] at haddr
    rw [hins.controller] at hc
    exact hq hl haddr a c hc
  · intro h s m req s' hok hok' hcycle hq
    exact hcycle.lockQuiet hok.valid hok'.valid hq

/-- When an answer from memory goes out, no cache has one left to send, as the bus begins its tick
and as it ends it. -/
def AnswersFirst (x : TickRecord) : Prop :=
  ∀ r, x.sent = some r → r.commandCode = .dataReturnMemory →
    ∃ m, x.before.tickNodes = .ok m ∧ NoAnswers m.interconnect ∧ NoAnswers x.after.interconnect

/-- **Caches answer before memory**, however long memory takes and however long its bursts are. -/
theorem caches_answer_first (ps : Params) (h : List TickRecord) (s : System)
    (hrun : Run ps h s) : ∀ x ∈ h, AnswersFirst x := by
  intro x hx r hsent hcode
  obtain ⟨newer, older, hsplit⟩ := List.append_of_mem hx
  obtain ⟨hbefore, htick⟩ := hrun.of_split newer x older hsplit
  obtain ⟨m, req, s', htick', hcycle, hok'⟩ := hbefore.ok.tick
  rw [htick, hsent] at htick'
  cases htick'
  have hv := hbefore.ok.valid
  have hsrc := hcycle.event.source_of_dataReturnMemory hcycle.valid hcode
  obtain ⟨hmid, hafter⟩ := hcycle.noAnswers hv hok'.valid hbefore.lockQuiet hsrc
  exact ⟨m, hcycle.tickNodes, hmid, hafter⟩

/-- Two processors load one line. Each tells the other that it waits for the line too, and then
memory answers both. -/
theorem caches_answer_first_two_loads : ∃ h s, Run ⟨2, .mesi, 1, 2⟩ h s
    ∧ timesSent (·.commandCode = .shareMe) h = 2
    ∧ timesSent (·.commandCode = .dataReturnMemory) h = 2 ∧ ∀ x ∈ h, AnswersFirst x := by
  obtain ⟨h, s, hrun, hp⟩ := Run.of_run ⟨2, .mesi, 1, 2⟩
    ([.insert .load 64 0, .insert .load 64 1] ++ List.replicate 12 .tick)
    (fun h _ => decide (timesSent (·.commandCode = .shareMe) h = 2
      ∧ timesSent (·.commandCode = .dataReturnMemory) h = 2))
    (by decide +kernel)
  obtain ⟨hshare, hmemory⟩ := of_decide_eq_true hp
  exact ⟨h, s, hrun, hshare, hmemory, caches_answer_first _ h s hrun⟩

end CoherenceSim
