import CoherenceSim.Proof.LoneProcessor

/-!
# What a miss costs

A processor that runs alone waits one cycle for a hit. For a miss it waits while its read is put
on the bus, until memory lets go of the line, while the line is transferred, and while the cache is
filled, which is always as many cycles as the latency and the length of a burst, and one more. Only
the first miss costs another cycle, because memory begins all its bursts but the first with a unit
on its counter, and so does a store in MSI that has to send an `INVALIDATE`.

What was waited for, and what is still to be waited for, add up to that in every state. So do what
memory sends, and the cycles in which the bus is busy.
-/

namespace CoherenceSim

open BusNode Interconnect

namespace Controller

variable {c c₁ c' : Controller} {d : BusRequest}

def hits (c : Controller) : Nat := c.loadHits + c.storeHits

def misses (c : Controller) : Nat := c.loadMisses + c.storeMisses

/-- The controller waits for data. -/
def Awaits (c : Controller) : Prop := c.Missing ∧ c.awaitingDataLocal = true

/-- The cycles for which the processor still has to wait, if the data comes after so many. -/
def due (c : Controller) (left : Nat) : Nat :=
  match c.currentState with
  | .issueReadState | .issueReadXState => left + 1
  | .issueInvalidateState => 1
  | _ => 0

theorem due_of_missing (hm : c.Missing) (left : Nat) : c.due left = left + 1 := by
  rcases hm with hs | hs <;> rw [due, hs]

/-- A step of a controller that does not wait for data, and for how many cycles its processor
waits then. -/
inductive Works (c c₁ : Controller) : Nat → Prop
  | quietly {n : Nat} : c₁.requestsTransaction = false → ¬ c₁.Missing → c₁.misses = c.misses →
      c.due 0 + c₁.hits = c.hits + c₁.due 0 + n → Works c c₁ n
  | invalidates {r : BusRequest} : c₁.busReqQueue = [] → c₁.maxPriorityQueue = [r] →
      r.sourceAddress = c₁.nodeAddress → r.commandCode = .invalidate → ¬ c₁.Missing →
      c₁.misses = c.misses → c₁.hits = c.hits + 1 → c.due 0 = 0 → c₁.due 0 = 1 → Works c c₁ 1
  | misses : c₁.Awaits → c₁.requestsTransaction = true → c₁.maxPriorityQueue = [] →
      c₁.misses = c.misses + 1 → c₁.hits = c.hits → c.due 0 = 0 → Works c c₁ 1

theorem Inv.busReqQueue_of_not_awaits (h : c.Inv) (hw : ¬ c.Awaits) : c.busReqQueue = [] := by
  by_cases hm : c.Missing
  · cases (h.miss hm).stage with
    | queued hw' | out hw' => exact absurd ⟨hm, hw'⟩ hw
    | answered _ _ hq => exact hq
  · exact (h.rest hm).busReqQueue

/-- **A step costs what is counted for it.** -/
theorem Transitioned.works (hs : Transitioned c c₁) (h : c.Inv) (ha : c.Alone)
    (hquiet : c.maxPriorityQueue = []) (hw : ¬ c.Awaits) {n : Nat}
    (hn : n = c₁.pendingInstructionFlag.toNat) : Works c c₁ n := by
  have hqueue := h.busReqQueue_of_not_awaits hw
  have hnone : c.requestsTransaction = false := by simp [requestsTransaction, hqueue, hquiet]
  -- what leaves the queues alone, in a state in which no data is waited for
  have quiet {c₁ : Controller} (hc : c₁.requestsTransaction = c.requestsTransaction)
      (hm : ¬ c₁.Missing) (hmisses : c₁.misses = c.misses)
      (hdue : c.due 0 + c₁.hits = c.hits + c₁.due 0 + n) : Works c c₁ n :=
    .quietly (hc.trans hnone) hm hmisses hdue
  have hbusy (hne : c.currentState ≠ .idleState) : c.pendingInstructionFlag.toNat = 1 := by
    rw [h.busy hne]; rfl
  have hone (hp : c.pendingInstructionFlag = true) : c.pendingInstructionFlag.toNat = 1 := by
    rw [hp]; rfl
  cases hs with
  | rest hs hp =>
      refine quiet rfl (not_missing_of (s := .idleState) hs) rfl ?_
      simp [due, hs, hits, idleAction, hn]
  | retire hs =>
      refine quiet rfl (not_missing_of (s := .idleState) rfl) rfl ?_
      rcases hs with hs | hs | hs <;> simp [due, hs, hits, idleAction, hn]
  | wait hm hwait => exact absurd ⟨hm, hwait⟩ hw
  | invalidateQueued hs =>
      refine quiet rfl (not_missing_of (s := .invalidateWait) rfl) rfl ?_
      have hn := hn.trans (hbusy (by simp [hs]))
      simp [due, hs, hits]
      omega
  | loadHit hs hp =>
      refine quiet rfl (not_missing_of (s := .updateCacheLdState) rfl) rfl ?_
      have hn := hn.trans (hone hp)
      simp [due, hs, hits]
      omega
  | storeHit hs hp =>
      refine quiet rfl (not_missing_of (s := .updateCacheStState) rfl) rfl ?_
      have hn := hn.trans (hone hp)
      simp [due, hs, hits]
      omega
  | loadMiss hs hp =>
      obtain rfl := hn.trans (hone hp)
      exact .misses ⟨Or.inl rfl, rfl⟩ rfl hquiet (Nat.add_right_comm _ _ _) rfl
        (by simp [due, hs])
  | storeMiss hs hp =>
      obtain rfl := hn.trans (hone hp)
      exact .misses ⟨Or.inr rfl, rfl⟩ rfl hquiet rfl rfl (by simp [due, hs])
  | storeShared hs hp =>
      obtain rfl := hn.trans (hone hp)
      exact .invalidates hqueue (congrArg _ hquiet) rfl rfl
        (not_missing_of (s := .issueInvalidateState) rfl) rfl rfl (by simp [due, hs]) rfl
  | loadDropped _ _ hsaw =>
      simp [ha.undisturbed.sawBusReadX, ha.undisturbed.sawInvalidate] at hsaw
  | storeDropped _ _ hsaw =>
      simp [ha.undisturbed.sawBusRead, ha.undisturbed.sawBusReadX, ha.undisturbed.sawInvalidate]
        at hsaw
  | loadFilled hs =>
      refine quiet rfl (not_missing_of (s := .updateCacheLdState) rfl) rfl ?_
      have hn := hn.trans (hbusy (by simp [hs]))
      simp [due, hs, hits]
      omega
  | storeFilled hs =>
      refine quiet rfl (not_missing_of (s := .updateCacheStState) rfl) rfl ?_
      have hn := hn.trans (hbusy (by simp [hs]))
      simp [due, hs, hits]
      omega

theorem Works.frame {n : Nat} (hs : Works c c₁ n) {b f : Bool} {i : Option Instruction} :
    Works c { c₁ with bursting := b, currentInstruction := i, pendingInstructionFlag := f } n := by
  cases hs with
  | quietly hnone hm hmisses hdue => exact .quietly hnone hm hmisses hdue
  | invalidates hq hu hsrc hcode hm hmisses hhits hdue hdue' =>
      exact .invalidates hq hu hsrc hcode hm hmisses hhits hdue hdue'
  | misses hw hasks hu hmisses hhits hdue => exact .misses hw hasks hu hmisses hhits hdue

/-- A controller that waits for data goes on waiting. -/
theorem Transitioned.of_awaits (hs : Transitioned c c₁) (hw : c.Awaits) : c₁ = c := by
  obtain ⟨hm, hwait⟩ := hw
  cases hs with
  | wait => rfl
  | rest hs | invalidateQueued hs | loadHit hs | loadMiss hs | storeHit hs | storeShared hs
  | storeMiss hs => exact absurd hm (not_missing_of hs)
  | retire hs => rcases hs with hs | hs | hs <;> exact absurd hm (not_missing_of hs)
  | loadDropped _ hno | loadFilled _ hno | storeDropped _ hno | storeFilled _ hno =>
      rw [hwait] at hno
      cases hno

/-- Whoever sends something asked for the bus. -/
theorem Sent.asks (hs : Sent c d c') (h : c.Inv) : c.requestsTransaction = true := by
  have urgent {r : BusRequest} (hq : c.maxPriorityQueue.getLast? = some r) :
      c.requestsTransaction = true := by
    cases hqueue : c.maxPriorityQueue with
    | nil => rw [hqueue] at hq; cases hq
    | cons => simp [requestsTransaction, hqueue]
  cases hs with
  | nullBurst hq | transfer hq | command hq => exact urgent hq
  | read _ hm hwait hb =>
      cases (h.miss hm).stage with
      | queued _ _ hq => simp [requestsTransaction, hq]
      | out _ hb' => rw [hb] at hb'; cases hb'
      | answered hwait' => rw [hwait] at hwait'; cases hwait'

/-- A controller whose read is out has nothing to send. -/
theorem Inv.not_asks (h : c.Inv) (hw : c.Awaits) (hout : c.awaitingBusRead = true)
    (hu : c.maxPriorityQueue = []) : c.requestsTransaction = false := by
  cases (h.miss hw.1).stage with
  | out _ _ hq => simp [requestsTransaction, hq, hu]
  | queued _ hno => rw [hout] at hno; cases hno
  | answered hno => rw [hw.2] at hno; cases hno

theorem Sent.of_invalidate (hs : Sent c d c') {r : BusRequest} (hu : c.maxPriorityQueue = [r])
    (hcode : r.commandCode = .invalidate) : d = r ∧ c' = { c with
      maxPriorityQueue := []
      outgoingCommandWaitFlag := c.waitFlagAfter r.commandCode } := by
  have hlast : c.maxPriorityQueue.getLast? = some r := by rw [hu]; rfl
  cases hs with
  | nullBurst hq hb | transfer hq hb =>
      rw [hlast] at hq; cases hq
      simp [burstsFor, hcode] at hb
  | command hq =>
      rw [hlast] at hq; cases hq
      rw [hu]
      exact ⟨rfl, rfl⟩
  | read hq => rw [hu] at hq; cases hq

theorem Sent.of_quiet (hs : Sent c d c') (hu : c.maxPriorityQueue = []) : d = c.missRequest
    ∧ c' = { c with
      busReqQueue := []
      dispatchedBusRead := some c.missRequest
      awaitingBusRead := true
      outgoingCommandWaitFlag := c.waitFlagAfter c.missCommand } := by
  cases hs with
  | read => exact ⟨rfl, rfl⟩
  | nullBurst hq | transfer hq | command hq => rw [hu] at hq; cases hq

/-- The answer that a controller waits for. -/
theorem Snooped.of_answer (hs : Snooped d c c') (hcode : d.commandCode = .dataReturnMemory)
    (hw : c.Awaits) (hout : c.awaitingBusRead = true)
    (hadx : d.payload = c.awaitingDataLocalAddress) : c' = { c with
      maxPriorityQueue := uncancelled d c.maxPriorityQueue
      gotDataReturnFromBusReadMemory := true
      gotDataReturnFromBusReadProcessor := false
      snoopedDataReturnFromWriteback := false
      awaitingBusRead := false
      awaitingDataLocal := false } := by
  cases hs with
  | data => simp [hcode]
  | ignored hno =>
      rcases hno.miss (awaitsLocal_iff.mpr ⟨hw.2, hadx.symm⟩) with ⟨_, hb⟩ | hnull
      · rw [hout] at hb; cases hb
      · rw [hcode] at hnull; cases hnull
  | holdRead h0 | holdReadX h0 | holdInvalidate h0 | holdInvalidateModified h0 | holdShareMe h0
  | waitRead h0 | waitReadX h0 | waitInvalidate h0 | waitShareMe h0 =>
      rw [hcode] at h0
      cases h0

theorem Snooped.of_nullBurst (hs : Snooped d c c') (hcode : d.commandCode = .nullBurst) :
    c' = { c with maxPriorityQueue := uncancelled d c.maxPriorityQueue } := by
  cases hs with
  | ignored => rfl
  | data hdel => rcases hdel with h0 | h0 | h0 <;> rw [hcode] at h0 <;> cases h0
  | holdRead h0 | holdReadX h0 | holdInvalidate h0 | holdInvalidateModified h0 | holdShareMe h0
  | waitRead h0 | waitReadX h0 | waitInvalidate h0 | waitShareMe h0 =>
      rw [hcode] at h0
      cases h0

/-- The requests of a processor that shares no line take no burst. -/
theorem Alone.bursting_settle (ha : c.Alone) : c.settle.bursting = false := by
  show (c.maxPriorityQueue.getLast?.map burstsFor).getD false = false
  cases hq : c.maxPriorityQueue.getLast? with
  | none => rfl
  | some r => simp [burstsFor, (ha.urgent r (List.mem_of_mem_getLast? hq)).1]

end Controller

namespace Processor

variable {Q : Instruction → Prop} {p p₁ : Processor}

theorem not_pending_of_rest (hnext : p.getNextState = .ok .idleState)
    (hs : p.currentState ≠ .idleState) : p.cacheController.pendingInstructionFlag = false := by
  by_contra hp
  have hp : p.cacheController.pendingInstructionFlag = true := by simpa using hp
  cases hstate : p.currentState with
  | idleState => exact hs hstate
  | checkOpTypeState | memoryReturnWaitState =>
      simp [getNextState, hstate, checkOpTypeTransition, memoryReturnWaitTransition,
        Controller.hasPendingInstruction, hp] at hnext

/-- A processor waits in the ticks after which its controller has an instruction pending. -/
theorem Inv.turn_waits (h : p.Inv Q) (htick : p.tick = .ok p₁) :
    ∃ c₁, p.cacheController.transitionState = .ok c₁ ∧ p.cacheController.Transitioned c₁
      ∧ p.Turn c₁.settle p.handsOver p₁
      ∧ p₁.totalWaitCycles = p.totalWaitCycles + c₁.pendingInstructionFlag.toNat := by
  obtain ⟨c₁, hc₁, hs, hturn⟩ := h.turn htick
  refine ⟨c₁, hc₁, hs, hturn, ?_⟩
  generalize p.handsOver = o at hturn
  cases hturn with
  | rests hnext =>
      have hnot : c₁.pendingInstructionFlag = false := by
        by_cases hidle : p.currentState = .idleState
        · exact hs.pending (h.idle hidle)
        · exact not_pending_of_rest hnext hidle
      rw [hnot]; rfl
  | waits hnext =>
      have hpending : c₁.pendingInstructionFlag = true := pending_of_wait hnext
      rw [hpending]; rfl
  | handsOver _ _ hnot =>
      have hnot : c₁.pendingInstructionFlag = false := hnot
      rw [hnot]; rfl

/-- The turn of a processor that does not wait for data. -/
theorem Inv.works (h : p.Inv Q) (htick : p.tick = .ok p₁) (ha : p.cacheController.Alone)
    (hquiet : p.cacheController.maxPriorityQueue = []) (hw : ¬ p.cacheController.Awaits) :
    ∃ n, p.cacheController.Works p₁.cacheController n
      ∧ p₁.totalWaitCycles = p.totalWaitCycles + n ∧ p₁.cacheController.Alone
      ∧ p₁.cacheController.bursting = false := by
  obtain ⟨c₁, hc₁, hs, hturn, hwaits⟩ := h.turn_waits htick
  have hworks := hs.works h.controller ha hquiet hw rfl
  have ha₁ := ha.transitioned h.controller hc₁ hs
  refine ⟨_, ?_, hwaits, hturn.alone ha₁.frame, ?_⟩
  · generalize p.handsOver = o at hturn
    cases hturn with
    | rests | waits => exact hworks.frame
    | handsOver => exact hworks.frame
  · generalize p.handsOver = o at hturn
    cases hturn <;> exact ha₁.bursting_settle

/-- The turn of a processor that waits for data. -/
theorem Inv.awaits (h : p.Inv Q) (htick : p.tick = .ok p₁) (ha : p.cacheController.Alone)
    (hw : p.cacheController.Awaits) :
    p₁.cacheController = { p.cacheController with bursting := false }
      ∧ p₁.totalWaitCycles = p.totalWaitCycles + 1 := by
  obtain ⟨c₁, _, hs, hturn, hwaits⟩ := h.turn_waits htick
  obtain rfl := hs.of_awaits hw
  have hpending : p.cacheController.pendingInstructionFlag = true := by
    refine h.controller.busy fun hidle => ?_
    exact absurd hw.1 (Controller.not_missing_of (s := .idleState) hidle)
  rw [hpending] at hwaits
  refine ⟨?_, hwaits⟩
  rw [← ha.bursting_settle]
  generalize p.handsOver = o at hturn
  cases hturn with
  | rests | waits => rfl
  | handsOver _ _ hnot =>
      rw [show p.cacheController.pendingInstructionFlag = false from hnot] at hpending
      cases hpending

end Processor

/-! ## The ledger -/

/-- The cycles of waiting for the instructions that were looked up. -/
def Controller.cost (ps : Params) (c : Controller) : Nat :=
  c.hits + c.misses * (max ps.memoryLatency 1 + ps.burstLength + 1) + min c.misses 1

/-- What memory sends for the misses. -/
def Controller.answers (ps : Params) (c : Controller) : Nat :=
  c.misses * (ps.burstLength - 1) + min c.misses 1

/-- The cycles in which the bus is busy with the misses. -/
def Controller.busies (ps : Params) (c : Controller) : Nat :=
  c.misses * (ps.burstLength + 1) + min c.misses 1

/-- What memory has to do for the controller: after how many cycles it begins the burst, and how
much it sends then. -/
inductive Fetch (ps : Params) (a : Nat) (c : Controller) (m : Memory) (locked : Bool) :
    Nat → Nat → Prop
  | nothing : ¬ c.Awaits → m.memTracker = [] → m.bursting = false →
      m.burstCounter = min c.misses 1 → locked = false → Fetch ps a c m locked 0 0
  | ages {op : MemoryOperation} : c.Awaits → c.awaitingBusRead = true → 0 < c.misses →
      m.memTracker = [op] → op.returnAddress = a → op.address = c.awaitingDataLocalAddress →
      op.age < max ps.memoryLatency 1 → m.bursting = false →
      m.burstCounter = min (c.misses - 1) 1 → locked = false →
      Fetch ps a c m locked (max ps.memoryLatency 1 - op.age) (ps.burstLength - m.burstCounter)
  | bursts {r : BusRequest} : c.Awaits → c.awaitingBusRead = true → 0 < c.misses →
      m.memTracker = [] → m.bursting = true → m.burstRequest = some r → r.targetAddress = a →
      r.payload = c.awaitingDataLocalAddress → m.nodeIsLocked = true →
      Fetch ps a c m locked 0 (ps.burstLength - m.burstCounter)

/-- What was spent, and what is still to be spent, is what the instructions cost. -/
structure PaidFor (ps : Params) (a : Nat) (h : List TickRecord) (p : Processor) (m : Memory)
    (busyCycles wait units : Nat) : Prop where
  waits : p.totalWaitCycles + p.cacheController.due (wait + units)
    = p.cacheController.cost ps + timesSent (·.IsFrom a .invalidate) h
  sends : m.memSendCounts + units = p.cacheController.answers ps
  busy : busyCycles + units + min wait 1 = p.cacheController.busies ps

/-- The processor at `a` does all there is to do, and it is paid for. -/
structure Settles (ps : Params) (a : Nat) (h : List TickRecord) (p : Processor) (m : Memory)
    (locked : Bool) (busyCycles : Nat) : Prop where
  alone : p.cacheController.Alone
  quiet : p.cacheController.maxPriorityQueue = []
  queue : m.busReqQueue = []
  paid : ∃ wait units, Fetch ps a p.cacheController m locked wait units
    ∧ PaidFor ps a h p m busyCycles wait units

section

variable {ps : Params} {Q : Instruction → Prop} {a : Nat} {h : List TickRecord} {s s' : System}
  {req : Option BusRequest} {p p₁ : Processor} {c₁ c₂ : Controller} {m m₁ m₂ : Memory}
  {locked locked' : Bool} {busy : Nat}

theorem Memory.Ticked.of_nothing (ht : Memory.Ticked m m₁) (hb : m.bursting = false)
    (htracker : m.memTracker = []) : m₁ = m := by
  have hempty : m.updateReadAges.memTracker = [] := by
    rw [Memory.updateReadAges, htracker]
    rfl
  cases ht with
  | age =>
      cases m
      dsimp only at htracker
      rw [htracker]
      rfl
  | start _ hop => rw [hempty] at hop; cases hop
  | finish h0 | nullBurst h0 | hold h0 => exact absurd h0 (by simp [hb])

/-- A step without a request. -/
theorem LoneBus.of_not_asks (hb : LoneBus a c₁ m false req c₂ m₂ locked') (hi : c₁.Inv)
    (hno : c₁.requestsTransaction = false) (hq : m.busReqQueue = []) (hburst : m.bursting = false) :
    req = none ∧ c₂ = c₁ ∧ m₂ = m ∧ locked' = false := by
  cases hb with
  | rests => exact ⟨rfl, rfl, rfl, rfl⟩
  | polls hwhy => simp [hburst] at hwhy
  | commands _ _ hs =>
      have hasks : c₁.requestsTransaction = true := hs.asks hi.frame
      rw [hno] at hasks
      cases hasks
  | answers hq' => rw [hq] at hq'; cases hq'

/-- A step with a request, while memory has none. -/
theorem LoneBus.of_asks (hb : LoneBus a c₁ m false req c₂ m₂ locked')
    (hasks : c₁.requestsTransaction = true) (hq : m.busReqQueue = []) (hburst : m.bursting = false) :
    ∃ r, req = some r ∧ r.sourceAddress = a ∧ Controller.Sent c₁.polled r c₂
      ∧ m₂ = m.acceptBusTransaction r ∧ locked' = false := by
  cases hb with
  | rests _ hno => rw [hasks] at hno; cases hno
  | polls hwhy => simp [hburst] at hwhy
  | commands _ hsrc hs => exact ⟨_, rfl, hsrc, hs, rfl, rfl⟩
  | answers hq' => rw [hq] at hq'; cases hq'

/-- An `INVALIDATE` goes out, and memory does not heed it. -/
theorem LoneBus.of_invalidate (hb : LoneBus a c₁ m false req c₂ m₂ locked') (ha : c₁.Alone)
    (hq : m.busReqQueue = []) (hburst : m.bursting = false) {r : BusRequest}
    (hu : c₁.maxPriorityQueue = [r]) (hcode : r.commandCode = .invalidate) :
    req = some r ∧ r.sourceAddress = a ∧ c₂.Alone ∧ c₂ = { c₁.polled with
        maxPriorityQueue := []
        outgoingCommandWaitFlag := c₁.polled.waitFlagAfter r.commandCode }
      ∧ m₂ = m ∧ locked' = false := by
  have hasks : c₁.requestsTransaction = true := by simp [Controller.requestsTransaction, hu]
  obtain ⟨d, rfl, hsrc, hs, rfl, rfl⟩ := hb.of_asks hasks hq hburst
  have ha₂ := Controller.Alone.sent (c := c₁.polled) ha.frame hs
  obtain ⟨rfl, hc₂⟩ := hs.of_invalidate hu hcode
  exact ⟨rfl, hsrc, ha₂, hc₂, m.acceptBusTransaction_of_neither (by simp [hcode])
    (by simp [hcode]), rfl⟩

/-- The read of a miss goes out, and memory notes it. -/
theorem LoneBus.of_read (hb : LoneBus a c₁ m false req c₂ m₂ locked') (ha : c₁.Alone)
    (hasks : c₁.requestsTransaction = true) (hu : c₁.maxPriorityQueue = [])
    (hq : m.busReqQueue = []) (hburst : m.bursting = false) :
    ∃ r, req = some r ∧ ¬ r.IsFrom a .invalidate ∧ c₂.Alone ∧ c₂ = { c₁.polled with
        busReqQueue := []
        dispatchedBusRead := some r
        awaitingBusRead := true
        outgoingCommandWaitFlag := c₁.polled.waitFlagAfter r.commandCode }
      ∧ m₂ = { m with
        memTracker := m.memTracker ++ [⟨c₁.awaitingDataLocalAddress, 0, c₁.nodeAddress⟩] }
      ∧ locked' = false := by
  obtain ⟨d, rfl, hsrc, hs, rfl, rfl⟩ := hb.of_asks hasks hq hburst
  have ha₂ := Controller.Alone.sent (c := c₁.polled) ha.frame hs
  obtain ⟨rfl, hc₂⟩ := hs.of_quiet hu
  have hread : c₁.polled.missCommand = .busRead ∨ c₁.polled.missCommand = .busReadX := by
    rcases c₁.polled.missCommand_cases with h0 | ⟨h0, _⟩
    · exact Or.inr h0
    · exact Or.inl h0
  refine ⟨_, rfl, fun h0 => ?_, ha₂, hc₂, Memory.acceptBusTransaction_of_read hread, rfl⟩
  have hcode : c₁.polled.missCommand = .invalidate := h0.2
  rw [hcode] at hread
  simp at hread

/-- Memory is given the lock for the burst that it begins. -/
theorem LoneBus.of_bursting (hb : LoneBus a c₁ m locked req c₂ m₂ locked') (hi : c₁.Inv)
    (hno : c₁.requestsTransaction = false) (hq : m.busReqQueue = []) (hburst : m.bursting = true) :
    req = none ∧ c₂ = c₁ ∧ m₂ = { m with nodeIsLocked := true } ∧ locked' = true := by
  cases hb with
  | rests _ _ _ h0 => rw [hburst] at h0; cases h0
  | polls => exact ⟨rfl, rfl, by rw [hburst], hburst⟩
  | commands _ _ hs =>
      have hasks : c₁.requestsTransaction = true := hs.asks hi.frame
      rw [hno] at hasks
      cases hasks
  | answers hq' => rw [hq] at hq'; cases hq'

/-- What memory has queued is put on the bus. -/
theorem LoneBus.of_queued (hb : LoneBus a c₁ m locked req c₂ m₂ locked') (hi : c₁.Inv)
    (hno : c₁.requestsTransaction = false) {r : BusRequest} (hq : m.busReqQueue = [r]) :
    req = some r ∧ r.sourceAddress ≠ a
      ∧ (if Receives r a then Controller.Snooped r c₁ c₂ else c₂ = c₁)
      ∧ m₂ = { m with
        nodeIsLocked := m.bursting
        busReqQueue := []
        memSendCounts := m.memSendCounts + 1 }
      ∧ locked' = m.bursting := by
  cases hb with
  | rests _ _ h0 | polls _ h0 => rw [hq] at h0; cases h0
  | commands _ _ hs =>
      have hasks : c₁.requestsTransaction = true := hs.asks hi.frame
      rw [hno] at hasks
      cases hasks
  | answers hq' hsrc hheard =>
      rw [hq] at hq'; cases hq'
      exact ⟨rfl, hsrc, hheard, rfl, rfl⟩

theorem Memory.getOldestOp_of_single {op : MemoryOperation} (h : m.memTracker = [op]) :
    m.getOldestOp = 0 := by
  have := Memory.getOldestOp_lt (m := m) (by rw [h]; exact Nat.one_pos)
  rw [h, List.length_singleton] at this
  omega

/-- While no data is waited for, memory has nothing to do. -/
theorem Settles.nothing (hset : Settles ps a h p m locked busy)
    (hno : ¬ p.cacheController.Awaits) : m.memTracker = [] ∧ m.bursting = false
      ∧ m.burstCounter = min p.cacheController.misses 1 ∧ locked = false
      ∧ PaidFor ps a h p m busy 0 0 := by
  obtain ⟨_, _, hfetch, hpaid⟩ := hset.paid
  cases hfetch with
  | nothing _ htracker hburst hcounter hlocked =>
      exact ⟨htracker, hburst, hcounter, hlocked, hpaid⟩
  | ages h0 | bursts h0 => exact absurd h0 hno

/-- A cycle in which no data is waited for. -/
theorem Settles.works {n : Nat} (hset : Settles ps a h p m locked busy)
    (hw : p.cacheController.Works p₁.cacheController n) (hno : ¬ p.cacheController.Awaits)
    (hi : p₁.cacheController.Inv) (ha : p₁.cacheController.Alone)
    (hwaits : p₁.totalWaitCycles = p.totalWaitCycles + n)
    (hnode : p₁.cacheController.nodeAddress = a) (hlen : 2 ≤ ps.burstLength)
    (hb : LoneBus a p₁.cacheController m locked req c₂ m₂ locked') :
    Settles ps a (⟨s, req, s'⟩ :: h) { p₁ with cacheController := c₂ } m₂ locked'
      (busy + busyStep p₁.cacheController locked req locked') := by
  obtain ⟨htracker, hburst, hcounter, rfl, hcost, hsends, hbusy⟩ := hset.nothing hno
  have hqueue := hset.queue
  cases hw with
  | quietly hnone hm hmisses hdue =>
      obtain ⟨rfl, rfl, rfl, rfl⟩ := hb.of_not_asks hi hnone hqueue hburst
      have hquiet := (Controller.queues_of_not_requests hnone).2
      refine ⟨ha, hquiet, hqueue, 0, 0,
        .nothing (fun h0 => hm h0.1) htracker hburst (hmisses ▸ hcounter) rfl, ?_, ?_, ?_⟩
      · rw [timesSent_isFrom_of_ne none _ _ _ _ fun _ h0 => by cases h0]
        simp only [Controller.cost, hmisses, Nat.add_zero] at hcost ⊢
        omega
      · simpa only [Controller.answers, hmisses] using hsends
      · simpa [Controller.busies, hmisses, busyStep] using hbusy
  | @invalidates r hq hu hsrc hcode hm hmisses hhits hdue hdue' =>
      obtain ⟨rfl, hsrc', ha₂, rfl, rfl, rfl⟩ := hb.of_invalidate ha hqueue hburst hu hcode
      refine ⟨ha₂, rfl, hqueue, 0, 0, .nothing (fun h0 => hm h0.1) htracker hburst
        (hcounter.trans (congrArg (min · 1) hmisses.symm)) rfl, ?_, ?_, ?_⟩
      · have hone : timesSent (·.IsFrom a .invalidate) (⟨s, some r, s'⟩ :: h)
            = timesSent (·.IsFrom a .invalidate) h + 1 := by
          rw [timesSent_isFrom_cons]
          simp [BusRequest.IsFrom, hsrc', hcode]
        rw [hone]
        change p₁.totalWaitCycles + p₁.cacheController.due 0 = p₁.cacheController.cost ps + _
        simp only [Controller.cost, hmisses, hhits, Nat.add_zero] at hcost ⊢
        omega
      · change _ = p₁.cacheController.answers ps
        simpa only [Controller.answers, hmisses] using hsends
      · change _ = p₁.cacheController.busies ps
        simpa [Controller.busies, hmisses, busyStep, hu] using hbusy
  | misses hawaits hasks hu hmisses hhits hdue =>
      obtain ⟨r, rfl, hnot, ha₂, hc₂, rfl, rfl⟩ := hb.of_read ha hasks hu hqueue hburst
      obtain ⟨hawaits₂, hout, hu₂, hmisses₂, hhits₂, hadx⟩ : c₂.Awaits ∧ c₂.awaitingBusRead = true
          ∧ c₂.maxPriorityQueue = [] ∧ c₂.misses = p.cacheController.misses + 1
          ∧ c₂.hits = p.cacheController.hits
          ∧ p₁.cacheController.awaitingDataLocalAddress = c₂.awaitingDataLocalAddress := by
        rw [hc₂]
        exact ⟨hawaits, rfl, hu, hmisses, hhits, rfl⟩
      refine ⟨ha₂, hu₂, hqueue, _, _, .ages hawaits₂ hout (by dsimp only; omega)
        (congrArg (· ++ _) htracker) hnode hadx (Nat.lt_of_lt_of_le Nat.one_pos (le_max_right _ _))
        hburst (hcounter.trans (congrArg (min · 1) (by dsimp only; omega))) rfl, ?_, ?_, ?_⟩
      · have hsame : timesSent (·.IsFrom a .invalidate) (⟨s, some r, s'⟩ :: h)
            = timesSent (·.IsFrom a .invalidate) h := by
          rw [timesSent_isFrom_cons]
          simp [hnot]
        rw [hsame]
        dsimp only
        rw [Controller.due_of_missing hawaits₂.1]
        simp only [Controller.cost, hmisses₂, hhits₂, Nat.add_mul, Nat.add_zero] at hcost ⊢
        omega
      · simp only [Controller.answers, hmisses₂, Nat.add_mul] at hsends ⊢
        omega
      · have hstep : busyStep p₁.cacheController false (some r) false = 1 := by
          simp [busyStep, hu]
        rw [hstep]
        simp only [Controller.busies, hmisses₂, Nat.add_mul] at hbusy ⊢
        omega

/-- What `tick` makes of the controller while data is waited for. -/
theorem Settles.settled (hset : Settles ps a h p m locked busy) {b : Bool} :
    Settles ps a h { p with cacheController := { p.cacheController with bursting := b } } m locked
      busy := by
  obtain ⟨halone, hquiet, hqueue, wait, sends, hfetch, hwaits, hsends, hbusy⟩ := hset
  refine ⟨halone.frame, hquiet, hqueue, wait, sends, ?_, hwaits, hsends, hbusy⟩
  cases hfetch with
  | nothing hno htracker hburst hcounter hlocked =>
      exact .nothing hno htracker hburst hcounter hlocked
  | ages hw hout hpos htracker hreturn hadx hage hburst hcounter hlocked =>
      exact .ages hw hout hpos htracker hreturn hadx hage hburst hcounter hlocked
  | bursts hw hout hpos htracker hburst hr htarget hadx hl =>
      exact .bursts hw hout hpos htracker hburst hr htarget hadx hl

/-- A cycle in which memory lets a read grow old. -/
theorem Settles.ages (hset : Settles ps a h p m locked busy) (hw : p.cacheController.Awaits)
    (hi : p.cacheController.Inv) (hburst : m.bursting = false) (ht : Memory.Ticked m m₁)
    (hp : m.Paced ps) (hlatency : ps.memoryLatency < 2 ^ 32)
    (hb : LoneBus a p.cacheController m₁ locked req c₂ m₂ locked')
    (hwaits : p₁.totalWaitCycles = p.totalWaitCycles + 1) :
    Settles ps a (⟨s, req, s'⟩ :: h) { p₁ with cacheController := c₂ } m₂ locked'
      (busy + busyStep p.cacheController locked req locked') := by
  obtain ⟨halone, hquiet, hqueue, wait, units, hfetch, hpaid, hsends, hbusy⟩ := hset
  rw [Controller.due_of_missing hw.1] at hpaid
  cases hfetch with
  | nothing hno => exact absurd hw hno
  | bursts _ _ _ _ h0 => rw [hburst] at h0; cases h0
  | @ages op _ hout hpos htracker hreturn hadx hage _ hcounter hlocked =>
      subst hlocked
      have hidle := hi.not_asks hw hout hquiet
      have haged : m.updateReadAges.memTracker = [{ op with age := op.age + 1 }] := by
        rw [Memory.updateReadAges, htracker]
        simp only [List.map_cons, List.map_nil, List.cons.injEq, and_true]
        rw [Nat.mod_eq_of_lt (by omega)]
      have holdest := Memory.getOldestOp_of_single haged
      cases ht with
      | age _ hyoung =>
          have hyoung := hyoung { op with age := op.age + 1 } (by rw [holdest, haged]; rfl)
          rw [hp.readLatency] at hyoung
          obtain ⟨rfl, rfl, rfl, rfl⟩ := hb.of_not_asks hi hidle hqueue hburst
          refine ⟨halone, hquiet, hqueue, _, _, .ages hw hout hpos haged hreturn hadx
            (by dsimp only at hyoung ⊢; omega) hburst hcounter rfl, ?_, hsends, ?_⟩
          · rw [timesSent_isFrom_of_ne none _ _ _ _ (fun _ h0 => (by cases h0)), ← hpaid]
            dsimp only [Memory.updateReadAges] at hyoung ⊢
            rw [Controller.due_of_missing hw.1]
            omega
          · have hstep : busyStep p.cacheController false none false = 0 := by simp [busyStep]
            rw [hstep, ← hbusy]
            dsimp only [Memory.updateReadAges] at hyoung ⊢
            omega
      | start _ hq hready =>
          rw [holdest, haged] at hq; cases hq
          rw [hp.readLatency] at hready
          obtain ⟨rfl, rfl, rfl, rfl⟩ := hb.of_bursting hi hidle hqueue rfl
          refine ⟨halone, hquiet, hqueue, _, _, .bursts hw hout hpos ?_ rfl rfl hreturn hadx rfl,
            ?_, hsends, ?_⟩
          · dsimp only
            rw [holdest, haged]
            rfl
          · rw [timesSent_isFrom_of_ne none _ _ _ _ (fun _ h0 => (by cases h0)), ← hpaid]
            dsimp only [Memory.updateReadAges] at hready ⊢
            rw [Controller.due_of_missing hw.1]
            omega
          · have hstep : busyStep p.cacheController false none true = 1 := by
              simp [busyStep, hquiet]
            rw [hstep, ← hbusy]
            dsimp only [Memory.updateReadAges]
            omega
      | finish h0 | nullBurst h0 | hold h0 => rw [hburst] at h0; cases h0

/-- A cycle in which memory transfers. -/
theorem Settles.bursts (hset : Settles ps a h p m locked busy) (hw : p.cacheController.Awaits)
    (hi : p.cacheController.Inv) (hburst : m.bursting = true) (ht : Memory.Ticked m m₁)
    (hp : m.Paced ps) (hm : m.Inv ps.numProcessors) (hlen : 2 ≤ ps.burstLength)
    (hlen' : ps.burstLength < 2 ^ 32)
    (hb : LoneBus a p.cacheController m₁ locked req c₂ m₂ locked')
    (hwaits : p₁.totalWaitCycles = p.totalWaitCycles + 1) :
    Settles ps a (⟨s, req, s'⟩ :: h) { p₁ with cacheController := c₂ } m₂ locked'
      (busy + busyStep p.cacheController locked req locked') := by
  obtain ⟨halone, hquiet, hqueue, wait, units, hfetch, hpaid, hsends, hbusy⟩ := hset
  rw [Controller.due_of_missing hw.1] at hpaid
  cases hfetch with
  | nothing hno => exact absurd hw hno
  | ages _ _ _ _ _ _ _ h0 => rw [hburst] at h0; cases h0
  | @bursts r _ hout hpos htracker _ hr htarget hadx hl =>
      have hidle := hi.not_asks hw hout hquiet
      obtain ⟨_, hr', hanswer⟩ := hm.burst hburst
      rw [hr] at hr'; cases hr'
      have hcounter := hp.counter
      -- the bus is busy with what memory sends
      have hstep {r : BusRequest} {l l' : Bool} : busyStep p.cacheController l (some r) l' = 1 := by
        simp [busyStep, hquiet]
      have hlast : Memory.tick.subOne m.burstLen = ps.burstLength - 1 := by
        rw [hp.burstLen, Memory.subOne_eq (by omega) hlen']
      cases ht with
      | age h0 | start h0 => rw [hburst] at h0; cases h0
      | hold _ _ h0 => rw [hl] at h0; cases h0
      | finish _ hr' hend =>
          rw [hr] at hr'; cases hr'
          rw [hlast] at hend
          obtain ⟨rfl, hsrc, hheard, rfl, rfl⟩ := hb.of_queued hi hidle (congrArg (· ++ _) hqueue)
          have hrec : Receives r a := by
            rw [Receives, if_neg (by rw [BROADCAST_ADX]; have := hanswer.target.1; omega)]
            exact htarget.symm
          rw [if_pos hrec] at hheard
          have hc₂ := hheard.of_answer hanswer.code hw hout hadx
          obtain ⟨hwait₂, hm₂, hmisses₂, hhits₂, hquiet₂⟩ : c₂.awaitingDataLocal = false
              ∧ c₂.Missing ∧ c₂.misses = p.cacheController.misses
              ∧ c₂.hits = p.cacheController.hits ∧ c₂.maxPriorityQueue = [] := by
            rw [hc₂]
            exact ⟨rfl, hw.1, rfl, rfl, by simp [Controller.uncancelled, hquiet]⟩
          refine ⟨hc₂ ▸ halone.heard (.answer hw.1), hquiet₂, rfl, 0, 0, .nothing (fun h0 => ?_)
            htracker rfl ?_ rfl, ?_, ?_, ?_⟩
          · have hawaits := h0.2
            rw [hwait₂] at hawaits
            cases hawaits
          · dsimp only
            rw [if_pos hl, hmisses₂]
            omega
          · rw [timesSent_isFrom_of_ne _ _ _ _ _ (fun _ h0 => (by cases h0; exact hsrc))]
            dsimp only
            rw [Controller.cost, hhits₂, hmisses₂, ← Controller.cost, ← hpaid,
              Controller.due_of_missing hm₂]
            omega
          · rw [Controller.answers, hmisses₂, ← Controller.answers, ← hsends]
            dsimp only
            omega
          · rw [Controller.busies, hmisses₂, ← Controller.busies, ← hbusy, hstep]
            omega
      | nullBurst _ hr' hend =>
          rw [hr] at hr'; cases hr'
          rw [hlast] at hend
          obtain ⟨rfl, hsrc, hheard, rfl, rfl⟩ := hb.of_queued hi hidle (congrArg (· ++ _) hqueue)
          rw [if_pos (by rw [Receives, if_pos rfl]; exact fun h0 => hsrc h0.symm)] at hheard
          have hc₂ := hheard.of_nullBurst rfl
          obtain ⟨hw₂, hout₂, hadx₂, hmisses₂, hhits₂, hquiet₂⟩ : c₂.Awaits
              ∧ c₂.awaitingBusRead = true ∧ r.payload = c₂.awaitingDataLocalAddress
              ∧ c₂.misses = p.cacheController.misses ∧ c₂.hits = p.cacheController.hits
              ∧ c₂.maxPriorityQueue = [] := by
            rw [hc₂]
            exact ⟨hw, hout, hadx, rfl, rfl, by simp [Controller.uncancelled, hquiet]⟩
          refine ⟨hc₂ ▸ halone.heard .nothing, hquiet₂, rfl, _, _, .bursts hw₂ hout₂
            (by dsimp only; omega) htracker hburst hr htarget hadx₂ hburst, ?_, ?_, ?_⟩
          · rw [timesSent_isFrom_of_ne _ _ _ _ _ (fun _ h0 => (by cases h0; exact hsrc))]
            dsimp only
            rw [Controller.cost, hhits₂, hmisses₂, ← Controller.cost, ← hpaid,
              Controller.due_of_missing hw₂.1, Nat.mod_eq_of_lt (by omega)]
            omega
          · rw [Controller.answers, hmisses₂, ← Controller.answers, ← hsends]
            dsimp only
            rw [Nat.mod_eq_of_lt (by omega)]
            omega
          · rw [Controller.busies, hmisses₂, ← Controller.busies, ← hbusy, hstep]
            dsimp only
            rw [Nat.mod_eq_of_lt (by omega)]
            omega

/-! ## Runs -/

variable {mid : System}

/-- The state of a system in which only the processor at `a` was given anything to do. -/
structure Lone (ps : Params) (a : Nat) (h : List TickRecord) (s : System) : Prop where
  apart : Apart (OnlyAt a) s.interconnect
  owner : s.interconnect.nodeLocked = true → s.interconnect.lockedAddress = ps.numProcessors + 1
  settles : ∀ p m, s.interconnect.nodeAt a = some (.processor p) →
    memoryAt s.interconnect (ps.numProcessors + 1) = some m →
    Settles ps a h p m s.interconnect.nodeLocked s.interconnect.busyCycles

/-- **Preserved by a cycle.** -/
theorem Lone.cycle (hl : Lone ps a h s) (hw : Working ps h s) (hlen : 2 ≤ ps.burstLength)
    (hlen' : ps.burstLength < 2 ^ 32) (hlatency : ps.memoryLatency < 2 ^ 32)
    (hr : 1 ≤ a ∧ a ≤ ps.numProcessors) (hok : s.Ok ps Q) (hok' : s'.Ok ps Q)
    (hcycle : Cycle ps Q s mid req s') : Lone ps a (⟨s, req, s'⟩ :: h) s' := by
  obtain ⟨p, p₁, c₂, hc⟩ := hcycle.processor hok hok' hr
  obtain ⟨m, hm, hinv⟩ := hok.valid.memory
  have hm := memoryAt_of_nodeAt hm
  obtain ⟨m₁, ht, hm₁⟩ := hcycle.ticks.memory _ m hm
  have hbetween := controllerAt_of_nodeAt hc.between
  have hok₁ := hcycle.valid.controller hbetween
  have hset := hl.settles p m hc.before hm
  have nodes (hb : p₁.cacheController.bursting = false) :
      LoneNodes ps Q a mid.interconnect p₁.cacheController m₁ :=
    ⟨hcycle.valid, hcycle.fresh, fun b d => hl.apart.kept_ticks hok hok' hcycle, hbetween, hm₁, hb,
      fun h0 => by
        rw [hcycle.ticks.lockedAddress]
        exact hl.owner (hcycle.ticks.nodeLocked ▸ h0)⟩
  have hmid : mid.interconnect.busyCycles = s.interconnect.busyCycles :=
    System.tickNodes_busyCycles hcycle.tickNodes
  have htick : mid.interconnect.tick = .ok (req, s'.interconnect) := by
    obtain ⟨⟨_, ic'⟩, htick, h0⟩ := Outcome.bind_eq_ok.mp hcycle.tickInterconnect
    cases h0
    exact htick
  -- what the two halves make of the controller and the memory, and that it settles
  have done (hb : p₁.cacheController.bursting = false)
      (hnext : ∀ m₂, LoneBus a p₁.cacheController m₁ s.interconnect.nodeLocked req c₂ m₂
          s'.interconnect.nodeLocked →
        Settles ps a (⟨s, req, s'⟩ :: h) { p₁ with cacheController := c₂ } m₂
          s'.interconnect.nodeLocked (s.interconnect.busyCycles
            + busyStep p₁.cacheController s.interconnect.nodeLocked req s'.interconnect.nodeLocked)) :
      Lone ps a (⟨s, req, s'⟩ :: h) s' := by
    obtain ⟨c', m₂, hc', hm₂, hbus, howner⟩ := (nodes hb).bus hcycle.event hcycle.bus
    rw [controllerAt_of_nodeAt hc.after] at hc'; cases hc'
    have hbusy := (nodes hb).busyCycles htick
    rw [hcycle.ticks.nodeLocked] at hbus hbusy
    rw [hmid] at hbusy
    refine ⟨hl.apart.cycle hok hok' hcycle, howner, fun p' m' hp' hm' => ?_⟩
    rw [hc.after] at hp'; cases hp'
    rw [hm₂] at hm'; cases hm'
    rw [hbusy]
    exact hnext m₂ hbus
  by_cases hawaits : p.cacheController.Awaits
  · obtain ⟨hc₁, hwaits⟩ := hc.inv.awaits hc.tick hset.alone hawaits
    refine done (by rw [hc₁]) fun m₂ hbus => ?_
    have hset₁ := hset.settled (b := false)
    have hi := hok₁.inv
    rw [hc₁] at hbus hi ⊢
    cases hburst : m.bursting with
    | true => exact hset₁.bursts hawaits hi hburst ht (hw.paced m hm) hinv hlen hlen' hbus hwaits
    | false => exact hset₁.ages hawaits hi hburst ht (hw.paced m hm) hlatency hbus hwaits
  · obtain ⟨n, hworks, hwaits, ha₁, hb₁⟩ := hc.inv.works hc.tick hset.alone hset.quiet hawaits
    refine done hb₁ fun m₂ hbus => ?_
    obtain ⟨htracker, hburst, _⟩ := hset.nothing hawaits
    obtain rfl := ht.of_nothing hburst htracker
    exact hset.works hworks hawaits hok₁.inv ha₁ hwaits hok₁.nodeAddress hlen hbus

/-- **Preserved by an insertion.** -/
theorem Lone.insertInstruction (hl : Lone ps a h s) (hok : s.Ok ps Q) {i : Instruction} {n : Nat}
    (hi : Q i) (hassign : (Event.insertInstruction i n).Assigns (OnlyAt a))
    (heq : s.insertInstruction i n = .ok s') : Lone ps a h s' := by
  have hins := (hok.of_insertInstruction hi heq).2
  have hbusy : s'.interconnect.busyCycles = s.interconnect.busyCycles := by
    obtain ⟨_, _, rfl⟩ := hok.insertInstruction_eq heq
    rfl
  refine ⟨hl.apart.insertInstruction hok hassign hins heq, fun h0 => ?_, fun p m hp hm => ?_⟩
  · rw [hins.lockedAddress]
    exact hl.owner (hins.nodeLocked ▸ h0)
  · obtain ⟨p₀, hp₀, hlocked, hat⟩ := hok.inserted heq
    rw [hins.memory] at hm
    rw [hat] at hp
    rw [hlocked, hbusy]
    split at hp
    · rename_i ha
      cases hp
      obtain ⟨halone, hquiet, hqueue, wait, units, hfetch, hpaid⟩ := hl.settles p₀ m (ha ▸ hp₀) hm
      unfold Processor.processInstruction
      split
      · exact ⟨halone, hquiet, hqueue, wait, units, hfetch, hpaid.waits, hpaid.sends, hpaid.busy⟩
      · exact ⟨halone, hquiet, hqueue, wait, units, hfetch, hpaid⟩
    · exact hl.settles p m hp hm

theorem System.Initial.lone (hs : s.Initial ps) (hbusy : s.interconnect.busyCycles = 0) :
    Lone ps a [] s := by
  refine ⟨hs.apart, fun h0 => ?_, fun p m hp hm => ?_⟩
  · rw [hs.free] at h0; cases h0
  · have hnew := hs.processor a p hp
    cases hnew
    obtain rfl := hs.memory _ m hm
    have hnot : ¬ Controller.Awaits ((Controller.new ps.controllerType ps.burstLength).setAddress a) :=
      fun h0 => absurd h0.1 (Controller.not_missing_of (s := .idleState) rfl)
    refine ⟨onlyReads_new.alone, rfl, rfl, 0, 0, .nothing hnot rfl rfl rfl hs.free, ?_, ?_, ?_⟩
    · show 0 + 0 = 0 + 0 * _ + min 0 1 + 0
      rw [Nat.zero_mul]
      rfl
    · show 0 + 0 = 0 * _ + min 0 1
      rw [Nat.zero_mul]
      rfl
    · rw [hbusy]
      show 0 + 0 + min 0 1 = 0 * _ + min 0 1
      rw [Nat.zero_mul]

theorem System.run_lone {events : List Event} (hlen : 2 ≤ ps.burstLength)
    (hlen' : ps.burstLength < 2 ^ 32) (hlatency : ps.memoryLatency < 2 ^ 32)
    (hr : 1 ≤ a ∧ a ≤ ps.numProcessors) (hassign : ∀ e ∈ events, e.Assigns (OnlyAt a))
    (hrun : System.run ps events = .ok (h, s)) : Lone ps a h s := by
  obtain ⟨s₀, hs₀, hinit⟩ := System.new_spec ps
  rw [System.run, hs₀, Outcome.ok_bind] at hrun
  refine ((System.exec_events_induct (Q := fun _ => True)
    (P := fun events h s => (∀ e ∈ events, e.Assigns (OnlyAt a)) → Working ps h s ∧ Lone ps a h s)
    ?_ ?_ events (fun e _ => ?_) (hinit.ok _)
    (fun (_ : ∀ e ∈ [], Event.Assigns (OnlyAt a) e) =>
      ⟨hinit.working hlen, hinit.lone (System.new_busyCycles hs₀)⟩) hrun).2 hassign).2
  · intro past h s s' i n hok _ hi heq ih hassign
    obtain ⟨hw, hl⟩ := ih fun e he => hassign e (List.mem_append_left _ he)
    exact ⟨hw.insertInstruction hok hi heq, hl.insertInstruction hok hi
      (hassign _ (List.mem_append_right _ (List.mem_singleton_self _))) heq⟩
  · intro past h s mid req s' hok hok' hcycle ih hassign
    obtain ⟨hw, hl⟩ := ih fun e he => hassign e (List.mem_append_left _ he)
    exact ⟨hw.cycle hlen hlen' hok hok' hcycle,
      hl.cycle hw hlen hlen' hlatency hr hok hok' hcycle⟩
  · cases e <;> trivial

theorem assigns_of_lone {events : List Event}
    (hlone : ∀ i n, Event.insertInstruction i n ∈ events → Processor.isMemoryOp i = true →
      n + 1 = a) : ∀ e ∈ events, e.Assigns (OnlyAt a) := by
  intro e he
  cases e with
  | insertInstruction i n => exact fun hop => hlone i n he hop
  | tick => trivial

/-- Nothing is due for an instruction that is not there. -/
theorem Lone.paid (hl : Lone ps a h s) (hok : s.Ok ps Q)
    (hp : s.interconnect.nodeAt a = some (.processor p))
    (hm : memoryAt s.interconnect (ps.numProcessors + 1) = some m)
    (hidle : p.cacheController.pendingInstructionFlag = false) :
    p.totalWaitCycles = p.cacheController.cost ps + timesSent (·.IsFrom a .invalidate) h
      ∧ m.memSendCounts = p.cacheController.answers ps
      ∧ s.interconnect.busyCycles = p.cacheController.busies ps := by
  have hstate : p.cacheController.currentState = .idleState := by
    by_contra hne
    rw [(hok.valid.controller (controllerAt_of_nodeAt hp)).inv.busy hne] at hidle
    cases hidle
  have hno : ¬ p.cacheController.Awaits := fun h0 =>
    absurd h0.1 (Controller.not_missing_of (s := .idleState) hstate)
  obtain ⟨_, _, _, _, hwaits, hsends, hbusy⟩ := (hl.settles p m hp hm).nothing hno
  have hdue : p.cacheController.due (0 + 0) = 0 := by rw [Controller.due, hstate]
  refine ⟨?_, hsends, hbusy⟩
  rw [← hwaits, hdue, Nat.add_zero]

/-- **What a miss costs.** Let all loads and stores be given to one processor. Whenever it has no
instruction pending, it has waited one cycle for every hit; for every miss, `memoryLatency` and
`burstLength` cycles and one more, with a latency of zero counted as one; for the first miss another
one; and one for every `INVALIDATE` it sent. Memory has counted as reads serviced one unit less than
a burst for every miss, and one more for the first; and the bus has been busy for one cycle more
than a burst for every miss, and one more for the first. -/
theorem misses_cost_their_latency (ps : Params) (hlen : 2 ≤ ps.burstLength)
    (hlen' : ps.burstLength < 2 ^ 32) (hlatency : ps.memoryLatency < 2 ^ 32) (events : List Event)
    (h : List TickRecord) (s : System) (hrun : System.run ps events = .ok (h, s)) (a : Nat)
    (hlone : ∀ i n, Event.insertInstruction i n ∈ events → Processor.isMemoryOp i = true →
      n + 1 = a) :
    ∀ p m, s.interconnect.nodeAt a = some (.processor p) →
      memoryAt s.interconnect (ps.numProcessors + 1) = some m →
      p.cacheController.pendingInstructionFlag = false →
      p.totalWaitCycles = p.cacheController.loadHits + p.cacheController.storeHits
          + (p.cacheController.loadMisses + p.cacheController.storeMisses)
            * (max ps.memoryLatency 1 + ps.burstLength + 1)
          + min (p.cacheController.loadMisses + p.cacheController.storeMisses) 1
          + timesSent (·.IsFrom a .invalidate) h
      ∧ m.memSendCounts = (p.cacheController.loadMisses + p.cacheController.storeMisses)
            * (ps.burstLength - 1)
          + min (p.cacheController.loadMisses + p.cacheController.storeMisses) 1
      ∧ s.interconnect.busyCycles = (p.cacheController.loadMisses + p.cacheController.storeMisses)
            * (ps.burstLength + 1)
          + min (p.cacheController.loadMisses + p.cacheController.storeMisses) 1 := by
  intro p m hp hm hidle
  have hok := (Run.of_system_run hrun).ok
  have hr := (hok.valid.controller (controllerAt_of_nodeAt hp)).range
  exact (System.run_lone hlen hlen' hlatency hr (assigns_of_lone hlone) hrun).paid hok hp hm hidle

/-- Two misses, and a hit between them. -/
def twoMisses : List Event :=
  [.insert .load 64 0, .insert .store 72 0, .insert .load 96 0] ++ List.replicate 40 .tick

theorem misses_cost_their_latency_two_misses : ∃ h s p m,
    System.run ⟨2, .mesi, 3, 2⟩ twoMisses = .ok (h, s)
      ∧ s.interconnect.nodeAt 1 = some (.processor p) ∧ memoryAt s.interconnect 3 = some m
      ∧ p.cacheController.loadMisses + p.cacheController.storeMisses = 2
      ∧ p.totalWaitCycles = 1 + 2 * (3 + 2 + 1) + 1 ∧ m.memSendCounts = 2 * (2 - 1) + 1
      ∧ s.interconnect.busyCycles = 2 * (2 + 1) + 1 := by
  obtain ⟨h, s, hrun, hp⟩ := System.exists_run ⟨2, .mesi, 3, 2⟩ twoMisses
    (fun h s => ((controllerAt s.interconnect 1).any fun c => !c.pendingInstructionFlag
      && c.loadHits + c.storeHits == 1 && c.loadMisses + c.storeMisses == 2)
      && timesSent (·.IsFrom 1 .invalidate) h == 0) (by decide +kernel)
  rw [Bool.and_eq_true, beq_iff_eq] at hp
  obtain ⟨hp, hnone⟩ := hp
  obtain ⟨c, hc, hcounts⟩ := (Option.any_eq_true _ _).mp hp
  simp only [Bool.and_eq_true, Bool.not_eq_true', beq_iff_eq] at hcounts
  obtain ⟨⟨hidle, hhits⟩, hmisses⟩ := hcounts
  obtain ⟨p, hp, rfl⟩ := nodeAt_of_controllerAt hc
  obtain ⟨m, hm, _⟩ := (Run.of_system_run hrun).ok.valid.memory
  have hm := memoryAt_of_nodeAt hm
  have hlone (i : Instruction) (n : Nat) (hmem : Event.insertInstruction i n ∈ twoMisses)
      (_ : Processor.isMemoryOp i = true) : n + 1 = 1 := by
    simp [twoMisses, Event.insert] at hmem
    omega
  have hcost := misses_cost_their_latency _ (by decide) (by decide) (by decide) _ h s hrun 1 hlone
    p m hp hm hidle
  rw [hhits, hmisses, hnone] at hcost
  exact ⟨h, s, p, m, hrun, hp, hm, hmisses, hcost⟩

end

end CoherenceSim
