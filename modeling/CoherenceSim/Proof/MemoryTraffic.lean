import CoherenceSim.Proof.MemoryBursts
import CoherenceSim.Proof.MemoryOrder
import CoherenceSim.Proof.Transfers
import Mathlib.Data.List.Perm.Basic

/-!
# What memory owes, and what it answers

Seen from the bus, memory is a debtor: a read puts it in debt to the node that sent it, an answer
pays the debt, and a line that a processor puts on the bus may settle one. Debts are counted for
each node and line; they do not depend on the order in which memory serves its reads.

The order is that of a memory on its own. `Projects` says that the memory of a system is one, and
that the calls made on it are the traffic of the bus.
-/

namespace CoherenceSim

open BusNode Interconnect

/-- A read of this line by this node. -/
def BusRequest.ReadBy (a adx : Nat) (r : BusRequest) : Prop :=
  (r.commandCode = .busRead ∨ r.commandCode = .busReadX) ∧ r.sourceAddress = a ∧ r.payload = adx

/-- The answer of memory to such a read. -/
def BusRequest.ReturnTo (a adx : Nat) (r : BusRequest) : Prop :=
  r.commandCode = .dataReturnMemory ∧ r.targetAddress = a ∧ r.payload = adx

/-- The line is on the bus, and not from memory. -/
def BusRequest.Settles (adx : Nat) (r : BusRequest) : Prop :=
  (r.commandCode = .busWrite ∨ r.commandCode = .dataReturnProcessor) ∧ r.payload = adx

instance (a adx : Nat) (r : BusRequest) : Decidable (r.ReadBy a adx) := by
  unfold BusRequest.ReadBy; infer_instance

instance (a adx : Nat) (r : BusRequest) : Decidable (r.ReturnTo a adx) := by
  unfold BusRequest.ReturnTo; infer_instance

instance (adx : Nat) (r : BusRequest) : Decidable (r.Settles adx) := by
  unfold BusRequest.Settles; infer_instance

variable {ps : Params} {h : List TickRecord} {s mid s' : System} {req : Option BusRequest}
  {a adx : Nat}

namespace Memory

variable {m m' : Memory}

/-- The reads of this line by this node that memory tracks. -/
def tracked (m : Memory) (a adx : Nat) : Nat :=
  m.memTracker.countP fun p => p.returnAddress = a ∧ p.address = adx

/-- The answers to them that are on their way to the bus. -/
def prepared (m : Memory) (a adx : Nat) : Nat :=
  (if m.bursting then m.burstRequest.toList.countP fun r => r.ReturnTo a adx else 0)
    + m.busReqQueue.countP fun r => r.ReturnTo a adx

/-- What memory owes to this node for this line. -/
def owed (m : Memory) (a adx : Nat) : Nat := m.tracked a adx + m.prepared a adx

theorem tracked_updateReadAges (m : Memory) : m.updateReadAges.tracked a adx = m.tracked a adx :=
  List.countP_map

/-- **A tick pays nothing and owes nothing new.** -/
theorem Ticked.owed (ht : Ticked m m') : m'.owed a adx = m.owed a adx := by
  cases ht with
  | age => exact congrArg (· + m.prepared a adx) m.tracked_updateReadAges
  | @start p hb hget =>
      obtain ⟨hlt, hp⟩ := List.getElem?_eq_some_iff.mp hget
      -- one read leaves the tracker, and its answer is in the burst
      have hcount := (List.getElem_cons_eraseIdx_perm hlt).countP_eq
        fun p : MemoryOperation => p.returnAddress = a ∧ p.address = adx
      rw [hp, List.countP_cons] at hcount
      have hsame : List.countP (fun p : MemoryOperation => p.returnAddress = a ∧ p.address = adx)
          m.updateReadAges.memTracker = m.tracked a adx := m.tracked_updateReadAges
      have hanswer : ([m.answerTo p].countP fun r => r.ReturnTo a adx)
          = if p.returnAddress = a ∧ p.address = adx then 1 else 0 := by
        rw [List.countP_singleton]
        simp [BusRequest.ReturnTo, answerTo]
      show List.countP _ _ + (([m.answerTo p].countP fun r => r.ReturnTo a adx) + _) = _
      rw [Memory.owed, Memory.prepared, hb, hanswer]
      simp only [Bool.false_eq_true, if_false, decide_eq_true_eq] at hcount ⊢
      have hqueue : m.updateReadAges.busReqQueue = m.busReqQueue := rfl
      rw [hqueue]
      omega
  | @finish r hb hr =>
      rw [Memory.owed, Memory.owed, Memory.prepared, Memory.prepared, hb, hr]
      simp only [Bool.false_eq_true, if_false, if_true, List.countP_append, Option.toList_some,
        Memory.tracked]
      omega
  | nullBurst hb hr =>
      rw [Memory.owed, Memory.owed, Memory.prepared, Memory.prepared, hb, hr]
      simp [List.countP_append, BusRequest.ReturnTo, Memory.tracked]
  | hold => rfl

variable (a adx) in
/-- A command settles one debt at most, and only if it carries the line. -/
theorem tracked_cancelRead (payload : Nat) (m : Memory) :
    (cancelRead payload m.memTracker).countP (fun p => p.returnAddress = a ∧ p.address = adx)
        ≤ m.tracked a adx
      ∧ m.tracked a adx ≤ (cancelRead payload m.memTracker).countP
          (fun p => p.returnAddress = a ∧ p.address = adx) + if payload = adx then 1 else 0 := by
  rw [Memory.tracked]
  induction m.memTracker with
  | nil => exact ⟨Nat.le_refl _, Nat.zero_le _⟩
  | cons p l ih =>
      rw [cancelRead]
      by_cases hp : p.address = payload
      · rw [if_pos hp, List.countP_cons, hp]
        simp only [decide_eq_true_eq]
        by_cases hadx : payload = adx
        · simp only [if_pos hadx]
          constructor
          · omega
          · split <;> omega
        · simp [hadx]
      · rw [if_neg hp, List.countP_cons, List.countP_cons]
        omega

end Memory

/-! ## Debts -/

/-- What memory owes, has paid, and may have been released from. -/
structure Balanced (a adx : Nat) (h : List TickRecord) (m : Memory) : Prop where
  paid : m.owed a adx + timesSent (·.ReturnTo a adx) h ≤ timesSent (·.ReadBy a adx) h
  released : timesSent (·.ReadBy a adx) h
    ≤ m.owed a adx + timesSent (·.ReturnTo a adx) h + timesSent (·.Settles adx) h

/-- **Preserved by every cycle.** -/
theorem MemoryCycle.balanced {x : TickRecord} {m m₁ m₂ : Memory} (hc : MemoryCycle ps x m m₁ m₂)
    (hb : Balanced a adx h m) : Balanced a adx (x :: h) m₂ := by
  obtain ⟨hpaid, hreleased⟩ := hb
  rw [← hc.ticked.owed] at hpaid hreleased
  have hinv := hc.ticked.inv hc.inv
  obtain ⟨before, req, after⟩ := x
  have hpassed : Memory.Passed ps m₁ req m₂ := hc.passed
  -- a tick without any of the three
  have still (howed : m₂.owed a adx = m₁.owed a adx)
      (hno : ∀ r, req = some r → ¬ r.ReturnTo a adx ∧ ¬ r.ReadBy a adx) :
      Balanced a adx (⟨before, req, after⟩ :: h) m₂ := by
    have hzero : (req.any fun r => r.ReturnTo a adx) = false
        ∧ (req.any fun r => r.ReadBy a adx) = false := by
      cases req with
      | none => exact ⟨rfl, rfl⟩
      | some r => exact ⟨decide_eq_false (hno r rfl).1, decide_eq_false (hno r rfl).2⟩
    constructor
    · rw [timesSent_cons, timesSent_cons, hzero.1, hzero.2, howed]
      exact hpaid
    · rw [timesSent_cons, timesSent_cons, timesSent_cons, hzero.1, hzero.2, howed]
      simp only [Bool.toNat_false]
      omega
  cases hpassed with
  | polled => exact still rfl fun r h0 => by cases h0
  | idle => exact still rfl fun r h0 => by cases h0
  | @sent r rest hsrc _ hq =>
      have hcode : r.commandCode = .dataReturnMemory ∨ r.commandCode = .nullBurst := by
        rcases hinv.queue r (by rw [hq]; exact List.mem_cons_self) with h0 | h0
        · exact Or.inl h0.code
        · exact Or.inr h0.code
      have hnotRead : ¬ r.ReadBy a adx := by
        rintro ⟨h0, _⟩
        rcases hcode with h1 | h1 <;> rw [h1] at h0 <;> simp at h0
      have howed : Memory.owed { m₁ with
          nodeIsLocked := m₁.bursting
          busReqQueue := rest
          memSendCounts := m₁.memSendCounts + 1 } a adx
            + (if r.ReturnTo a adx then 1 else 0) = m₁.owed a adx := by
        simp only [Memory.owed, Memory.prepared, Memory.tracked, hq, List.countP_cons,
          decide_eq_true_eq]
        omega
      constructor
      · rw [timesSent_cons, timesSent_cons]
        simp only [Option.any_some, hnotRead, decide_false, Bool.toNat_false]
        by_cases hreturn : r.ReturnTo a adx
        · rw [if_pos hreturn] at howed
          simp only [hreturn, decide_true, Bool.toNat_true]
          omega
        · rw [if_neg hreturn] at howed
          simp only [hreturn, decide_false, Bool.toNat_false]
          omega
      · rw [timesSent_cons, timesSent_cons, timesSent_cons]
        simp only [Option.any_some, hnotRead, decide_false, Bool.toNat_false]
        by_cases hreturn : r.ReturnTo a adx
        · rw [if_pos hreturn] at howed
          simp only [hreturn, decide_true, Bool.toNat_true]
          omega
        · rw [if_neg hreturn] at howed
          simp only [hreturn, decide_false, Bool.toNat_false]
          omega
  | @heard r _ _ hcode _ =>
      have hnotReturn : ¬ r.ReturnTo a adx := fun h0 => hcode h0.1
      by_cases hread : r.commandCode = .busRead ∨ r.commandCode = .busReadX
      · -- a new debt, perhaps to this node
        have howed : (m₁.acceptBusTransaction r).owed a adx
            = m₁.owed a adx + if r.ReadBy a adx then 1 else 0 := by
          rw [Memory.acceptBusTransaction_of_read hread]
          simp only [Memory.owed, Memory.prepared, Memory.tracked, List.countP_append,
            List.countP_singleton, decide_eq_true_eq, BusRequest.ReadBy, hread, true_and]
          omega
        constructor
        · rw [timesSent_cons, timesSent_cons, howed]
          simp only [Option.any_some, hnotReturn, decide_false, Bool.toNat_false]
          by_cases hby : r.ReadBy a adx
          · simp only [hby, if_true, decide_true, Bool.toNat_true]
            omega
          · simp only [hby, if_false, decide_false, Bool.toNat_false]
            omega
        · rw [timesSent_cons, timesSent_cons, timesSent_cons, howed]
          simp only [Option.any_some, hnotReturn, decide_false, Bool.toNat_false]
          by_cases hby : r.ReadBy a adx
          · simp only [hby, if_true, decide_true, Bool.toNat_true]
            omega
          · simp only [hby, if_false, decide_false, Bool.toNat_false]
            omega
      · have hnotRead : ¬ r.ReadBy a adx := fun h0 => hread h0.1
        by_cases hcancel : r.commandCode = .busWrite ∨ r.commandCode = .dataReturnProcessor
        · -- a line on the bus: a debt may be settled
          obtain ⟨hle, hge⟩ := m₁.tracked_cancelRead a adx r.payload
          have howed : (m₁.acceptBusTransaction r).owed a adx
              = (Memory.cancelRead r.payload m₁.memTracker).countP
                  (fun p => p.returnAddress = a ∧ p.address = adx) + m₁.prepared a adx := by
            rw [Memory.acceptBusTransaction_of_cancel hcancel]
            rfl
          rw [Memory.owed] at hpaid hreleased
          have hsettles : (r.Settles adx) ↔ r.payload = adx :=
            ⟨And.right, fun h0 => ⟨hcancel, h0⟩⟩
          constructor
          · rw [timesSent_cons, timesSent_cons, howed]
            simp only [Option.any_some, hnotReturn, hnotRead, decide_false, Bool.toNat_false]
            omega
          · rw [timesSent_cons, timesSent_cons, timesSent_cons, howed]
            simp only [Option.any_some, hnotReturn, hnotRead, decide_false, Bool.toNat_false]
            by_cases hadx : r.payload = adx
            · rw [if_pos hadx] at hge
              simp only [hsettles.mpr hadx, decide_true, Bool.toNat_true]
              omega
            · rw [if_neg hadx] at hge
              omega
        · refine still ?_ fun r' h0 => by cases h0; exact ⟨hnotReturn, hnotRead⟩
          rw [Memory.acceptBusTransaction_of_neither hread hcancel]

/-- **Memory answers no read twice, and loses none.** For every node and line, the answers on the
bus and those that memory still owes are no more than the reads; and the reads that are neither
answered nor owed are no more than the times that a processor, the reader itself among them, had the
line on the bus. -/
theorem memory_answers_once (ps : Params) (h : List TickRecord) (s : System) (hrun : Run ps h s)
    (a adx : Nat) : ∃ m, memoryAt s.interconnect (ps.numProcessors + 1) = some m
      ∧ m.owed a adx + timesSent (·.ReturnTo a adx) h ≤ timesSent (·.ReadBy a adx) h
      ∧ timesSent (·.ReadBy a adx) h ≤ m.owed a adx + timesSent (·.ReturnTo a adx) h
        + timesSent (·.Settles adx) h := by
  obtain ⟨m, hm, _⟩ := hrun.ok.valid.memory
  have hm := memoryAt_of_nodeAt hm
  have hb : Balanced a adx h m := by
    refine ((Run.memory_induct (P := Balanced a adx) ?_ ?_ hrun) m hm).2
    · exact ⟨Nat.le_refl _, Nat.zero_le _⟩
    · exact fun x h m m₁ m₂ hc hb => hc.balanced hb
  exact ⟨m, hm, hb.paid, hb.released⟩

/-- Two stores to one line: the first read of it has its answer. -/
theorem memory_answers_once_two_stores : ∃ h s, Run ⟨2, .msi, 1, 2⟩ h s
    ∧ 0 < timesSent (·.ReturnTo 2 64) h
    ∧ timesSent (·.ReturnTo 2 64) h ≤ timesSent (·.ReadBy 2 64) h := by
  obtain ⟨h, s, hrun, hsent⟩ := Run.of_run ⟨2, .msi, 1, 2⟩
    ([.insert .store 64 0, .insert .store 64 1] ++ List.replicate 9 .tick)
    (fun h _ => 0 < timesSent (·.ReturnTo 2 64) h) (by decide +kernel)
  obtain ⟨m, _, hpaid, _⟩ := memory_answers_once ⟨2, .msi, 1, 2⟩ h s hrun 2 64
  exact ⟨h, s, hrun, of_decide_eq_true hsent, by omega⟩

/-! ## The order of the answers -/

/-- The requests of this kind that were on the bus, each with the number of its cycle. -/
def onBus (p : BusRequest → Bool) : List TickRecord → List (BusRequest × Nat)
  | [] => []
  | x :: older => onBus p older ++ (x.sent.toList.filter p).map fun r => (r, older.length + 1)

def BusRequest.isRead (r : BusRequest) : Bool :=
  r.commandCode = .busRead ∨ r.commandCode = .busReadX

def BusRequest.isAnswer (r : BusRequest) : Bool := r.commandCode = .dataReturnMemory

namespace Memory

/-- `Ticked` says all that there is to a tick. -/
theorem Ticked.tick_eq {m m' : Memory} (ht : Ticked m m')
    (hburst : m.bursting = true → m.burstRequest.isSome) : m.tick = .ok m' := by
  cases ht with
  | age hb hyoung =>
      rw [tick, hb, if_neg (by simp), queueDataReturns]
      by_cases hpos : 0 < m.updateReadAges.memTracker.length
      · obtain ⟨p, hget⟩ : ∃ p, m.updateReadAges.memTracker[m.updateReadAges.getOldestOp]? = some p :=
          ⟨_, List.getElem?_eq_getElem (getOldestOp_lt hpos)⟩
        have hage : ¬ p.age ≥ m.updateReadAges.readLatency := Nat.not_le.mpr (hyoung p hget)
        simp only [if_pos hpos, hget, if_neg hage]
        rfl
      · rw [if_neg hpos]
        rfl
  | @start p hb hget hage =>
      have hpos : 0 < m.updateReadAges.memTracker.length :=
        Nat.lt_of_le_of_lt (Nat.zero_le _) (List.getElem?_eq_some_iff.mp hget).1
      have hage : p.age ≥ m.updateReadAges.readLatency := hage
      rw [tick, hb, if_neg (by simp), queueDataReturns]
      simp only [if_pos hpos, hget, if_pos hage]
      rfl
  | finish hb hr hlast =>
      cases hl : m.nodeIsLocked <;> simp [tick, hb, hr, hlast, hasLock, hl]
  | nullBurst hb hr hlast hl =>
      simp [tick, hb, hr, hlast, hasLock, hl]
  | hold hb hlast hl =>
      obtain ⟨r, hr⟩ := Option.isSome_iff_exists.mp (hburst hb)
      simp [tick, hb, hr, hlast, hasLock, hl]

/-- **One more call** leaves the reads that were served, and their order. -/
theorem Calls.served_cons {latency burstLength address : Nat} {older : List CallRecord}
    (hcalls : Calls latency burstLength address older m) (x : CallRecord) :
    ∃ l, Ledger.served Fate.isReturned (ledgerOf (x :: older))
      = Ledger.served Fate.isReturned (ledgerOf older) ++ l := by
  have same (h0 : ledgerOf (x :: older) = ledgerOf older) :
      ∃ l, Ledger.served Fate.isReturned (ledgerOf (x :: older))
        = Ledger.served Fate.isReturned (ledgerOf older) ++ l :=
    ⟨[], by rw [h0, List.append_nil]⟩
  have hkept := hcalls.tracking.serves.kept
  cases hx : x.call with
  | acceptBusTransaction d =>
      by_cases hread : d.commandCode = .busRead ∨ d.commandCode = .busReadX
      · refine ⟨[], ?_⟩
        rw [ledgerOf, hx]
        simp only [if_pos hread]
        rw [Ledger.served_add, List.append_nil]
      · by_cases hcancel : d.commandCode = .dataReturnProcessor ∨ d.commandCode = .busWrite
        · refine ⟨[], ?_⟩
          rw [ledgerOf, hx]
          simp only [if_neg hread, if_pos hcancel]
          rw [Ledger.served_settle_of_not rfl, List.append_nil]
        · exact same (by rw [ledgerOf, hx]; simp only [if_neg hread, if_neg hcancel])
  | tick =>
      by_cases hbegins : x.before.bursting = false ∧ x.after.bursting = true
      · rw [ledgerOf, hx]
        simp only [if_pos hbegins]
        exact hkept.served_settle_first rfl
      · exact same (by rw [ledgerOf, hx]; simp only [if_neg hbegins])
  | initiateBusTransaction => exact same (by rw [ledgerOf, hx])
  | grantLock => exact same (by rw [ledgerOf, hx])
  | releaseLock => exact same (by rw [ledgerOf, hx])

theorem Calls.served_append {latency burstLength address : Nat} {newer older : List CallRecord}
    {m' : Memory}
    (hcalls' : Calls latency burstLength address (newer ++ older) m') :
    ∃ l, Ledger.served Fate.isReturned (ledgerOf (newer ++ older))
      = Ledger.served Fate.isReturned (ledgerOf older) ++ l := by
  induction newer generalizing m' with
  | nil => exact ⟨[], (List.append_nil _).symm⟩
  | cons x newer ih =>
      cases hcalls' with
      | call call hbefore _ _ =>
          obtain ⟨l, hl⟩ := ih hbefore
          obtain ⟨l', hl'⟩ := Calls.served_cons hbefore ⟨_, call, _, m'⟩
          exact ⟨l ++ l', hl'.trans (by rw [← List.append_assoc, ← hl]; rfl)⟩

end Memory

/-- These are calls on a memory of its own, and the traffic of the bus is what they say. -/
structure Projects (ps : Params) (h : List TickRecord) (m : Memory) (l : List Memory.CallRecord) :
    Prop where
  calls : Memory.Calls ps.memoryLatency ps.burstLength (ps.numProcessors + 1) l m
  ticks : Memory.ticksOf l = h.length
  reads : (Memory.readsOf l).map (fun read => (read.request, read.tick)) = onBus (·.isRead) h
  answers : Memory.answers (Memory.sentBy l) = (onBus (·.isAnswer) h).map Prod.fst

/-- What a cycle without such a request adds. -/
theorem onBus_of_not {p : BusRequest → Bool} {x : TickRecord}
    (hno : ∀ r, x.sent = some r → p r = false) : onBus p (x :: h) = onBus p h := by
  rw [onBus]
  cases hx : x.sent with
  | none => exact List.append_nil _
  | some r => simp [hno r hx]

theorem onBus_of {p : BusRequest → Bool} {x : TickRecord} {r : BusRequest} (hx : x.sent = some r)
    (hr : p r = true) : onBus p (x :: h) = onBus p h ++ [(r, h.length + 1)] := by
  rw [onBus, hx]
  simp [hr]

theorem Memory.age_le_of_tracks {ticks : Nat} {l : List MemoryOperation} {reads : List Memory.Read}
    (ht : List.Forall₂ (Memory.Tracks ticks) l reads) : ∀ p ∈ l, p.age ≤ ticks := by
  induction ht with
  | nil => exact fun p hp => by cases hp
  | cons hp _ ih =>
      intro q hq
      rcases List.mem_cons.mp hq with rfl | hq
      · exact Nat.le_trans (Nat.le_add_right _ _) hp.age
      · exact ih q hq

/-- The request that memory is asked for is the first in its queue. -/
theorem Memory.Calls.send {latency burstLength address : Nat} {l : List Memory.CallRecord}
    {m : Memory} {r : BusRequest} {rest : List BusRequest}
    (hcalls : Memory.Calls latency burstLength address l m) (hq : m.busReqQueue = r :: rest) :
    Memory.Calls latency burstLength address (⟨m, .initiateBusTransaction, some r,
        { m with busReqQueue := rest, memSendCounts := m.memSendCounts + 1 }⟩ :: l)
      { m with busReqQueue := rest, memSendCounts := m.memSendCounts + 1 } := by
  refine .call .initiateBusTransaction hcalls ?_ ?_
  · simp [Memory.Call.Allowed, Memory.requestsTransaction, hq]
  · rw [Memory.perform, Memory.initiateBusTransaction, hq]
    rfl

/-- The bus grants the lock to a memory that bursts, and else takes it away. -/
theorem Memory.Calls.relock {latency burstLength address : Nat} {l : List Memory.CallRecord}
    {m : Memory} (hcalls : Memory.Calls latency burstLength address l m) :
    ∃ call, (call = .grantLock ∨ call = .releaseLock) ∧
      Memory.Calls latency burstLength address
        (⟨m, call, none, { m with nodeIsLocked := m.bursting }⟩ :: l)
        { m with nodeIsLocked := m.bursting } := by
  by_cases hb : m.bursting = true
  · have hgrant : { m with nodeIsLocked := m.bursting } = m.grantLock := by
      simp [Memory.grantLock, hb]
    rw [hgrant]
    exact ⟨.grantLock, Or.inl rfl, .call .grantLock hcalls trivial rfl⟩
  · have hrelease : { m with nodeIsLocked := m.bursting } = m.releaseLock := by
      simp [Memory.releaseLock, hb]
    rw [hrelease]
    exact ⟨.releaseLock, Or.inr rfl, .call .releaseLock hcalls trivial rfl⟩

/-- **A cycle of the system** is a tick of memory, and the calls that the bus makes. -/
theorem MemoryCycle.projects {x : TickRecord} {m m₁ m₂ : Memory} {l : List Memory.CallRecord}
    (hc : MemoryCycle ps x m m₁ m₂) (hp : Projects ps h m l) (hlen : h.length + 1 < 2 ^ 32) :
    ∃ newer, Projects ps (x :: h) m₂ (newer ++ l) := by
  have hages : ∀ p ∈ m.memTracker, p.age + 1 < 2 ^ 32 := by
    intro p hmem
    have hage := Memory.age_le_of_tracks hp.calls.tracking.serves.tracked p hmem
    rw [hp.ticks] at hage
    omega
  have hburst : m.bursting = true → m.burstRequest.isSome := fun hb => by
    obtain ⟨r, hr, _⟩ := hc.inv.burst hb
    rw [hr]
    rfl
  have hinv := hc.ticked.inv hc.inv
  have hticked : Memory.Calls ps.memoryLatency ps.burstLength (ps.numProcessors + 1)
      (⟨m, .tick, none, m₁⟩ :: l) m₁ :=
    .call .tick hp.calls hages (by rw [Memory.perform, hc.ticked.tick_eq hburst]; rfl)
  have hsentBy {call : Memory.Call} {m m' : Memory} {l : List Memory.CallRecord} :
      Memory.sentBy (⟨m, call, none, m'⟩ :: l) = Memory.sentBy l := List.append_nil _
  obtain ⟨before, req, after⟩ := x
  have hpassed : Memory.Passed ps m₁ req m₂ := hc.passed
  cases hpassed with
  | @polled _ =>
      obtain ⟨call, hcall, hrelocked⟩ := hticked.relock
      refine ⟨[_, _], hrelocked, ?_, ?_, ?_⟩
      · rcases hcall with rfl | rfl <;> exact congrArg (· + 1) hp.ticks
      · rw [onBus_of_not fun r h0 => by cases h0]
        rcases hcall with rfl | rfl <;> exact hp.reads
      · rw [onBus_of_not fun r h0 => by cases h0]
        rw [List.cons_append, hsentBy, List.cons_append, hsentBy]
        exact hp.answers
  | idle _ =>
      refine ⟨[_], hticked, congrArg (· + 1) hp.ticks, ?_, ?_⟩
      · rw [onBus_of_not fun r h0 => by cases h0]
        exact hp.reads
      · rw [onBus_of_not fun r h0 => by cases h0]
        rw [List.cons_append, hsentBy]
        exact hp.answers
  | @sent r rest hsrc _ hq =>
      obtain ⟨call, hcall, hrelocked⟩ := hticked.relock
      have hsends := hrelocked.send hq
      have hnotRead : r.isRead = false := by
        rcases hinv.queue r (by rw [hq]; exact List.mem_cons_self) with h0 | h0
        · simp [BusRequest.isRead, h0.code]
        · simp [BusRequest.isRead, h0.code]
      refine ⟨[_, _, _], hsends, ?_, ?_, ?_⟩
      · rcases hcall with rfl | rfl <;> exact congrArg (· + 1) hp.ticks
      · rw [onBus_of_not fun r' h0 => by cases h0; exact hnotRead]
        rcases hcall with rfl | rfl <;> exact hp.reads
      · rw [List.cons_append, Memory.sentBy, List.cons_append, hsentBy, List.cons_append, hsentBy,
          List.nil_append, Memory.answers_append, hp.answers]
        by_cases hanswer : r.isAnswer = true
        · rw [onBus_of rfl hanswer, List.map_append]
          simp only [BusRequest.isAnswer, decide_eq_true_eq] at hanswer
          simp [Memory.answers, hanswer]
        · have hanswer : r.isAnswer = false := by simpa using hanswer
          rw [onBus_of_not fun r' h0 => by cases h0; exact hanswer]
          simp only [BusRequest.isAnswer, decide_eq_false_iff_not] at hanswer
          simp [Memory.answers, hanswer]
  | @heard r _ _ hcode _ =>
      have hheard : Memory.Calls ps.memoryLatency ps.burstLength (ps.numProcessors + 1)
          (⟨m₁, .acceptBusTransaction r, none, m₁.acceptBusTransaction r⟩
            :: ⟨m, .tick, none, m₁⟩ :: l) (m₁.acceptBusTransaction r) :=
        .call (.acceptBusTransaction r) hticked trivial rfl
      refine ⟨[_, _], hheard, congrArg (· + 1) hp.ticks, ?_, ?_⟩
      · rw [List.cons_append, Memory.readsOf]
        by_cases hread : r.isRead = true
        · rw [onBus_of rfl hread]
          simp only [BusRequest.isRead, decide_eq_true_eq] at hread
          have hticks : Memory.ticksOf (⟨m, .tick, none, m₁⟩ :: l) = h.length + 1 :=
            congrArg (· + 1) hp.ticks
          have hreads : Memory.readsOf (⟨m, .tick, none, m₁⟩ :: l) = Memory.readsOf l := rfl
          simp only [if_pos hread, List.cons_append, List.nil_append]
          rw [List.map_append, hreads, hp.reads, hticks]
          rfl
        · have hread : r.isRead = false := by simpa using hread
          rw [onBus_of_not fun r' h0 => by cases h0; exact hread]
          simp only [BusRequest.isRead, decide_eq_false_iff_not] at hread
          simp only [if_neg hread]
          exact hp.reads
      · rw [onBus_of_not fun r' h0 => by cases h0; simpa [BusRequest.isAnswer] using hcode]
        rw [List.cons_append, hsentBy, List.cons_append, hsentBy]
        exact hp.answers

/-- An answer on the bus, and the read that it is for. -/
structure AnsweredBy (ps : Params) (read answer : BusRequest × Nat) : Prop where
  target : answer.1.targetAddress = read.1.sourceAddress
  payload : answer.1.payload = read.1.payload
  late : read.2 + ps.memoryLatency ≤ answer.2

theorem Memory.ticksOf_append_le (newer older : List Memory.CallRecord) :
    Memory.ticksOf older ≤ Memory.ticksOf (newer ++ older) := by
  induction newer with
  | nil => exact Nat.le_refl _
  | cons x newer ih => exact Nat.le_trans ih (Memory.ticksOf_le x (newer ++ older))

/-- Nothing is served before its time. -/
theorem Projects.late {m : Memory} {l : List Memory.CallRecord} (hp : Projects ps h m l)
    {read : Memory.Read}
    (hread : read ∈ Ledger.served Memory.Fate.isReturned (Memory.ledgerOf l)) :
    read.tick + ps.memoryLatency ≤ h.length := by
  obtain ⟨e, he, rfl, f, hf, hreturned⟩ := Ledger.mem_served hread
  cases hp.calls.tracking.serves.met e he f hf with
  | removed => cases hreturned
  | @returned newer older x hl _ hx hlate =>
      have hle := Memory.ticksOf_append_le newer (x :: older)
      have hticks : Memory.ticksOf (x :: older) = Memory.ticksOf older + 1 := by
        rw [Memory.ticksOf, hx]
      rw [← hl, hp.ticks, hticks] at hle
      exact Nat.le_trans hlate hle

/-- The reads that were answered on the bus are the first of those that memory has served. -/
structure Matched (ps : Params) (h : List TickRecord) (m : Memory) (l : List Memory.CallRecord)
    (done rest : List Memory.Read) : Prop where
  projects : Projects ps h m l
  served : Ledger.served Memory.Fate.isReturned (Memory.ledgerOf l) = done ++ rest
  answered : List.Forall₂ (AnsweredBy ps) (done.map fun read => (read.request, read.tick))
    (onBus (·.isAnswer) h)

/-- **Preserved by every cycle.** -/
theorem Matched.cycle {x : TickRecord} {m m₁ m₂ : Memory} {l : List Memory.CallRecord}
    {done rest : List Memory.Read} (hm : Matched ps h m l done rest) (hc : MemoryCycle ps x m m₁ m₂)
    (hlen : h.length + 1 < 2 ^ 32) : ∃ l done rest, Matched ps (x :: h) m₂ l done rest := by
  obtain ⟨newer, hp⟩ := hc.projects hm.projects hlen
  obtain ⟨more, hmore⟩ := Memory.Calls.served_append hp.calls
  rw [hm.served, List.append_assoc] at hmore
  by_cases hanswer : ∃ r, x.sent = some r ∧ r.isAnswer = true
  · obtain ⟨r, hx, hr⟩ := hanswer
    -- the answers were sent in the order in which the reads were served
    have hreturned := hp.calls.tracking.serves.returned
    rw [hp.answers, onBus_of hx hr, List.map_append, hmore, List.map_append, List.append_assoc,
      List.append_assoc] at hreturned
    have hcount : (done.map (Memory.Read.answer (ps.numProcessors + 1))).length
        = ((onBus (·.isAnswer) h).map Prod.fst).length := by
      have hlength := hm.answered.length_eq
      rw [List.length_map] at hlength
      rw [List.length_map, List.length_map, hlength]
    have hnext := (List.append_inj hreturned hcount).2
    cases hrest : rest ++ more with
    | nil =>
        rw [hrest] at hnext
        cases hnext
    | cons read rest' =>
        rw [hrest] at hnext hmore
        have hread : read.answer (ps.numProcessors + 1) = r := (List.cons.inj hnext).1
        have hlate := hp.late (show read ∈ _ by rw [hmore]; simp)
        refine ⟨newer ++ l, done ++ [read], rest', hp, by rw [hmore]; simp, ?_⟩
        rw [onBus_of hx hr, List.map_append]
        refine List.rel_append hm.answered (.cons ⟨?_, ?_, hlate⟩ .nil)
        · rw [← hread]
          rfl
        · rw [← hread]
          rfl
  · refine ⟨newer ++ l, done, rest ++ more, hp, hmore, ?_⟩
    rw [onBus_of_not fun r hx => by simpa using fun hr => hanswer ⟨r, hx, hr⟩]
    exact hm.answered

/-- **Memory answers first come, first served.** In a run of fewer than `2 ^ 32` cycles, the answers
on the bus are, in their order, answers to some of the reads on the bus, in theirs; and none comes
before its latency is over. -/
theorem memory_answers_in_order (ps : Params) (h : List TickRecord) (s : System) (hrun : Run ps h s)
    (hlen : h.length < 2 ^ 32) : ∃ reads : List (BusRequest × Nat),
      reads.Sublist (onBus (·.isRead) h)
        ∧ List.Forall₂ (AnsweredBy ps) reads (onBus (·.isAnswer) h) := by
  obtain ⟨m, hm, _⟩ := hrun.ok.valid.memory
  have hmatched : h.length < 2 ^ 32 → ∃ l done rest, Matched ps h m l done rest := by
    refine ((Run.memory_induct (P := fun h m => h.length < 2 ^ 32 →
      ∃ l done rest, Matched ps h m l done rest) ?_ ?_ hrun) m (memoryAt_of_nodeAt hm)).2
    · exact fun _ => ⟨[], [], [], ⟨.new, rfl, rfl, rfl⟩, rfl, .nil⟩
    · intro x h m m₁ m₂ hc ih hlen
      have hlen : h.length + 1 < 2 ^ 32 := hlen
      obtain ⟨l, done, rest, hm⟩ := ih (by omega)
      exact hm.cycle hc hlen
  obtain ⟨l, done, rest, hm⟩ := hmatched hlen
  refine ⟨_, ?_, hm.answered⟩
  rw [← hm.projects.reads, ← hm.projects.calls.tracking.serves.entries]
  have hsub : (done ++ rest).Sublist ((Memory.ledgerOf l).map Ledger.Entry.item) := by
    rw [← hm.served]
    exact Ledger.served_sublist
  exact ((List.sublist_append_left done rest).trans hsub).map _

/-- Two stores to one line: both reads have their answers, the second in spite of a write. -/
theorem memory_answers_in_order_two_stores : ∃ h s, Run ⟨2, .msi, 1, 2⟩ h s
    ∧ (onBus (·.isAnswer) h).map Prod.snd = [5, 13]
    ∧ ∃ reads : List (BusRequest × Nat), reads.Sublist (onBus (·.isRead) h)
      ∧ List.Forall₂ (AnsweredBy ⟨2, .msi, 1, 2⟩) reads (onBus (·.isAnswer) h) := by
  obtain ⟨h, s, hrun, hsent⟩ := Run.of_run ⟨2, .msi, 1, 2⟩
    ([.insert .store 64 0, .insert .store 64 1] ++ List.replicate 13 .tick)
    (fun h _ => (onBus (·.isAnswer) h).map Prod.snd = [5, 13] ∧ h.length = 13) (by decide +kernel)
  obtain ⟨hanswers, hlength⟩ := of_decide_eq_true hsent
  exact ⟨h, s, hrun, hanswers,
    memory_answers_in_order ⟨2, .msi, 1, 2⟩ h s hrun (by rw [hlength]; decide)⟩

end CoherenceSim
