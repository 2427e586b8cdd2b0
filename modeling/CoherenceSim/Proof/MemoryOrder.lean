import Mathlib.Data.List.Forall2
import CoherenceSim.Lib.Ledger
import CoherenceSim.Proof.MemoryTick

/-!
# Memory serves its reads in order

What memory is for, apart from bursts and locks: a queue of reads from which commands of others
may take one out, and which otherwise returns them first in, first out. `ledgerOf` is that
queue. It looks at the calls that were made, and at memory only to learn that a burst has
begun; which read it is for, memory has to find out by itself.
-/

namespace CoherenceSim

open Ledger

namespace Memory

/-- A call on a memory. -/
inductive Call
  | acceptBusTransaction (d : BusRequest)
  | tick
  | initiateBusTransaction
  | grantLock
  | releaseLock
  deriving Repr, DecidableEq

/-- Make a call. The request that memory puts on the bus is returned as well. -/
def perform (m : Memory) : Call → Outcome (Option BusRequest × Memory)
  | .acceptBusTransaction d => pure (none, m.acceptBusTransaction d)
  | .tick => do pure (none, ← m.tick)
  | .initiateBusTransaction => do
      let (r, m) ← m.initiateBusTransaction
      pure (some r, m)
  | .grantLock => pure (none, m.grantLock)
  | .releaseLock => pure (none, m.releaseLock)

/-- Memory is only asked for a request that it has, and no age wraps around. -/
def Call.Allowed (m : Memory) : Call → Prop
  | .initiateBusTransaction => m.requestsTransaction = true
  | .tick => ∀ p ∈ m.memTracker, p.age + 1 < 2 ^ 32
  | _ => True

instance (m : Memory) (call : Call) : Decidable (call.Allowed m) := by
  unfold Call.Allowed; split <;> infer_instance

/-- A call, and the memory around it. -/
structure CallRecord where
  before : Memory
  call : Call
  sent : Option BusRequest
  after : Memory

/-- A new memory and a sequence of calls on it, the latest first. -/
inductive Calls (latency burstLength address : Nat) : List CallRecord → Memory → Prop
  | new : Calls latency burstLength address []
      ((Memory.new latency burstLength).setAddress address)
  | call {h : List CallRecord} {m m' : Memory} {sent : Option BusRequest} (call : Call) :
      Calls latency burstLength address h m → call.Allowed m → m.perform call = .ok (sent, m') →
      Calls latency burstLength address (⟨m, call, sent, m'⟩ :: h) m'

/-- A read that was accepted: the calls and the ticks that came before it. -/
structure Read where
  request : BusRequest
  call : Nat
  tick : Nat
  deriving Repr, DecidableEq

/-- What becomes of a read: some call removes it, or some tick makes an answer of it. -/
inductive Fate
  | removed (call : Nat)
  | returned (call tick : Nat)
  deriving Repr, DecidableEq

def Fate.call : Fate → Nat
  | .removed call => call
  | .returned call _ => call

def Fate.isReturned : Fate → Bool
  | .removed _ => false
  | .returned _ _ => true

/-- The ticks among these calls. -/
def ticksOf : List CallRecord → Nat
  | [] => 0
  | x :: older => match x.call with
      | .tick => ticksOf older + 1
      | _ => ticksOf older

/-- The reads that these calls brought, in order. -/
def readsOf : List CallRecord → List Read
  | [] => []
  | x :: older => match x.call with
      | .acceptBusTransaction d =>
          if d.commandCode = .busRead ∨ d.commandCode = .busReadX then
            readsOf older ++ [⟨d, older.length, ticksOf older⟩]
          else readsOf older
      | _ => readsOf older

/-- What memory has put on the bus, in order. -/
def sentBy : List CallRecord → List BusRequest
  | [] => []
  | x :: older => sentBy older ++ x.sent.toList

/-- **What memory should do**: whoever puts a line on the bus settles the first read of that line,
and a burst that begins answers the first read of all. -/
def ledgerOf : List CallRecord → List (Entry Read Fate)
  | [] => []
  | x :: older => match x.call with
      | .acceptBusTransaction d =>
          if d.commandCode = .busRead ∨ d.commandCode = .busReadX then
            add ⟨d, older.length, ticksOf older⟩ (ledgerOf older)
          else if d.commandCode = .dataReturnProcessor ∨ d.commandCode = .busWrite then
            settle (fun read => read.request.payload = d.payload) (.removed older.length)
              (ledgerOf older)
          else ledgerOf older
      | .tick =>
          if x.before.bursting = false ∧ x.after.bursting = true then
            settle (fun _ => true) (.returned older.length (ticksOf older + 1)) (ledgerOf older)
          else ledgerOf older
      | _ => ledgerOf older

/-- The answer to a read. -/
def Read.answer (address : Nat) (read : Read) : BusRequest where
  commandCode := .dataReturnMemory
  targetAddress := read.request.sourceAddress
  sourceAddress := address
  payload := read.request.payload

/-- The answers among these requests. -/
def answers (l : List BusRequest) : List BusRequest :=
  l.filter fun r => r.commandCode = .dataReturnMemory

/-- A tracked operation stands for this read. -/
structure Tracks (ticks : Nat) (p : MemoryOperation) (read : Read) : Prop where
  address : p.address = read.request.payload
  returnAddress : p.returnAddress = read.request.sourceAddress
  age : p.age + read.tick ≤ ticks

/-- How a read met its fate: the call that did it came after the read, and was of the right
kind. -/
inductive Met (latency : Nat) (h : List CallRecord) (read : Read) : Fate → Prop
  | removed {newer older : List CallRecord} {x : CallRecord} {d : BusRequest} :
      h = newer ++ x :: older → read.call < older.length → x.call = .acceptBusTransaction d →
      d.commandCode = .dataReturnProcessor ∨ d.commandCode = .busWrite →
      read.request.payload = d.payload → Met latency h read (.removed older.length)
  | returned {newer older : List CallRecord} {x : CallRecord} :
      h = newer ++ x :: older → read.call < older.length → x.call = .tick →
      read.tick + latency ≤ ticksOf older + 1 →
      Met latency h read (.returned older.length (ticksOf older + 1))

/-- **Memory does what it should.** -/
structure Serves (latency address : Nat) (h : List CallRecord) (m : Memory) : Prop where
  /-- There is one entry for every read. -/
  entries : (ledgerOf h).map Entry.item = readsOf h
  /-- The pending reads are in the tracker, in order. -/
  tracked : List.Forall₂ (Tracks (ticksOf h)) m.memTracker (pending (ledgerOf h))
  /-- The reads that were returned are the answers that were sent, that are queued and that
  are in a burst, in order. -/
  returned : (served Fate.isReturned (ledgerOf h)).map (Read.answer address)
    = answers (sentBy h) ++ answers m.busReqQueue
      ++ if m.bursting then m.burstRequest.toList else []
  met : ∀ e ∈ ledgerOf h, ∀ f, e.fate = some f → Met latency h e.item f
  /-- No call settles two reads, and none is returned before an earlier one that is tracked, or
  that is returned later. -/
  kept : Kept Fate.isReturned Fate.call h.length (ledgerOf h)

/-- The rest of the invariant. -/
structure Tracking (latency address : Nat) (h : List CallRecord) (m : Memory) : Prop where
  serves : Serves latency address h m
  readLatency : m.readLatency = latency
  nodeAddress : m.nodeAddress = address
  burst : m.bursting = true → ∃ r, m.burstRequest = some r ∧ r.commandCode = .dataReturnMemory
  /-- Whoever has waited longer is further to the front. -/
  oldestFirst : m.memTracker.Pairwise fun p q => q.age ≤ p.age
  calls : ∀ e ∈ ledgerOf h, e.item.call < h.length

variable {latency burstLength address ticks n : Nat} {h : List CallRecord} {x : CallRecord}
  {m m' : Memory} {l : List MemoryOperation} {reads : List Read}

/-! ## The tracker -/

/-- The first of the longest waiting is the first of all. -/
theorem oldestLoop_of_le {oldestAge : Nat} (hl : ∀ p ∈ l, p.age ≤ oldestAge) (i index : Nat) :
    oldestLoop i oldestAge index l = index := by
  induction l generalizing i with
  | nil => rfl
  | cons p l ih =>
      have hp : ¬ p.age > oldestAge := Nat.not_lt.mpr (hl p List.mem_cons_self)
      rw [oldestLoop, if_neg hp]
      exact ih (fun q hq => hl q (List.mem_cons_of_mem _ hq)) (i + 1)

theorem getOldestOp_eq (hsorted : m.memTracker.Pairwise fun p q => q.age ≤ p.age)
    (hpos : ∀ p ∈ m.memTracker, 0 < p.age) : m.getOldestOp = 0 := by
  rw [getOldestOp]
  cases hm : m.memTracker with
  | nil => rfl
  | cons p rest =>
      rw [hm] at hsorted hpos
      rw [oldestLoop, if_pos (hpos p List.mem_cons_self)]
      exact oldestLoop_of_le (List.pairwise_cons.mp hsorted).1 1 0

theorem cancelRead_eq (payload : Nat) (l : List MemoryOperation) :
    cancelRead payload l = l.eraseP fun p => p.address = payload := by
  induction l with
  | nil => rfl
  | cons p l ih =>
      rw [cancelRead, List.eraseP_cons, ih]
      by_cases hp : p.address = payload <;> simp [hp]

theorem Tracks.mono {p : MemoryOperation} {read : Read} (ht : Tracks ticks p read) {ticks' : Nat}
    (hle : ticks ≤ ticks') : Tracks ticks' p read :=
  ⟨ht.address, ht.returnAddress, Nat.le_trans ht.age hle⟩

/-- The tracker and the ledger lose the same read. -/
theorem tracks_eraseP (payload : Nat) (ht : List.Forall₂ (Tracks ticks) l reads) :
    List.Forall₂ (Tracks ticks) (l.eraseP fun p => p.address = payload)
      (reads.eraseP fun read => read.request.payload = payload) := by
  induction ht with
  | nil => exact .nil
  | @cons p read l reads hp ht ih =>
      rw [List.eraseP_cons, List.eraseP_cons, hp.address]
      by_cases h0 : read.request.payload = payload
      · simpa [h0] using ht
      · simpa [h0] using ⟨hp, ih⟩

/-- One more tick. -/
theorem tracks_updateReadAges (ht : List.Forall₂ (Tracks ticks) l reads)
    (hwrap : ∀ p ∈ l, p.age + 1 < 2 ^ 32) : List.Forall₂ (Tracks (ticks + 1))
      (l.map fun p => { p with age := (p.age + 1) % 2 ^ 32 }) reads := by
  induction ht with
  | nil => exact .nil
  | @cons p read l reads hp ht ih =>
      have hmod : (p.age + 1) % 2 ^ 32 = p.age + 1 :=
        Nat.mod_eq_of_lt (hwrap p List.mem_cons_self)
      refine .cons ⟨hp.address, hp.returnAddress, ?_⟩
        (ih fun q hq => hwrap q (List.mem_cons_of_mem _ hq))
      have hage := hp.age
      show (p.age + 1) % 2 ^ 32 + read.tick ≤ ticks + 1
      omega

/-- The ages after a tick are in the same order, and none of them is zero. -/
theorem updateReadAges_sorted (hsorted : m.memTracker.Pairwise fun p q => q.age ≤ p.age)
    (hwrap : ∀ p ∈ m.memTracker, p.age + 1 < 2 ^ 32) :
    (m.updateReadAges.memTracker.Pairwise fun p q => q.age ≤ p.age)
      ∧ ∀ p ∈ m.updateReadAges.memTracker, 0 < p.age := by
  have next {p : MemoryOperation} (hp : p ∈ m.memTracker) :
      (p.age + 1) % 2 ^ 32 = p.age + 1 := Nat.mod_eq_of_lt (hwrap p hp)
  refine ⟨List.pairwise_map.mpr (hsorted.imp_of_mem fun hp hq hle => ?_), fun q hq => ?_⟩
  · show (_ + 1) % 2 ^ 32 ≤ (_ + 1) % 2 ^ 32
    rw [next hp, next hq]
    omega
  · obtain ⟨p, hp, rfl⟩ := List.mem_map.mp hq
    show 0 < (p.age + 1) % 2 ^ 32
    rw [next hp]
    omega

/-! ## Calls -/

theorem Met.mono {read : Read} {f : Fate} (hmet : Met latency h read f) (x : CallRecord) :
    Met latency (x :: h) read f := by
  cases hmet with
  | @removed newer older y _ h₁ h₂ h₃ h₄ h₅ =>
      have hsplit : x :: h = (x :: newer) ++ y :: older := by rw [h₁, List.cons_append]
      exact .removed hsplit h₂ h₃ h₄ h₅
  | @returned newer older y h₁ h₂ h₃ h₄ =>
      have hsplit : x :: h = (x :: newer) ++ y :: older := by rw [h₁, List.cons_append]
      exact .returned hsplit h₂ h₃ h₄

theorem answers_append (l l' : List BusRequest) : answers (l ++ l') = answers l ++ answers l' :=
  List.filter_append _ _

theorem ticksOf_le (x : CallRecord) (h : List CallRecord) : ticksOf h ≤ ticksOf (x :: h) := by
  rw [ticksOf]
  split <;> omega

/-- A call that has nothing to do with reads. -/
theorem Tracking.skip (ht : Tracking latency address h m) (hledger : ledgerOf (x :: h) = ledgerOf h)
    (hreads : readsOf (x :: h) = readsOf h) (htracker : m'.memTracker = m.memTracker)
    (hlatency : m'.readLatency = m.readLatency) (haddr : m'.nodeAddress = m.nodeAddress)
    (hburst : m'.bursting = true → m.bursting = true ∧ m'.burstRequest = m.burstRequest)
    (hreturned : answers (sentBy (x :: h)) ++ answers m'.busReqQueue
        ++ (if m'.bursting then m'.burstRequest.toList else [])
      = answers (sentBy h) ++ answers m.busReqQueue
        ++ if m.bursting then m.burstRequest.toList else []) :
    Tracking latency address (x :: h) m' := by
  refine ⟨⟨by rw [hledger, hreads]; exact ht.serves.entries, ?_, ?_, fun e he f hf => ?_, ?_⟩,
    hlatency.trans ht.readLatency, haddr.trans ht.nodeAddress, fun h0 => ?_, ?_, fun e he => ?_⟩
  · rw [htracker, hledger]
    exact ht.serves.tracked.imp fun p read hp => hp.mono (ticksOf_le x h)
  · rw [hledger, hreturned]
    exact ht.serves.returned
  · rw [hledger] at he
    exact (ht.serves.met e he f hf).mono x
  · rw [hledger]
    exact ht.serves.kept.mono (Nat.le_succ _)
  · obtain ⟨hb, hr⟩ := hburst h0
    rw [hr]
    exact ht.burst hb
  · rw [htracker]
    exact ht.oldestFirst
  · rw [hledger] at he
    exact Nat.lt_succ_of_lt (ht.calls e he)

theorem Tracking.calls_pending (ht : Tracking latency address h m) {read : Read}
    (hread : read ∈ pending (ledgerOf h)) : read.call < h.length := by
  have hmem : read ∈ (ledgerOf h).map Entry.item := pending_subset hread
  obtain ⟨e, he, rfl⟩ := List.mem_map.mp hmem
  exact ht.calls e he

/-- Whoever is settled met the condition for it, and the others keep their fates. -/
theorem Tracking.met_settle (ht : Tracking latency address h m) {p : Read → Bool} {f : Fate}
    (hledger : ledgerOf (x :: h) = settle p f (ledgerOf h))
    (hmet : ∀ read, (pending (ledgerOf h)).find? p = some read → read.call < h.length →
      Met latency (x :: h) read f) :
    ∀ e ∈ ledgerOf (x :: h), ∀ f, e.fate = some f → Met latency (x :: h) e.item f := by
  intro e he g hg
  rw [hledger] at he
  rcases mem_settle he with he | ⟨hfate, hfind⟩
  · exact (ht.serves.met e he g hg).mono x
  · rw [hfate] at hg; cases hg
    exact hmet e.item hfind (ht.calls_pending (List.mem_of_find?_eq_some hfind))

theorem Tracking.calls_settle (ht : Tracking latency address h m) {p : Read → Bool} {f : Fate}
    (hledger : ledgerOf (x :: h) = settle p f (ledgerOf h)) :
    ∀ e ∈ ledgerOf (x :: h), e.item.call < (x :: h).length := by
  intro e he
  rw [hledger] at he
  rcases mem_settle he with he | ⟨_, hfind⟩
  · exact Nat.lt_succ_of_lt (ht.calls e he)
  · exact Nat.lt_succ_of_lt (ht.calls_pending (List.mem_of_find?_eq_some hfind))

/-- A read is accepted. -/
theorem Tracking.acceptRead (ht : Tracking latency address h m) {d : BusRequest}
    (hx : x.call = .acceptBusTransaction d) (hsent : x.sent = none)
    (hd : d.commandCode = .busRead ∨ d.commandCode = .busReadX) :
    Tracking latency address (x :: h) (m.acceptBusTransaction d) := by
  have hledger : ledgerOf (x :: h) = add ⟨d, h.length, ticksOf h⟩ (ledgerOf h) := by
    rw [ledgerOf, hx]
    exact if_pos hd
  have hreads : readsOf (x :: h) = readsOf h ++ [⟨d, h.length, ticksOf h⟩] := by
    rw [readsOf, hx]
    exact if_pos hd
  have hticks : ticksOf (x :: h) = ticksOf h := by rw [ticksOf, hx]
  have hsends : sentBy (x :: h) = sentBy h := by rw [sentBy, hsent]; exact List.append_nil _
  rw [acceptBusTransaction_of_read hd]
  refine ⟨⟨?_, ?_, ?_, fun e he f hf => ?_, ?_⟩, ht.readLatency, ht.nodeAddress, ht.burst, ?_,
    fun e he => ?_⟩
  · rw [hledger, hreads, add, List.map_append, ht.serves.entries]
    rfl
  · rw [hledger, hticks, pending_add]
    exact List.rel_append ht.serves.tracked (.cons ⟨rfl, rfl, by simp⟩ .nil)
  · rw [hledger, served_add, hsends]
    exact ht.serves.returned
  · rw [hledger] at he
    rcases List.mem_append.mp he with he | he
    · exact (ht.serves.met e he f hf).mono x
    · rw [List.mem_singleton.mp he] at hf
      cases hf
  · rw [hledger]
    exact (ht.serves.kept.add _).mono (Nat.le_succ _)
  · refine List.pairwise_append.mpr ⟨ht.oldestFirst, List.pairwise_singleton _ _, fun p _ q hq => ?_⟩
    rw [List.mem_singleton.mp hq]
    exact Nat.zero_le _
  · rw [hledger] at he
    rcases List.mem_append.mp he with he | he
    · exact Nat.lt_succ_of_lt (ht.calls e he)
    · rw [List.mem_singleton.mp he]
      exact Nat.lt_succ_self _

/-- A line is put on the bus by somebody else. -/
theorem Tracking.cancel (ht : Tracking latency address h m) {d : BusRequest}
    (hx : x.call = .acceptBusTransaction d) (hsent : x.sent = none)
    (hd : d.commandCode = .dataReturnProcessor ∨ d.commandCode = .busWrite) :
    Tracking latency address (x :: h) (m.acceptBusTransaction d) := by
  have hnot : ¬ (d.commandCode = .busRead ∨ d.commandCode = .busReadX) := by
    rcases hd with hd | hd <;> simp [hd]
  have hledger : ledgerOf (x :: h) = settle (fun read => read.request.payload = d.payload)
      (.removed h.length) (ledgerOf h) := by
    rw [ledgerOf, hx]
    simp only [if_neg hnot, if_pos hd]
  have hreads : readsOf (x :: h) = readsOf h := by
    rw [readsOf, hx]
    exact if_neg hnot
  have hticks : ticksOf (x :: h) = ticksOf h := by rw [ticksOf, hx]
  have hsends : sentBy (x :: h) = sentBy h := by rw [sentBy, hsent]; exact List.append_nil _
  rw [acceptBusTransaction_of_cancel hd.symm, cancelRead_eq]
  refine ⟨⟨?_, ?_, ?_, ht.met_settle hledger fun read hfind hcall => ?_, ?_⟩, ht.readLatency,
    ht.nodeAddress, ht.burst, ht.oldestFirst.sublist (List.eraseP_sublist ..),
    ht.calls_settle hledger⟩
  · rw [hledger, items_settle, hreads, ht.serves.entries]
  · rw [hledger, hticks, pending_settle]
    exact tracks_eraseP d.payload ht.serves.tracked
  · rw [hledger, served_settle_of_not rfl, hsends]
    exact ht.serves.returned
  · -- the read that is settled asked for the line of this command
    have hpayload : read.request.payload = d.payload := of_decide_eq_true (List.find?_some hfind :)
    exact .removed (List.nil_append _).symm hcall hx hd hpayload
  · rw [hledger]
    exact ht.serves.kept.settle rfl rfl

/-- A tick in which nobody is answered: everybody has waited longer. -/
theorem Tracking.age (ht : Tracking latency address h m) (hx : x.call = .tick)
    (hsent : x.sent = none) (hwrap : ∀ p ∈ m.memTracker, p.age + 1 < 2 ^ 32)
    (hb : m.bursting = false) (hafter : x.after = m.updateReadAges) :
    Tracking latency address (x :: h) m.updateReadAges := by
  have hledger : ledgerOf (x :: h) = ledgerOf h := by
    have hidle : ¬ (x.before.bursting = false ∧ x.after.bursting = true) := by
      rw [hafter]
      rintro ⟨_, h0⟩
      rw [show m.updateReadAges.bursting = m.bursting from rfl, hb] at h0
      cases h0
    rw [ledgerOf, hx]
    exact if_neg hidle
  have hreads : readsOf (x :: h) = readsOf h := by rw [readsOf, hx]
  have hticks : ticksOf (x :: h) = ticksOf h + 1 := by rw [ticksOf, hx]
  have hsends : sentBy (x :: h) = sentBy h := by rw [sentBy, hsent]; exact List.append_nil _
  refine ⟨⟨by rw [hledger, hreads]; exact ht.serves.entries, ?_, ?_, fun e he f hf => ?_, ?_⟩,
    ht.readLatency, ht.nodeAddress, ht.burst, (updateReadAges_sorted ht.oldestFirst hwrap).1,
    fun e he => ?_⟩
  · rw [hledger, hticks]
    exact tracks_updateReadAges ht.serves.tracked hwrap
  · rw [hledger, hsends]
    exact ht.serves.returned
  · rw [hledger] at he
    exact (ht.serves.met e he f hf).mono x
  · rw [hledger]
    exact ht.serves.kept.mono (Nat.le_succ _)
  · rw [hledger] at he
    exact Nat.lt_succ_of_lt (ht.calls e he)

/-- **The read that memory picks is the first one**, and it has waited long enough. -/
theorem Tracking.start (ht : Tracking latency address h m) (hx : x.call = .tick)
    (hsent : x.sent = none) (hwrap : ∀ p ∈ m.memTracker, p.age + 1 < 2 ^ 32)
    (hbefore : x.before.bursting = false) (hafter : x.after.bursting = true)
    (hb : m.bursting = false) {p : MemoryOperation}
    (hp : m.updateReadAges.memTracker[m.updateReadAges.getOldestOp]? = some p)
    (hage : m.readLatency ≤ p.age) :
    Tracking latency address (x :: h) { m.updateReadAges with
      burstRequest := some (m.answerTo p)
      memTracker := m.updateReadAges.memTracker.eraseIdx m.updateReadAges.getOldestOp
      bursting := true } := by
  have hledger : ledgerOf (x :: h) = settle (fun _ => true)
      (.returned h.length (ticksOf h + 1)) (ledgerOf h) := by
    rw [ledgerOf, hx]
    exact if_pos ⟨hbefore, hafter⟩
  have hreads : readsOf (x :: h) = readsOf h := by rw [readsOf, hx]
  have hticks : ticksOf (x :: h) = ticksOf h + 1 := by rw [ticksOf, hx]
  have hsends : sentBy (x :: h) = sentBy h := by rw [sentBy, hsent]; exact List.append_nil _
  obtain ⟨hsorted, hpos⟩ := updateReadAges_sorted ht.oldestFirst hwrap
  have htracked : List.Forall₂ (Tracks (ticksOf h + 1)) m.updateReadAges.memTracker
      (pending (ledgerOf h)) := tracks_updateReadAges ht.serves.tracked hwrap
  have holdest : m.updateReadAges.getOldestOp = 0 := getOldestOp_eq hsorted hpos
  rw [holdest] at hp ⊢
  -- the front of the tracker is the first pending read of the ledger
  cases htracker : m.updateReadAges.memTracker with
  | nil => rw [htracker] at hp; cases hp
  | cons q rest =>
      rw [htracker] at hp hsorted htracked
      cases hp
      cases hpending : pending (ledgerOf h) with
      | nil => rw [hpending] at htracked; cases htracked
      | cons read reads =>
          rw [hpending] at htracked
          obtain ⟨hread, htracked⟩ := List.forall₂_cons.mp htracked
          have hlate : read.tick + latency ≤ ticksOf h + 1 := by
            have := hread.age
            have := ht.readLatency
            omega
          refine ⟨⟨?_, ?_, ?_, ht.met_settle hledger fun read' hfind hcall => ?_, ?_⟩,
            ht.readLatency, ht.nodeAddress, fun _ => ⟨_, rfl, rfl⟩,
            (List.pairwise_cons.mp hsorted).2, ht.calls_settle hledger⟩
          · rw [hledger, items_settle, hreads, ht.serves.entries]
          · rw [hledger, hticks, pending_settle, hpending]
            exact htracked
          · -- the answer goes from the ledger into the burst
            have hanswer : m.answerTo p = read.answer address := by
              rw [answerTo, Read.answer, hread.address, hread.returnAddress, ht.nodeAddress]
            rw [hledger, ht.serves.kept.served_settle rfl hpending, List.map_append,
              ht.serves.returned, hsends, hanswer, hb]
            simp [updateReadAges]
          · rw [hpending] at hfind
            obtain rfl : read = read' := Option.some.inj hfind
            exact .returned (List.nil_append _).symm hcall hx hlate
          · rw [hledger]
            exact ht.serves.kept.serve rfl

/-- **Preserved by every tick.** -/
theorem Tracking.tick (ht : Tracking latency address h m) (hx : x.call = .tick)
    (hsent : x.sent = none) (hbefore : x.before = m) (hafter : x.after = m')
    (hwrap : ∀ p ∈ m.memTracker, p.age + 1 < 2 ^ 32) (hticked : Ticked m m') :
    Tracking latency address (x :: h) m' := by
  have hreads : readsOf (x :: h) = readsOf h := by rw [readsOf, hx]
  have hsends : sentBy (x :: h) = sentBy h := by rw [sentBy, hsent]; exact List.append_nil _
  -- a burst that is under way is not one that begins
  have hledger (hb : m.bursting = true) : ledgerOf (x :: h) = ledgerOf h := by
    have hbusy : ¬ (x.before.bursting = false ∧ x.after.bursting = true) := by
      rw [hbefore, hb]
      rintro ⟨h0, _⟩
      cases h0
    rw [ledgerOf, hx]
    exact if_neg hbusy
  cases hticked with
  | age hb => exact ht.age hx hsent hwrap hb hafter
  | start hb hp hage =>
      exact ht.start hx hsent hwrap (by rw [hbefore]; exact hb) (by rw [hafter]) hb hp hage
  | @finish r hb hr =>
      obtain ⟨r', hr', hcode⟩ := ht.burst hb
      rw [hr] at hr'; cases hr'
      refine ht.skip (hledger hb) hreads rfl rfl rfl (fun h0 => by cases h0) ?_
      rw [hsends, answers_append, hb, hr]
      simp [answers, hcode]
  | @nullBurst r hb hr =>
      refine ht.skip (hledger hb) hreads rfl rfl rfl (fun _ => ⟨hb, rfl⟩) ?_
      rw [hsends, answers_append]
      simp [answers]
  | hold hb =>
      exact ht.skip (hledger hb) hreads rfl rfl rfl (fun _ => ⟨hb, rfl⟩) (by rw [hsends])

/-- **Preserved by every call.** -/
theorem Tracking.call (ht : Tracking latency address h m) (call : Call) (hallowed : call.Allowed m)
    {sent : Option BusRequest} (heq : m.perform call = .ok (sent, m')) :
    Tracking latency address (⟨m, call, sent, m'⟩ :: h) m' := by
  have hsends {call : Call} {m' : Memory} : sentBy (⟨m, call, none, m'⟩ :: h) = sentBy h :=
    List.append_nil _
  cases call with
  | acceptBusTransaction d =>
      cases heq
      by_cases hread : d.commandCode = .busRead ∨ d.commandCode = .busReadX
      · exact ht.acceptRead rfl rfl hread
      · by_cases hcancel : d.commandCode = .dataReturnProcessor ∨ d.commandCode = .busWrite
        · exact ht.cancel rfl rfl hcancel
        · have hledger : ledgerOf (⟨m, .acceptBusTransaction d, none, m⟩ :: h) = ledgerOf h := by
            simp only [ledgerOf, if_neg hread, if_neg hcancel]
          rw [acceptBusTransaction_of_neither hread fun h0 => hcancel h0.symm]
          exact ht.skip hledger (if_neg hread) rfl rfl rfl (fun h0 => ⟨h0, rfl⟩)
            (by rw [hsends])
  | tick =>
      obtain ⟨m₁, htick, heq⟩ := Outcome.bind_eq_ok.mp heq
      cases heq
      obtain ⟨m₂, htick', hticked⟩ := tick_spec (m := m) fun hb =>
        (ht.burst hb).elim fun _ hr => by rw [hr.1]; rfl
      rw [htick] at htick'; cases htick'
      exact ht.tick rfl rfl rfl rfl hallowed hticked
  | initiateBusTransaction =>
      obtain ⟨⟨r, m₁⟩, hinit, heq⟩ := Outcome.bind_eq_ok.mp heq
      cases heq
      unfold Memory.initiateBusTransaction at hinit
      split at hinit
      · rename_i rest hq
        cases hinit
        refine ht.skip rfl rfl rfl rfl rfl (fun h0 => ⟨h0, rfl⟩) ?_
        rw [sentBy, hq, show r :: rest = [r] ++ rest from rfl, answers_append, answers_append]
        simp
      · cases hinit
  | grantLock =>
      cases heq
      exact ht.skip rfl rfl rfl rfl rfl (fun h0 => ⟨h0, rfl⟩) (by rw [hsends]; rfl)
  | releaseLock =>
      cases heq
      exact ht.skip rfl rfl rfl rfl rfl (fun h0 => ⟨h0, rfl⟩) (by rw [hsends]; rfl)

theorem Calls.tracking (hcalls : Calls latency burstLength address h m) :
    Tracking latency address h m := by
  induction hcalls with
  | new =>
      refine ⟨⟨rfl, .nil, rfl, fun e he => (by cases he), .nil⟩, rfl, rfl, fun h0 => (by cases h0),
        .nil, fun e he => by cases he⟩
  | call call _ hallowed heq ih => exact ih.call call hallowed heq

/-- **Memory conserves its reads and serves them first in, first out.** After every sequence of
calls, every read that was accepted is tracked, or was removed by one later transfer of its line,
or was turned into one answer, and not before its time; and the answers are in the order of
the reads. -/
theorem memory_conserves_reads (latency burstLength address : Nat) (h : List CallRecord) (m : Memory)
    (hcalls : Calls latency burstLength address h m) : Serves latency address h m :=
  hcalls.tracking.serves

/-- No call on a memory runs into a fault. -/
theorem Calls.perform (hcalls : Calls latency burstLength address h m) (call : Call)
    (hallowed : call.Allowed m) : ∃ sent m', m.perform call = .ok (sent, m') := by
  cases call with
  | acceptBusTransaction d => exact ⟨_, _, rfl⟩
  | tick =>
      obtain ⟨m', htick, _⟩ := tick_spec (m := m) fun hb =>
        (hcalls.tracking.burst hb).elim fun _ hr => by rw [hr.1]; rfl
      exact ⟨none, m', by rw [Memory.perform, htick]; rfl⟩
  | initiateBusTransaction =>
      cases hq : m.busReqQueue with
      | nil => simp [Call.Allowed, requestsTransaction, hq] at hallowed
      | cons r rest =>
          exact ⟨some r, _, by rw [Memory.perform, Memory.initiateBusTransaction, hq]; rfl⟩
  | grantLock => exact ⟨_, _, rfl⟩
  | releaseLock => exact ⟨_, _, rfl⟩

/-- Two reads, of which the second is satisfied by a write while the first is in a burst. -/
theorem memory_conserves_reads_two_reads : ∃ h m, Calls 1 2 3 h m ∧ Serves 1 3 h m
    ∧ m.bursting = true ∧ m.memTracker = [] ∧ (readsOf h).length = 2 := by
  have hcalls : Calls 1 2 3 _ _ :=
    .call (.acceptBusTransaction ⟨.busWrite, 0, 1, 128⟩) (.call .tick
      (.call (.acceptBusTransaction ⟨.busReadX, 0, 2, 128⟩)
        (.call (.acceptBusTransaction ⟨.busRead, 0, 1, 64⟩) .new trivial rfl) trivial rfl)
      (by decide) rfl) trivial rfl
  exact ⟨_, _, hcalls, memory_conserves_reads 1 2 3 _ _ hcalls, rfl, rfl, rfl⟩

end Memory

end CoherenceSim
