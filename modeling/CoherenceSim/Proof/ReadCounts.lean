import CoherenceSim.Proof.MemoryBursts

/-!
# Reads serviced by memory

`memSendCounts` counts whatever memory puts on the bus, the `NULL_BURST`s of its transfers
included. A null burst enters the queue in a tick that memory begins in the middle of a
transfer, with the lock. Queue and counter together account for all of them.
-/

namespace CoherenceSim

open BusNode Interconnect

variable {ps : Params} {h : List TickRecord} {s : System} {x : TickRecord} {m m₁ m₂ : Memory}

/-- The tick transferred an answer of the memory at `n + 1`. -/
def TickRecord.returnsData (n : Nat) (x : TickRecord) : Bool :=
  x.sent.any fun r => r.commandCode = .dataReturnMemory && r.sourceAddress = n + 1

/-- The tick began with memory bursting, with the lock, and not at the last unit of the burst. -/
def TickRecord.queuesNullBurst (n : Nat) (x : TickRecord) : Bool :=
  (memoryAt x.before.interconnect (n + 1)).any fun m =>
    m.bursting && m.hasLock && m.burstCounter != Memory.tick.subOne m.burstLen

/-- Memory has counted as many reads as it transferred answers. -/
def CountsReads (ps : Params) (h : List TickRecord) (s : System) : Prop :=
  ∃ m, s.getMemory = .ok m ∧ m.getMemCount = h.countP (·.returnsData ps.numProcessors)

/-- The null bursts in memory's queue. -/
def Memory.nullBursts (m : Memory) : Nat := m.busReqQueue.countP (·.commandCode = .nullBurst)

/-- Every answer was counted, and every null burst that a tick queued waits or was counted. -/
structure Accounted (ps : Params) (h : List TickRecord) (m : Memory) : Prop where
  answers : h.countP (·.returnsData ps.numProcessors) ≤ m.memSendCounts
  nullBursts : m.memSendCounts + m.nullBursts = h.countP (·.returnsData ps.numProcessors)
    + h.countP (·.queuesNullBurst ps.numProcessors)

theorem Memory.nullBursts_append (l : List BusRequest) (r : BusRequest) :
    (l ++ [r]).countP (·.commandCode = .nullBurst)
      = l.countP (·.commandCode = .nullBurst) + (decide (r.commandCode = .nullBurst)).toNat := by
  rw [List.countP_append, List.countP_singleton]
  by_cases hr : r.commandCode = .nullBurst <;> simp [hr]

/-- The first half of a cycle queues at most one null burst. -/
theorem MemoryCycle.nullBursts_ticked (hc : MemoryCycle ps x m m₁ m₂) :
    m₁.memSendCounts = m.memSendCounts
      ∧ m₁.nullBursts = m.nullBursts + (x.queuesNullBurst ps.numProcessors).toNat := by
  have hqueues : x.queuesNullBurst ps.numProcessors
      = (m.bursting && m.hasLock && m.burstCounter != Memory.tick.subOne m.burstLen) := by
    rw [TickRecord.queuesNullBurst, hc.before]
    rfl
  rw [hqueues]
  cases hc.ticked with
  | age hb => exact ⟨rfl, by rw [hb]; rfl⟩
  | start hb => exact ⟨rfl, by rw [hb]; rfl⟩
  | hold _ _ hl => exact ⟨rfl, by rw [Memory.hasLock, hl, Bool.and_false]; rfl⟩
  | finish hb hr hk =>
      -- the answer is queued, and it is no null burst
      obtain ⟨r', hr', hans⟩ := hc.inv.burst hb
      rw [hr] at hr'; cases hr'
      refine ⟨rfl, (Memory.nullBursts_append _ _).trans ?_⟩
      rw [hans.code, hk, bne_self_eq_false, Bool.and_false]
      rfl
  | nullBurst hb _ hne hl =>
      refine ⟨rfl, (Memory.nullBursts_append _ _).trans ?_⟩
      rw [hb, Memory.hasLock, hl, bne_iff_ne.mpr hne]
      rfl

/-- The second half counts the request that memory sends, an answer or a null burst. -/
theorem MemoryCycle.memSendCounts_passed (hc : MemoryCycle ps x m m₁ m₂) :
    m₁.memSendCounts + (x.returnsData ps.numProcessors).toNat ≤ m₂.memSendCounts
      ∧ m₂.memSendCounts + m₂.nullBursts
        = m₁.memSendCounts + m₁.nullBursts + (x.returnsData ps.numProcessors).toNat := by
  have hp := hc.passed
  unfold TickRecord.returnsData
  cases hx : x.sent with
  | none =>
      rw [hx] at hp
      cases hp <;> exact ⟨Nat.le_refl _, rfl⟩
  | some r =>
      rw [hx] at hp
      cases hp with
      | @sent _ rest hsrc _ hq =>
          have hcount : m₁.nullBursts = rest.countP (·.commandCode = .nullBurst)
              + (decide (r.commandCode = .nullBurst)).toNat := by
            rw [Memory.nullBursts, hq, List.countP_cons]
            cases decide (r.commandCode = .nullBurst) <;> rfl
          rw [hcount]
          show _ ≤ m₁.memSendCounts + 1
            ∧ m₁.memSendCounts + 1 + rest.countP (·.commandCode = .nullBurst) = _
          rcases (hc.ticked.inv hc.inv).queue r (by rw [hq]; exact List.mem_cons_self) with h0 | h0
          · simp [h0.code, hsrc]; omega
          · simp [h0.code]; omega
      | heard hsrc _ _ _ =>
          obtain ⟨l, hl⟩ := m₁.acceptBusTransaction_eq r
          rw [hl]
          simp [hsrc, Memory.nullBursts]

/-- **Preserved by every cycle.** -/
theorem MemoryCycle.accounted (hc : MemoryCycle ps x m m₁ m₂) (ha : Accounted ps h m) :
    Accounted ps (x :: h) m₂ := by
  obtain ⟨hsame, hqueued⟩ := hc.nullBursts_ticked
  obtain ⟨hle, hsent⟩ := hc.memSendCounts_passed
  obtain ⟨hanswers, hnulls⟩ := ha
  constructor
  · rw [TickRecord.countP_cons]
    omega
  · rw [TickRecord.countP_cons, TickRecord.countP_cons]
    omega

/-- **What memory's counter is worth**: the answers it sent, and the null bursts it queued. -/
theorem Run.accounted (hrun : Run ps h s)
    (hm : memoryAt s.interconnect (ps.numProcessors + 1) = some m) : Accounted ps h m :=
  (hrun.memory_induct (P := Accounted ps) ⟨Nat.le_refl _, rfl⟩ (fun _ _ _ _ _ hc => hc.accounted) m hm).2

/-- Between ticks no null burst waits, if a burst has two units or more. -/
theorem Transferring.nullBursts (ht : Transferring ps h m) : m.nullBursts = 0 := by
  cases ht with
  | ready _ hq => rw [Memory.nullBursts, hq]; rfl
  | queued _ hq hcode => rw [Memory.nullBursts, hq]; simp [hcode]
  | sending _ hq => rw [Memory.nullBursts, hq]; rfl

/-- **When reads are counted exactly**: in every run in which no tick began with memory bursting,
with the lock, and not at the last unit. With two units or more, in no other run. -/
theorem reads_counted (ps : Params) (h : List TickRecord) (s : System) (hrun : Run ps h s) :
    ((∀ x ∈ h, x.queuesNullBurst ps.numProcessors = false) → CountsReads ps h s)
      ∧ (2 ≤ ps.burstLength → ps.burstLength < 2 ^ 32 → CountsReads ps h s →
        ∀ x ∈ h, x.queuesNullBurst ps.numProcessors = false) := by
  obtain ⟨m, hm, _⟩ := hrun.ok.valid.memory
  have hget : s.getMemory = .ok m := System.getMemory_eq (by rw [hrun.ok.memory]; exact hm)
  have hm := memoryAt_of_nodeAt hm
  obtain ⟨hanswers, hnulls⟩ := hrun.accounted hm
  constructor
  · intro hnone
    have hzero : h.countP (·.queuesNullBurst ps.numProcessors) = 0 :=
      TickRecord.countP_eq_zero.mpr hnone
    exact ⟨m, hget, show m.memSendCounts = _ by omega⟩
  · intro hlen hlen' hcount
    obtain ⟨m', hm', hcount⟩ := hcount
    rw [hget] at hm'; cases hm'
    have hempty := (hrun.transferring hlen hlen' hm).1.nullBursts
    unfold Memory.getMemCount at hcount
    have hzero : h.countP (·.queuesNullBurst ps.numProcessors) = 0 := by omega
    exact TickRecord.countP_eq_zero.mp hzero

instance (ps : Params) (h : List TickRecord) (s : System) : Decidable (CountsReads ps h s) :=
  match hm : s.getMemory with
  | .ok m => decidable_of_iff (m.getMemCount = h.countP (·.returnsData ps.numProcessors))
      ⟨fun heq => ⟨m, hm, heq⟩, fun ⟨m', hm', heq⟩ => by
        rw [hm] at hm'; cases hm'
        exact heq⟩
  | .error _ => .isFalse fun ⟨_, hm', _⟩ => by rw [hm] at hm'; cases hm'

/-- One store that misses, with a burst of two: memory sends its answer and one null burst, and
counts two reads. -/
theorem not_countsReads : ∃ h s, Run ⟨1, .mi, 1, 2⟩ h s ∧ ¬ CountsReads ⟨1, .mi, 1, 2⟩ h s := by
  obtain ⟨h, s, hrun, hp⟩ := Run.of_run ⟨1, .mi, 1, 2⟩
    (.insert .store 64 0 :: List.replicate 10 .tick)
    (fun h s => decide (¬ CountsReads ⟨1, .mi, 1, 2⟩ h s)) (by decide +kernel)
  exact ⟨h, s, hrun, of_decide_eq_true hp⟩

/-- With a burst of one the first answer goes out alone. -/
theorem reads_counted_one_store : ∃ h s, Run ⟨1, .mi, 1, 1⟩ h s
    ∧ h.countP (·.returnsData 1) = 1 ∧ CountsReads ⟨1, .mi, 1, 1⟩ h s := by
  obtain ⟨h, s, hrun, hp⟩ := Run.of_run ⟨1, .mi, 1, 1⟩
    (.insert .store 64 0 :: List.replicate 10 .tick)
    (fun h _ => decide (h.countP (·.returnsData 1) = 1 ∧ ∀ x ∈ h, x.queuesNullBurst 1 = false))
    (by decide +kernel)
  obtain ⟨hone, hnone⟩ := of_decide_eq_true hp
  exact ⟨h, s, hrun, hone, (reads_counted _ h s hrun).1 hnone⟩

end CoherenceSim
