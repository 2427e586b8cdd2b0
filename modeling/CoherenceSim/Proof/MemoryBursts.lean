import CoherenceSim.Proof.Bursts

/-!
# Bursts of the memory

Memory counts its bursts as the controllers do, but `burstCounter` does not start over: the tick
that ends a burst sets it to zero and then increments it, if memory has the lock. The next
transfer begins with one `NULL_BURST` on the counter that it has not sent.
-/

namespace CoherenceSim

open BusNode Interconnect

variable {ps : Params} {h : List TickRecord} {s mid s' : System} {req : Option BusRequest}

/-! ## Runs, as memory sees them -/

/-- What a tick of memory leaves alone. -/
theorem Memory.Ticked.same {m m' : Memory} (ht : Memory.Ticked m m') :
    m'.nodeAddress = m.nodeAddress ∧ m'.burstLen = m.burstLen
      ∧ m'.nodeIsLocked = m.nodeIsLocked := by
  cases ht <;> exact ⟨rfl, rfl, rfl⟩

theorem Memory.Passed.same {m m' : Memory} (hp : Memory.Passed ps m req m') :
    m'.nodeAddress = m.nodeAddress ∧ m'.burstLen = m.burstLen ∧ m'.bursting = m.bursting
      ∧ m'.burstCounter = m.burstCounter ∧ m'.burstRequest = m.burstRequest := by
  cases hp with
  | @heard r =>
      obtain ⟨l, hl⟩ := m.acceptBusTransaction_eq r
      rw [hl]
      exact ⟨rfl, rfl, rfl, rfl, rfl⟩
  | _ => exact ⟨rfl, rfl, rfl, rfl, rfl⟩

/-- A cycle, as memory sees it: it ticks, and then takes part in the bus. -/
structure MemoryCycle (ps : Params) (x : TickRecord) (m m₁ m₂ : Memory) : Prop where
  before : memoryAt x.before.interconnect (ps.numProcessors + 1) = some m
  ticked : Memory.Ticked m m₁
  passed : Memory.Passed ps m₁ x.sent m₂
  after : memoryAt x.after.interconnect (ps.numProcessors + 1) = some m₂
  inv : m.Inv ps.numProcessors
  burstLen : m.burstLen = ps.burstLength

/-- **Induction over runs**, for what concerns memory only. -/
theorem Run.memory_induct {P : List TickRecord → Memory → Prop}
    (new : P [] ((Memory.new ps.memoryLatency ps.burstLength).setAddress (ps.numProcessors + 1)))
    (cycle : ∀ x h m m₁ m₂, MemoryCycle ps x m m₁ m₂ → P h m → P (x :: h) m₂)
    (hrun : Run ps h s) : ∀ m, memoryAt s.interconnect (ps.numProcessors + 1) = some m →
      m.burstLen = ps.burstLength ∧ P h m := by
  refine Run.induct (P := fun h s => ∀ m,
    memoryAt s.interconnect (ps.numProcessors + 1) = some m → m.burstLen = ps.burstLength ∧ P h m)
    ?_ ?_ ?_ hrun
  · intro s hs m hm
    obtain rfl := hs.memory _ m hm
    exact ⟨rfl, new⟩
  · intro h s s' _ _ hins ih m hm
    exact ih m (by rw [← hins.memory]; exact hm)
  · intro h s mid req s' hok hok' hcycle ih m₂ hm₂
    obtain ⟨m, hm, hinv⟩ := hok.valid.memory
    have hm := memoryAt_of_nodeAt hm
    obtain ⟨hlen, hP⟩ := ih m hm
    obtain ⟨m₁, ht, hm₁⟩ := hcycle.ticks.memory _ m hm
    obtain ⟨m₂', hm₂', hp⟩ := hcycle.event.memoryPassed hcycle.valid hcycle.bus hm₁
    rw [hm₂] at hm₂'; cases hm₂'
    exact ⟨hp.same.2.1.trans (ht.same.2.1.trans hlen),
      cycle ⟨s, req, s'⟩ h m m₁ m₂ ⟨hm, ht, hp, hm₂, hinv, hlen⟩ hP⟩

/-! ## A burst can end -/

/-- In this tick memory was bursting, and had the lock for it. -/
def TickRecord.BurstsLocked (n : Nat) (x : TickRecord) : Prop :=
  ∃ m, memoryAt x.before.interconnect (n + 1) = some m ∧ m.bursting = true ∧ m.nodeIsLocked = true

/-- While memory bursts, its counter has not passed the value that ends the burst. -/
def CounterBounded (ps : Params) (h : List TickRecord) : Prop :=
  ∀ x ∈ h, ∀ m, memoryAt x.after.interconnect (ps.numProcessors + 1) = some m →
    m.bursting = true → m.burstCounter ≤ ps.burstLength - 1

/-- Memory bursts again, after a tick in which it was bursting with the lock held. -/
def BurstsAgain (ps : Params) (h : List TickRecord) : Prop :=
  ∃ newer x older m, h = newer ++ x :: older
    ∧ memoryAt x.after.interconnect (ps.numProcessors + 1) = some m ∧ m.bursting = true
    ∧ ∃ old ∈ older, old.BurstsLocked ps.numProcessors

/-- In no run does memory burst with its counter beyond the last unit. -/
def BurstsCanEnd (ps : Params) : Prop := ∀ h s, Run ps h s → CounterBounded ps h

theorem Memory.subOne_eq {n : Nat} (h₁ : 1 ≤ n) (h₂ : n < 2 ^ 32) :
    Memory.tick.subOne n = n - 1 := by
  rw [Memory.tick.subOne]
  omega

/-- With two units or more, the increment after the reset does no harm. -/
theorem MemoryCycle.bounded {x : TickRecord} {m m₁ m₂ : Memory} (hc : MemoryCycle ps x m m₁ m₂)
    (hlen : 2 ≤ ps.burstLength) (hb : m.burstCounter ≤ ps.burstLength - 1)
    (hw : m.burstCounter < 2 ^ 32) :
    m₂.burstCounter ≤ ps.burstLength - 1 ∧ m₂.burstCounter < 2 ^ 32 := by
  rw [hc.passed.same.2.2.2.1]
  cases hc.ticked with
  | age | start | hold => exact ⟨hb, hw⟩
  | finish =>
      show (if m.nodeIsLocked then 1 else 0) ≤ _ ∧ (if m.nodeIsLocked then 1 else 0) < _
      split <;> exact ⟨by omega, by decide⟩
  | nullBurst _ _ hne =>
      rw [hc.burstLen] at hne
      refine ⟨?_, Nat.mod_lt _ (by decide)⟩
      show (m.burstCounter + 1) % 2 ^ 32 ≤ _
      by_cases hB : ps.burstLength < 2 ^ 32
      · rw [Memory.subOne_eq (by omega) hB] at hne
        have := Nat.mod_le (m.burstCounter + 1) (2 ^ 32)
        omega
      · have := Nat.mod_lt (m.burstCounter + 1) (show 0 < 2 ^ 32 by decide)
        omega

/-! ### A single unit -/

variable {x : TickRecord} {m m₁ m₂ : Memory}

theorem MemoryCycle.counterBounded_cons (hc : MemoryCycle ps x m m₁ m₂) :
    CounterBounded ps (x :: h) ↔
      (m₂.bursting = true → m₂.burstCounter ≤ ps.burstLength - 1) ∧ CounterBounded ps h := by
  refine ⟨fun hx => ⟨hx x List.mem_cons_self m₂ hc.after,
    fun y hy => hx y (List.mem_cons_of_mem _ hy)⟩, fun ⟨hnow, hold⟩ y hy m' hm' => ?_⟩
  rcases List.mem_cons.mp hy with rfl | hy
  · rw [hc.after] at hm'; cases hm'
    exact hnow
  · exact hold y hy m' hm'

theorem MemoryCycle.burstsAgain_cons (hc : MemoryCycle ps x m m₁ m₂) :
    BurstsAgain ps (x :: h) ↔
      (m₂.bursting = true ∧ ∃ old ∈ h, old.BurstsLocked ps.numProcessors) ∨ BurstsAgain ps h := by
  constructor
  · rintro ⟨newer, y, older, m', hsplit, hm', hb, hold⟩
    cases newer with
    | nil =>
        obtain ⟨rfl, rfl⟩ := List.cons.inj hsplit
        rw [hc.after] at hm'; cases hm'
        exact Or.inl ⟨hb, hold⟩
    | cons _ newer => exact Or.inr ⟨newer, y, older, m', (List.cons.inj hsplit).2, hm', hb, hold⟩
  · rintro (⟨hb, hold⟩ | ⟨newer, y, older, m', hsplit, hm', hb, hold⟩)
    · exact ⟨[], x, h, m₂, rfl, hc.after, hb, hold⟩
    · exact ⟨x :: newer, y, older, m', by rw [hsplit, List.cons_append], hm', hb, hold⟩

/-- With a single unit, what the counter is worth: it is zero until a burst ends with the lock
held, and from then on it is one, if memory has not started another burst. -/
structure SingleUnit (ps : Params) (h : List TickRecord) (m : Memory) : Prop where
  fresh : (∀ x ∈ h, ¬ x.BurstsLocked ps.numProcessors) → m.burstCounter = 0
  spent : CounterBounded ps h → (∃ x ∈ h, x.BurstsLocked ps.numProcessors) →
    m.bursting = false ∧ m.burstCounter = 1
  bursting : CounterBounded ps h → m.bursting = true → m.burstCounter = 0
  bounded : CounterBounded ps h ↔ ¬ BurstsAgain ps h

/-- A burst of a single unit on a counter of zero ends in the next tick. -/
theorem MemoryCycle.ends (hc : MemoryCycle ps x m m₁ m₂) (hlen : ps.burstLength = 1)
    (hb : m.bursting = true) (hk : m.burstCounter = 0) :
    m₁.bursting = false ∧ m₁.burstCounter = if m.nodeIsLocked then 1 else 0 := by
  have hzero : m.burstCounter = Memory.tick.subOne m.burstLen := by
    rw [hc.burstLen, hlen, hk]; rfl
  cases hc.ticked with
  | age h0 | start h0 => rw [hb] at h0; cases h0
  | finish => exact ⟨rfl, rfl⟩
  | nullBurst _ _ hne | hold _ hne => exact absurd hzero hne

/-- Until a burst has ended with the lock held, the counter stays zero. -/
theorem SingleUnit.fresh_cycle (hs : SingleUnit ps h m) (hc : MemoryCycle ps x m m₁ m₂)
    (hno : ∀ y ∈ x :: h, ¬ y.BurstsLocked ps.numProcessors) : m₂.burstCounter = 0 := by
  have hfresh := hs.fresh fun y hy => hno y (List.mem_cons_of_mem _ hy)
  have hfree : m.bursting = true → m.nodeIsLocked = false := fun hb => by
    simpa using fun hl => hno x List.mem_cons_self ⟨m, hc.before, hb, hl⟩
  rw [hc.passed.same.2.2.2.1]
  cases hc.ticked with
  | age | start | hold => exact hfresh
  | finish hb => exact if_neg (by rw [hfree hb]; simp)
  | nullBurst hb _ _ hl => rw [hfree hb] at hl; cases hl

/-- Once a burst has ended with the lock held, the counter is one, and so no burst may start. -/
theorem SingleUnit.spent_cycle (hs : SingleUnit ps h m) (hlen : ps.burstLength = 1)
    (hc : MemoryCycle ps x m m₁ m₂) (hx : CounterBounded ps (x :: h))
    (hex : ∃ y ∈ x :: h, y.BurstsLocked ps.numProcessors) :
    m₂.bursting = false ∧ m₂.burstCounter = 1 := by
  obtain ⟨hnow, hx⟩ := hc.counterBounded_cons.mp hx
  obtain ⟨_, _, hbursting, hcounter, _⟩ := hc.passed.same
  rw [hbursting, hcounter] at hnow ⊢
  by_cases hold : ∃ y ∈ h, y.BurstsLocked ps.numProcessors
  · obtain ⟨hb, hk⟩ := hs.spent hx hold
    cases hc.ticked with
    | age => exact ⟨hb, hk⟩
    | start =>
        -- the second transfer starts with a counter that is too large
        have hover : m.burstCounter ≤ ps.burstLength - 1 := hnow rfl
        omega
    | finish h0 | nullBurst h0 | hold h0 => rw [hb] at h0; cases h0
  · obtain ⟨m', hm', hb, hl⟩ : x.BurstsLocked ps.numProcessors :=
      (List.exists_mem_cons_iff _ _ _).mp hex |>.resolve_right hold
    rw [hc.before] at hm'; cases hm'
    obtain ⟨hend, hk⟩ := hc.ends hlen hb (hs.bursting hx hb)
    exact ⟨hend, hk.trans (if_pos hl)⟩

/-- **Preserved by every cycle**, when a burst has a single unit. -/
theorem SingleUnit.cycle (hs : SingleUnit ps h m) (hlen : ps.burstLength = 1)
    (hc : MemoryCycle ps x m m₁ m₂) : SingleUnit ps (x :: h) m₂ := by
  refine ⟨hs.fresh_cycle hc, hs.spent_cycle hlen hc, fun hx hb => ?_, ?_⟩
  · have := (hc.counterBounded_cons.mp hx).1 hb
    omega
  · rw [hc.counterBounded_cons, hc.burstsAgain_cons, hs.bounded, not_or]
    refine and_congr_left fun hno => ⟨fun hnow ⟨hb, old, ho, hl⟩ => ?_, fun hnone hb => ?_⟩
    · have hx : CounterBounded ps (x :: h) := hc.counterBounded_cons.mpr ⟨hnow, hs.bounded.mpr hno⟩
      have hspent := hs.spent_cycle hlen hc hx ⟨old, List.mem_cons_of_mem _ ho, hl⟩
      rw [hb] at hspent; cases hspent.1
    · have hclean : ∀ y ∈ x :: h, ¬ y.BurstsLocked ps.numProcessors := by
        intro y hy hl
        rcases List.mem_cons.mp hy with rfl | hy
        · -- a burst that was under way has ended in this very tick
          obtain ⟨m', hm', hb', _⟩ := hl
          rw [hc.before] at hm'; cases hm'
          have hend := (hc.ends hlen hb' (hs.bursting (hs.bounded.mpr hno) hb')).1
          rw [← hc.passed.same.2.2.1, hb] at hend; cases hend
        · exact hnone ⟨hb, y, hy, hl⟩
      rw [hs.fresh_cycle hc hclean]
      exact Nat.zero_le _

/-- **When a burst of the memory can end.** The counter stays within bounds exactly when a burst
takes at least two units, or memory never bursts after a burst that ended with the lock held. -/
theorem bursts_can_end (ps : Params) (hlen : 1 ≤ ps.burstLength) (h : List TickRecord) (s : System)
    (hrun : Run ps h s) :
    CounterBounded ps h ↔ 2 ≤ ps.burstLength ∨ ¬ BurstsAgain ps h := by
  obtain ⟨m, hm, _⟩ := hrun.ok.valid.memory
  have hm := memoryAt_of_nodeAt hm
  by_cases hB : 2 ≤ ps.burstLength
  · refine ⟨fun _ => Or.inl hB, fun _ => ?_⟩
    refine ((Run.memory_induct (P := fun h m => CounterBounded ps h
      ∧ m.burstCounter ≤ ps.burstLength - 1 ∧ m.burstCounter < 2 ^ 32) ?_ ?_ hrun) m hm).2.1
    · exact ⟨fun x hx => (by cases hx), Nat.zero_le _, Nat.two_pow_pos 32⟩
    · intro x h m m₁ m₂ hc ⟨hx, hb, hw⟩
      have hnext := hc.bounded hB hb hw
      exact ⟨hc.counterBounded_cons.mpr ⟨fun _ => hnext.1, hx⟩, hnext⟩
  · have hone : ps.burstLength = 1 := by omega
    have hunit : SingleUnit ps h m := by
      refine ((Run.memory_induct (P := SingleUnit ps) ?_ ?_ hrun) m hm).2
      · exact ⟨fun _ => rfl, fun _ ⟨x, hx, _⟩ => (by cases hx), fun _ _ => rfl,
          fun _ ⟨newer, x, older, _, h0, _⟩ => by simp at h0, fun _ x hx => (by cases hx)⟩
      · intro x h m m₁ m₂ hc hs
        exact hs.cycle hone hc
    exact hunit.bounded.trans (or_iff_right hB).symm

/-- Two stores to different lines, up to the tick in which the second burst starts. -/
def twoLines : List Event :=
  [.insert .store 64 0, .insert .store 128 0] ++ List.replicate 9 .tick

/-- The second burst starts on a counter of one, and has to end on zero. -/
theorem run_twoLines : ∃ h s, Run ⟨1, .mi, 1, 1⟩ h s ∧ ¬ CounterBounded ⟨1, .mi, 1, 1⟩ h := by
  obtain ⟨h, s, hrun, hany⟩ := Run.of_run ⟨1, .mi, 1, 1⟩ twoLines
    (fun h _ => h.any fun (x : TickRecord) => (memoryAt x.after.interconnect 2).any
      fun (m : Memory) => m.bursting && decide (0 < m.burstCounter)) (by decide +kernel)
  refine ⟨h, s, hrun, fun hbounded => ?_⟩
  obtain ⟨x, hx, hover⟩ := List.any_eq_true.mp hany
  obtain ⟨m, hm, hover⟩ := (Option.any_eq_true _ _).mp hover
  obtain ⟨hb, hk⟩ := Bool.and_eq_true_iff.mp hover
  have hle : m.burstCounter ≤ 0 := hbounded x hx m hm hb
  exact absurd hle (Nat.not_le.mpr (of_decide_eq_true hk))

theorem not_burstsCanEnd : ¬ BurstsCanEnd ⟨1, .mi, 1, 1⟩ := by
  intro hclaim
  obtain ⟨h, s, hrun, hover⟩ := run_twoLines
  exact hover (hclaim h s hrun)

theorem bursts_can_end_two_lines : ∃ h s, Run ⟨1, .mi, 1, 1⟩ h s
    ∧ BurstsAgain ⟨1, .mi, 1, 1⟩ h := by
  obtain ⟨h, s, hrun, hover⟩ := run_twoLines
  refine ⟨h, s, hrun, ?_⟩
  by_contra hno
  exact hover ((bursts_can_end ⟨1, .mi, 1, 1⟩ (by decide) h s hrun).mpr (Or.inr hno))

/-! ## The length of a transfer -/

/-- The request, if any, is an answer from memory. -/
def IsReturn (req : Option BusRequest) : Prop :=
  ∃ r, req = some r ∧ r.commandCode = .dataReturnMemory

instance (req : Option BusRequest) : Decidable (IsReturn req) :=
  decidable_of_iff (req.any fun r => decide (r.commandCode = .dataReturnMemory))
    (by cases req <;> simp [IsReturn])

/-- Memory had the lock when the tick began. -/
def TickRecord.MemoryLocked (n : Nat) (x : TickRecord) : Prop :=
  (memoryAt x.before.interconnect (n + 1)).any (fun m => m.nodeIsLocked) = true

instance (n : Nat) (x : TickRecord) : Decidable (x.MemoryLocked n) := by
  unfold TickRecord.MemoryLocked; infer_instance

/-- Memory had the lock when it put its latest answer on the bus. -/
def LastReturnLocked (n : Nat) : List TickRecord → Prop
  | [] => False
  | x :: older => if IsReturn x.sent then x.MemoryLocked n else LastReturnLocked n older

/-- Every answer from memory costs a whole burst. -/
def TransfersWhole (ps : Params) : Prop := ∀ h s, Run ps h s → ∀ newer x older r,
  h = newer ++ x :: older → x.sent = some r → r.commandCode = .dataReturnMemory →
    WholeBurst ps.burstLength r older

instance decidableLastReturnLocked (n : Nat) : ∀ h, Decidable (LastReturnLocked n h)
  | [] => inferInstanceAs (Decidable False)
  | x :: older =>
      have := decidableLastReturnLocked n older
      inferInstanceAs (Decidable (if IsReturn x.sent then x.MemoryLocked n
        else LastReturnLocked n older))

/-- What the counter starts the next transfer with. -/
def startCounter (n : Nat) (h : List TickRecord) : Nat := if LastReturnLocked n h then 1 else 0

theorem startCounter_le (n : Nat) (h : List TickRecord) : startCounter n h ≤ 1 := by
  unfold startCounter; split <;> omega

/-- The latest tick carried no null burst of the memory. -/
def NoNull (n : Nat) (h : List TickRecord) (k : Nat) : Prop :=
  ∀ x payload, h[k]? = some x → x.sent ≠ some (nullBurstOf (n + 1) payload)

/-- How far memory is with its transfers. -/
inductive Transferring (ps : Params) (h : List TickRecord) (m : Memory) : Prop
  | ready : m.nodeIsLocked = false → m.busReqQueue = [] →
      m.burstCounter = startCounter ps.numProcessors h → NoNull ps.numProcessors h 0 →
      Transferring ps h m
  | queued {r : BusRequest} : m.nodeIsLocked = false → m.busReqQueue = [r] →
      r.commandCode = .dataReturnMemory → r.sourceAddress = ps.numProcessors + 1 →
      m.burstCounter = 0 → startCounter ps.numProcessors h = 1 →
      ps.burstLength = 2 → NoNull ps.numProcessors h 0 → Transferring ps h m
  | sending {k : Nat} {r : BusRequest} : m.nodeIsLocked = true → m.busReqQueue = [] →
      m.bursting = true → m.burstRequest = some r →
      m.burstCounter = startCounter ps.numProcessors h + k →
      m.burstCounter ≤ ps.burstLength - 1 →
      (∀ i < k, ∃ x, h[i]? = some x
        ∧ x.sent = some (nullBurstOf (ps.numProcessors + 1) r.payload)) →
      NoNull ps.numProcessors h k → Transferring ps h m

theorem noNull_cons {n : Nat} (hx : ∀ payload, x.sent ≠ some (nullBurstOf (n + 1) payload)) :
    NoNull n (x :: h) 0 := by
  intro y payload hy
  cases hy
  exact hx payload

/-- Only an answer from memory changes what the next transfer starts with. -/
theorem startCounter_cons_of_not {n : Nat} (hx : ¬ IsReturn x.sent) :
    startCounter n (x :: h) = startCounter n h := by
  have hlast : LastReturnLocked n (x :: h) ↔ LastReturnLocked n h := by
    show (if IsReturn x.sent then _ else _) ↔ _
    rw [if_neg hx]
  exact if_congr hlast rfl rfl

theorem MemoryCycle.startCounter {r : BusRequest} (hc : MemoryCycle ps x m m₁ m₂)
    (hx : x.sent = some r) (hr : r.commandCode = .dataReturnMemory) :
    startCounter ps.numProcessors (x :: h) = if m.nodeIsLocked then 1 else 0 := by
  have hret : IsReturn x.sent := ⟨r, hx, hr⟩
  have hlast : LastReturnLocked ps.numProcessors (x :: h) ↔ m.nodeIsLocked = true := by
    show (if IsReturn x.sent then _ else _) ↔ _
    rw [if_pos hret, TickRecord.MemoryLocked, hc.before]
    exact Iff.rfl
  exact if_congr hlast rfl rfl

/-- A transfer is whole if it started from zero: then, and only then, it is as long as it
should be. -/
theorem wholeBurst_iff {B k : Nat} {r : BusRequest} {n : Nat} (hsrc : r.sourceAddress = n + 1)
    (hk : startCounter n h + k = B - 1)
    (hsent : ∀ i < k, ∃ y, h[i]? = some y ∧ y.sent = some (nullBurstOf (n + 1) r.payload))
    (hnull : NoNull n h k) : WholeBurst B r h ↔ ¬ LastReturnLocked n h := by
  constructor
  · intro hwhole hlast
    have hstart : startCounter n h = 1 := if_pos hlast
    -- one more null burst is missing than was sent
    obtain ⟨y, hy, hys⟩ := hwhole.burst k (by omega)
    exact hnull y _ hy (hsrc ▸ hys)
  · intro hlast
    have hstart : startCounter n h = 0 := if_neg hlast
    have hB : B - 1 = k := by omega
    refine ⟨fun i hi => ?_, fun y payload hy => ?_⟩
    · rw [hsrc]
      exact hsent i (by omega)
    · rw [hsrc]
      exact hnull y payload (hB ▸ hy)

/-- A tick in which memory puts nothing on the bus is nothing to its transfers. -/
theorem noReturn_of_not_sent {n : Nat} (hx : ∀ r, x.sent = some r → r.sourceAddress ≠ n + 1
    ∧ r.commandCode ≠ .dataReturnMemory) :
    ¬ IsReturn x.sent ∧ NoNull n (x :: h) 0
      ∧ startCounter n (x :: h) = startCounter n h := by
  have hnot : ¬ IsReturn x.sent := fun ⟨r, hr, hcode⟩ => (hx r hr).2 hcode
  exact ⟨hnot, noNull_cons fun payload h0 => (hx _ h0).1 rfl, startCounter_cons_of_not hnot⟩

/-- Memory that has nothing to send: it starts a transfer, if it was polled. -/
theorem Transferring.of_polled (hlen : 2 ≤ ps.burstLength) (hq : m₁.busReqQueue = [])
    (hk : m₁.burstCounter = startCounter ps.numProcessors h)
    (hb : m₁.bursting = true → ∃ r, m₁.burstRequest = some r) (hnull : NoNull ps.numProcessors h 0) :
    Transferring ps h { m₁ with nodeIsLocked := m₁.bursting } := by
  have hle := startCounter_le ps.numProcessors h
  by_cases hbm : m₁.bursting = true
  · obtain ⟨r, hr⟩ := hb hbm
    exact .sending (k := 0) hbm hq hbm hr hk (by show m₁.burstCounter ≤ _; omega)
      (fun i hi => absurd hi (Nat.not_lt_zero i)) hnull
  · exact .ready (by simpa using hbm) hq hk hnull

/-- Memory that does not have the lock, and has nothing in its queue. -/
theorem MemoryCycle.ready (hc : MemoryCycle ps x m m₁ m₂) (hlen : 2 ≤ ps.burstLength)
    (hl : m₁.nodeIsLocked = false) (hq : m₁.busReqQueue = [])
    (hk : m₁.burstCounter = CoherenceSim.startCounter ps.numProcessors h)
    (hb : m₁.bursting = true → ∃ r, m₁.burstRequest = some r) :
    Transferring ps (x :: h) m₂ ∧ ¬ IsReturn x.sent := by
  have hp := hc.passed
  cases hx : x.sent with
  | none =>
      obtain ⟨hnot, hnull, hstart⟩ := noReturn_of_not_sent (n := ps.numProcessors) (h := h)
        (x := x) fun r h0 => by rw [hx] at h0; cases h0
      rw [hx] at hp hnot
      cases hp with
      | polled => exact ⟨.of_polled hlen hq (hk.trans hstart.symm) hb hnull, hnot⟩
      | idle => exact ⟨.ready hl hq (hk.trans hstart.symm) hnull, hnot⟩
  | some r =>
      rw [hx] at hp
      cases hp with
      | sent _ _ hq' => rw [hq] at hq'; cases hq'
      | heard hsrc _ hcode _ =>
          obtain ⟨hnot, hnull, hstart⟩ := noReturn_of_not_sent (n := ps.numProcessors) (h := h)
            (x := x) fun r h0 => by rw [hx] at h0; cases h0; exact ⟨hsrc, hcode⟩
          rw [hx] at hnot
          obtain ⟨l, hl'⟩ := m₁.acceptBusTransaction_eq r
          rw [hl']
          exact ⟨.ready hl hq (hk.trans hstart.symm) hnull, hnot⟩

/-- Memory that does not have the lock, and has an answer in its queue. It got there without a
null burst, since the transfer started one short of two units. -/
theorem MemoryCycle.queued (hc : MemoryCycle ps x m m₁ m₂) (hm : m.nodeIsLocked = false)
    {r : BusRequest} (hl : m₁.nodeIsLocked = false) (hq : m₁.busReqQueue = [r])
    (hcode : r.commandCode = .dataReturnMemory) (hsrc : r.sourceAddress = ps.numProcessors + 1)
    (hk : m₁.burstCounter = 0) (hstart : CoherenceSim.startCounter ps.numProcessors h = 1)
    (hB : ps.burstLength = 2) (hnull : NoNull ps.numProcessors h 0)
    (hb : m₁.bursting = true → ∃ r, m₁.burstRequest = some r) :
    Transferring ps (x :: h) m₂ ∧ ∀ r, x.sent = some r → r.commandCode = .dataReturnMemory →
      (WholeBurst ps.burstLength r h ↔ ¬ LastReturnLocked ps.numProcessors h) := by
  have hp := hc.passed
  cases hx : x.sent with
  | none =>
      obtain ⟨_, hnull', hstart'⟩ := noReturn_of_not_sent (n := ps.numProcessors) (h := h)
        (x := x) fun r h0 => by rw [hx] at h0; cases h0
      rw [hx] at hp
      cases hp with
      | polled hq' => rw [hq] at hq'; cases hq'
      | idle =>
          exact ⟨.queued hl hq hcode hsrc hk (hstart'.trans hstart) hB hnull', fun r h0 => by cases h0⟩
  | some r' =>
      rw [hx] at hp
      cases hp with
      | sent _ _ hq' =>
          rw [hq] at hq'; cases hq'
          have hnull' : NoNull ps.numProcessors (x :: h) 0 := noNull_cons fun payload h0 => by
            rw [hx] at h0; cases h0; cases hcode
          -- memory was not locked as it sent this answer, so that the next one starts from zero
          have hstart' : CoherenceSim.startCounter ps.numProcessors (x :: h) = 0 := by
            rw [hc.startCounter hx hcode, hm]; rfl
          refine ⟨?_, fun r'' h0 _ => ?_⟩
          · have hpolled : Transferring ps (x :: h) { ({ m₁ with
                busReqQueue := []
                memSendCounts := m₁.memSendCounts + 1 } : Memory) with nodeIsLocked := m₁.bursting } :=
              .of_polled (by omega) rfl (hk.trans hstart'.symm) hb hnull'
            exact hpolled
          · cases h0
            exact wholeBurst_iff (k := 0) hsrc (by omega) (fun i hi => absurd hi (Nat.not_lt_zero i))
              hnull
      | heard hsrc' _ hcode' _ =>
          obtain ⟨_, hnull', hstart'⟩ := noReturn_of_not_sent (n := ps.numProcessors) (h := h)
            (x := x) fun r h0 => by rw [hx] at h0; cases h0; exact ⟨hsrc', hcode'⟩
          obtain ⟨l, hl'⟩ := m₁.acceptBusTransaction_eq r'
          rw [hl']
          refine ⟨.queued hl hq hcode hsrc hk (hstart'.trans hstart) hB hnull', fun r'' h0 h1 => ?_⟩
          cases h0
          exact absurd h1 hcode'

/-- Memory that has the lock is served in every tick. -/
theorem MemoryCycle.served (hc : MemoryCycle ps x m m₁ m₂) (hl : m₁.nodeIsLocked = true)
    {r : BusRequest} (hq : m₁.busReqQueue = [r]) : x.sent = some r ∧ m₂ = { m₁ with
      nodeIsLocked := m₁.bursting
      busReqQueue := []
      memSendCounts := m₁.memSendCounts + 1 } := by
  have hp := hc.passed
  cases hx : x.sent with
  | none =>
      rw [hx] at hp
      cases hp with
      | polled hq' => rw [hq] at hq'; cases hq'
      | idle h0 => rw [hl] at h0; cases h0
  | some r' =>
      rw [hx] at hp
      cases hp with
      | sent _ _ hq' => rw [hq] at hq'; cases hq'; exact ⟨rfl, rfl⟩
      | heard _ _ _ h0 => rw [hl] at h0; cases h0

/-- Memory that has the lock puts its answer on the bus, which ends the transfer. The answer goes
out with the lock, so that the next transfer starts from one. -/
theorem MemoryCycle.sendsAnswer (hc : MemoryCycle ps x m m₁ m₂) (hl : m.nodeIsLocked = true)
    {k : Nat} {r : BusRequest} (hq : m₁.busReqQueue = [r]) (hb : m₁.bursting = false)
    (hk₁ : m₁.burstCounter = 1) (hcode : r.commandCode = .dataReturnMemory)
    (hsrc : r.sourceAddress = ps.numProcessors + 1)
    (hk : CoherenceSim.startCounter ps.numProcessors h + k = ps.burstLength - 1)
    (hsent : ∀ i < k, ∃ y, h[i]? = some y
      ∧ y.sent = some (nullBurstOf (ps.numProcessors + 1) r.payload))
    (hnull : NoNull ps.numProcessors h k) :
    Transferring ps (x :: h) m₂ ∧ ∀ r, x.sent = some r → r.commandCode = .dataReturnMemory →
      (WholeBurst ps.burstLength r h ↔ ¬ LastReturnLocked ps.numProcessors h) := by
  obtain ⟨hx, rfl⟩ := hc.served (hc.ticked.same.2.2.trans hl) hq
  have hstart : CoherenceSim.startCounter ps.numProcessors (x :: h) = 1 := by
    rw [hc.startCounter hx hcode, hl]; rfl
  have hnull' : NoNull ps.numProcessors (x :: h) 0 := noNull_cons fun payload h0 => by
    rw [hx] at h0; cases h0; cases hcode
  refine ⟨.ready hb rfl (hk₁.trans hstart.symm) hnull', fun r' h0 _ => ?_⟩
  rw [hx] at h0; cases h0
  exact wholeBurst_iff hsrc hk hsent hnull

/-- Memory that has the lock puts one more null burst on the bus, and goes on with the transfer. -/
theorem MemoryCycle.sendsNull (hc : MemoryCycle ps x m m₁ m₂) (hl : m.nodeIsLocked = true)
    {k : Nat} {r : BusRequest}
    (hq : m₁.busReqQueue = [nullBurstOf (ps.numProcessors + 1) r.payload])
    (hb : m₁.bursting = true) (hr : m₁.burstRequest = some r)
    (hk : m₁.burstCounter = CoherenceSim.startCounter ps.numProcessors h + (k + 1))
    (hbound : m₁.burstCounter ≤ ps.burstLength - 1)
    (hsent : ∀ i < k, ∃ y, h[i]? = some y
      ∧ y.sent = some (nullBurstOf (ps.numProcessors + 1) r.payload))
    (hnull : NoNull ps.numProcessors h k) :
    Transferring ps (x :: h) m₂ ∧ ¬ IsReturn x.sent := by
  obtain ⟨hx, rfl⟩ := hc.served (hc.ticked.same.2.2.trans hl) hq
  have hnot : ¬ IsReturn x.sent := by
    rw [hx]
    intro ⟨r', h0, h1⟩
    cases h0; cases h1
  have hk' : m₁.burstCounter = CoherenceSim.startCounter ps.numProcessors (x :: h) + (k + 1) := by
    rw [startCounter_cons_of_not hnot]
    exact hk
  refine ⟨.sending hb rfl hb hr hk' hbound (fun i hi => ?_) hnull, hnot⟩
  -- the bursts of the transfer are the latest ticks: this one, and those before it
  cases i with
  | zero => exact ⟨x, rfl, hx⟩
  | succ i => exact hsent i (by omega)

/-- **Preserved by every cycle**, and an answer is as long as its start allows. -/
theorem MemoryCycle.transferring (hc : MemoryCycle ps x m m₁ m₂) (hlen : 2 ≤ ps.burstLength)
    (hlen' : ps.burstLength < 2 ^ 32) (ht : Transferring ps h m) :
    Transferring ps (x :: h) m₂ ∧ ∀ r, x.sent = some r → r.commandCode = .dataReturnMemory →
      (WholeBurst ps.burstLength r h ↔ ¬ LastReturnLocked ps.numProcessors h) := by
  have hlast : Memory.tick.subOne m.burstLen = ps.burstLength - 1 := by
    rw [hc.burstLen, Memory.subOne_eq (by omega) hlen']
  have hle := startCounter_le ps.numProcessors h
  have hb₁ : m₁.bursting = true → ∃ r, m₁.burstRequest = some r := fun h0 => by
    obtain ⟨r, hr, _⟩ := (hc.ticked.inv hc.inv).burst h0
    exact ⟨r, hr⟩
  have none_returned {P : BusRequest → Prop} (h0 : ¬ IsReturn x.sent) :
      ∀ r, x.sent = some r → r.commandCode = .dataReturnMemory → P r :=
    fun r h1 h2 => absurd ⟨r, h1, h2⟩ h0
  have answer {r : BusRequest} (hb : m.bursting = true) (hr : m.burstRequest = some r) :
      r.commandCode = .dataReturnMemory ∧ r.sourceAddress = ps.numProcessors + 1 := by
    obtain ⟨r', hr', hans⟩ := hc.inv.burst hb
    rw [hr] at hr'; cases hr'
    exact ⟨hans.code, hans.source⟩
  have hsame := hc.ticked.same
  cases ht with
  | ready hl hq hk hnull =>
      have hl₁ : m₁.nodeIsLocked = false := hsame.2.2.trans hl
      have rest (hq₁ : m₁.busReqQueue = []) (hk₁ : m₁.burstCounter = m.burstCounter) :
          Transferring ps (x :: h) m₂ ∧ ∀ r, x.sent = some r → r.commandCode = .dataReturnMemory →
            (WholeBurst ps.burstLength r h ↔ ¬ LastReturnLocked ps.numProcessors h) := by
        obtain ⟨hnext, hnot⟩ := hc.ready hlen hl₁ hq₁ (hk₁.trans hk) hb₁
        exact ⟨hnext, none_returned hnot⟩
      cases hc.ticked with
      | age => exact rest hq rfl
      | start => exact rest hq rfl
      | hold => exact rest hq rfl
      | nullBurst _ _ _ h0 => rw [hl] at h0; cases h0
      | @finish r hb hr hfull =>
          obtain ⟨hcode, hsrc⟩ := answer hb hr
          rw [hlast] at hfull
          exact hc.queued hl hl₁ (by rw [hq]; rfl) hcode hsrc (by rw [hl]; rfl) (by omega) (by omega)
            hnull fun h0 => by cases h0
  | queued hl hq hcode hsrc hk hstart hB hnull =>
      have hl₁ : m₁.nodeIsLocked = false := hsame.2.2.trans hl
      cases hc.ticked with
      | age => exact hc.queued hl hl₁ hq hcode hsrc hk hstart hB hnull hb₁
      | start => exact hc.queued hl hl₁ hq hcode hsrc hk hstart hB hnull hb₁
      | hold => exact hc.queued hl hl₁ hq hcode hsrc hk hstart hB hnull hb₁
      | nullBurst _ _ _ h0 => rw [hl] at h0; cases h0
      | finish _ _ hfull => omega
  | @sending k r hl hq hb hr hk hbound hsent hnull =>
      obtain ⟨hcode, hsrc⟩ := answer hb hr
      cases hc.ticked with
      | age h0 => rw [hb] at h0; cases h0
      | start h0 => rw [hb] at h0; cases h0
      | hold _ _ h0 => rw [hl] at h0; cases h0
      | finish _ hr' hfull =>
          rw [hr] at hr'; cases hr'
          rw [hlast] at hfull
          exact hc.sendsAnswer hl (by rw [hq]; rfl) rfl (if_pos hl) hcode hsrc (hk.symm.trans hfull)
            hsent hnull
      | nullBurst _ hr' hne _ =>
          rw [hr] at hr'; cases hr'
          rw [hlast] at hne
          -- one below the bound, the counter does not wrap
          have hmod : (m.burstCounter + 1) % 2 ^ 32 = m.burstCounter + 1 :=
            Nat.mod_eq_of_lt (by omega)
          obtain ⟨hnext, hnot⟩ := hc.sendsNull hl (k := k) (by rw [hq, hc.inv.nodeAddress]; rfl) hb hr
            (hmod.trans (by omega)) (hmod.trans_le (by omega)) hsent hnull
          exact ⟨hnext, none_returned hnot⟩

/-- How far memory is with its transfers in a reachable state, and how long they were. -/
theorem Run.transferring (hlen : 2 ≤ ps.burstLength) (hlen' : ps.burstLength < 2 ^ 32)
    (hrun : Run ps h s) (hm : memoryAt s.interconnect (ps.numProcessors + 1) = some m) :
    Transferring ps h m ∧ ∀ newer x older r,
      h = newer ++ x :: older → x.sent = some r → r.commandCode = .dataReturnMemory →
        (WholeBurst ps.burstLength r older ↔ ¬ LastReturnLocked ps.numProcessors older) := by
  refine ((Run.memory_induct (P := fun h m => Transferring ps h m ∧ ∀ newer x older r,
    h = newer ++ x :: older → x.sent = some r → r.commandCode = .dataReturnMemory →
      (WholeBurst ps.burstLength r older ↔ ¬ LastReturnLocked ps.numProcessors older))
    ?_ ?_ hrun) m hm).2
  · refine ⟨.ready rfl rfl (if_neg id).symm fun x payload hx => ?_,
      fun newer x older r h0 => by simp at h0⟩
    cases hx
  · intro x h m m₁ m₂ hc ⟨ht, hall⟩
    obtain ⟨ht', hnow⟩ := hc.transferring hlen hlen' ht
    refine ⟨ht', fun newer y older r hsplit hsent hcode => ?_⟩
    cases newer with
    | nil =>
        obtain ⟨rfl, rfl⟩ := List.cons.inj hsplit
        exact hnow r hsent hcode
    | cons _ newer => exact hall newer y older r (List.cons.inj hsplit).2 hsent hcode

/-- **Which transfers are whole.** A `DATA_RETURN_MEMORY` directly follows the `NULL_BURST`s that
the configured burst asks for exactly when memory did not have the lock as it sent the answer
before it; otherwise one is missing. -/
theorem transfers_whole (ps : Params) (hlen : 2 ≤ ps.burstLength) (hlen' : ps.burstLength < 2 ^ 32)
    (h : List TickRecord) (s : System) (hrun : Run ps h s) : ∀ newer x older r,
    h = newer ++ x :: older → x.sent = some r → r.commandCode = .dataReturnMemory →
      (WholeBurst ps.burstLength r older ↔ ¬ LastReturnLocked ps.numProcessors older) := by
  obtain ⟨m, hm, _⟩ := hrun.ok.valid.memory
  exact (hrun.transferring hlen hlen' (memoryAt_of_nodeAt hm)).2

/-- Two stores to different lines, up to the tick in which the second read is answered. -/
def twoReads : List Event :=
  [.insert .store 64 0, .insert .store 128 0] ++ List.replicate 11 .tick

/-- With a burst of two, the second answer comes without a null burst. -/
theorem run_twoReads : ∃ x older s r, Run ⟨1, .mi, 1, 2⟩ (x :: older) s ∧ x.sent = some r
    ∧ r.commandCode = .dataReturnMemory ∧ ¬ WholeBurst 2 r older := by
  obtain ⟨h, s, hrun, hp⟩ := Run.of_run ⟨1, .mi, 1, 2⟩ twoReads
    (fun h _ => (h.head?.any fun (x : TickRecord) =>
        x.sent.any fun (r : BusRequest) => decide (r.commandCode = .dataReturnMemory))
      && h.tail.head?.any fun (y : TickRecord) => y.sent.isNone)
    (by decide +kernel)
  obtain ⟨hret, hnone⟩ := Bool.and_eq_true_iff.mp hp
  cases h with
  | nil => cases hret
  | cons x older =>
      obtain ⟨x', hx, hret⟩ := (Option.any_eq_true _ _).mp hret
      cases hx
      obtain ⟨r, hsent, hcode⟩ := (Option.any_eq_true _ _).mp hret
      obtain ⟨y, hy, hnone⟩ := (Option.any_eq_true _ _).mp hnone
      refine ⟨x, older, s, r, hrun, hsent, of_decide_eq_true hcode, fun hwhole => ?_⟩
      obtain ⟨z, hz, hsent'⟩ := hwhole.burst 0 (by decide)
      have hzy : older[0]? = some y := by rw [← List.head?_eq_getElem?]; exact hy
      rw [hz] at hzy; cases hzy
      rw [hsent'] at hnone
      cases hnone

theorem not_transfersWhole : ¬ TransfersWhole ⟨1, .mi, 1, 2⟩ := by
  intro hclaim
  obtain ⟨x, older, s, r, hrun, hsent, hcode, hshort⟩ := run_twoReads
  exact hshort (hclaim _ s hrun [] x older r rfl hsent hcode)

theorem transfers_whole_two_reads : ∃ x older s r, Run ⟨1, .mi, 1, 2⟩ (x :: older) s
    ∧ x.sent = some r ∧ r.commandCode = .dataReturnMemory ∧ LastReturnLocked 1 older := by
  obtain ⟨x, older, s, r, hrun, hsent, hcode, hshort⟩ := run_twoReads
  refine ⟨x, older, s, r, hrun, hsent, hcode, ?_⟩
  by_contra hfree
  exact hshort ((transfers_whole ⟨1, .mi, 1, 2⟩ (by decide) (by decide) _ s hrun [] x older r rfl
    hsent hcode).mpr hfree)

end CoherenceSim
