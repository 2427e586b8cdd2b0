import CoherenceSim.Proof.Bursts
import CoherenceSim.Proof.Transfers

/-!
# What a miss costs on the bus

A controller that counts a miss queues one read in the same step, and nothing but the bus takes
it out of the queue again: no command of another node cancels a read. Misses are therefore the
reads on the bus, and the one that may still be queued. An `INVALIDATE` comes of a store that
hits, so there are no more of them than such stores.
-/

namespace CoherenceSim

open BusNode Interconnect

/-- A request of this node with this code. -/
def BusRequest.IsFrom (a : Nat) (code : CommandCode) (r : BusRequest) : Prop :=
  r.sourceAddress = a ∧ r.commandCode = code

instance (a : Nat) (code : CommandCode) (r : BusRequest) : Decidable (r.IsFrom a code) := by
  unfold BusRequest.IsFrom; infer_instance

/-- The commands that fetch a line. -/
def CommandCode.Fetches (code : CommandCode) : Prop := code = .busRead ∨ code = .busReadX

namespace Controller

/-- The reads of this kind that wait in the ordinary queue. -/
def queuedReads (c : Controller) (code : CommandCode) : Nat :=
  c.busReqQueue.countP fun r => r.commandCode = code

/-- The `INVALIDATE`s that wait to be sent. -/
def queuedInvalidates (c : Controller) : Nat :=
  c.maxPriorityQueue.countP fun r => r.commandCode = .invalidate

/-- The misses that are served by this command. -/
def missesOf (c : Controller) (code : CommandCode) : Nat :=
  (if c.controllerType.loadCommand = code then c.loadMisses else 0)
    + if .busReadX = code then c.storeMisses else 0

/-- The stores that may have found their line shared. -/
def sharedHits (c : Controller) : Nat := if c.controllerType = .mi then 0 else c.storeHits

variable {c c' : Controller} {d : BusRequest} {code : CommandCode}

variable (code) in
/-- A miss queues the read that it counts. -/
theorem Transitioned.reads (hs : Transitioned c c') :
    c'.queuedReads code + c.missesOf code = c.queuedReads code + c'.missesOf code := by
  have queued (k : CommandCode) (adx : Nat) :
      (c.makeRequest k adx :: c.busReqQueue).countP (fun r => r.commandCode = code)
        = c.queuedReads code + if k = code then 1 else 0 := by
    have hcode : (c.makeRequest k adx).commandCode = k := rfl
    rw [List.countP_cons, queuedReads, hcode]
    simp only [decide_eq_true_eq]
  cases hs with
  | loadMiss =>
      show List.countP _ (_ :: c.busReqQueue) + c.missesOf code = c.queuedReads code
        + ((if c.controllerType.loadCommand = code then c.loadMisses + 1 else 0)
          + if .busReadX = code then c.storeMisses else 0)
      rw [queued, missesOf]
      by_cases hk : c.controllerType.loadCommand = code
      · rw [if_pos hk, if_pos hk, if_pos hk]
        omega
      · rw [if_neg hk, if_neg hk, if_neg hk]
        omega
  | storeMiss =>
      show List.countP _ (_ :: c.busReqQueue) + c.missesOf code = c.queuedReads code
        + ((if c.controllerType.loadCommand = code then c.loadMisses else 0)
          + if .busReadX = code then c.storeMisses + 1 else 0)
      rw [queued, missesOf]
      by_cases hk : CommandCode.busReadX = code
      · rw [if_pos hk, if_pos hk, if_pos hk]
        omega
      · rw [if_neg hk, if_neg hk, if_neg hk]
        omega
  | rest | retire | wait | invalidateQueued | loadHit | storeHit | storeShared | loadDropped
  | loadFilled | storeDropped | storeFilled => rfl

/-- An `INVALIDATE` is queued for a store that hits. -/
theorem Transitioned.invalidates (hs : Transitioned c c') :
    c'.queuedInvalidates + c.sharedHits ≤ c.queuedInvalidates + c'.sharedHits := by
  cases hs with
  | storeShared _ _ _ _ hmi =>
      show List.countP _ (_ :: c.maxPriorityQueue) + _ ≤ _
      rw [List.countP_cons, ← queuedInvalidates, sharedHits, sharedHits, if_neg hmi,
        if_neg (show ¬ (c.queueMaxPriorityBusCommand _ _).controllerType = .mi from hmi)]
      show _ ≤ c.queuedInvalidates + (c.storeHits + 1)
      split <;> omega
  | storeDropped =>
      have hsame : (c.makeRequest .busWrite c.awaitingDataLocalAddress :: c.maxPriorityQueue).countP
          (fun r => r.commandCode = .invalidate) = c.queuedInvalidates :=
        List.countP_cons_of_neg (by simp [makeRequest])
      exact Nat.le_of_eq (congrArg (· + c.sharedHits) hsame)
  | storeHit =>
      refine Nat.add_le_add_left ?_ _
      rw [sharedHits, sharedHits]
      split
      · exact Nat.zero_le _
      · exact Nat.le_succ _
  | rest | retire | wait | invalidateQueued | loadHit | loadMiss | storeMiss | loadDropped
  | loadFilled | storeFilled => exact Nat.le_refl _

/-- What the queues hold less is on the bus. -/
theorem Sent.reads (hs : Sent c d c') (hi : c.Inv) (hcode : code.Fetches) :
    c'.queuedReads code + (if d.commandCode = code then 1 else 0) = c.queuedReads code := by
  have urgent {r : BusRequest} (hq : c.maxPriorityQueue.getLast? = some r) :
      r.commandCode ≠ code := by
    intro h0
    have hu := (hi.urgent r (List.mem_of_mem_getLast? hq)).code.cases
    rcases hcode with rfl | rfl <;> rw [h0] at hu <;> simp at hu
  cases hs with
  | nullBurst =>
      rw [if_neg (show CommandCode.nullBurst ≠ code by rcases hcode with rfl | rfl <;> decide)]
      rfl
  | transfer hq => rw [if_neg (urgent hq)]; rfl
  | command hq => rw [if_neg (urgent hq)]; rfl
  | read _ hm haway hb₀ =>
      have hqueue : c.busReqQueue = [c.missRequest] := by
        cases (hi.miss hm).stage with
        | queued _ _ hq _ => exact hq
        | out _ h0 => rw [hb₀] at h0; cases h0
        | answered h0 => rw [haway] at h0; cases h0
      rw [queuedReads, queuedReads, hqueue, List.countP_singleton]
      show 0 + _ = _
      simp

theorem Sent.invalidates (hs : Sent c d c') :
    c'.queuedInvalidates + (if d.commandCode = .invalidate then 1 else 0)
      = c.queuedInvalidates := by
  have taken {r : BusRequest} (hq : c.maxPriorityQueue.getLast? = some r) :
      c.maxPriorityQueue.dropLast.countP (fun r => r.commandCode = .invalidate)
        + (if r.commandCode = .invalidate then 1 else 0) = c.queuedInvalidates := by
    obtain ⟨q, hq⟩ := List.getLast?_eq_some_iff.mp hq
    rw [queuedInvalidates, hq, List.dropLast_concat, List.countP_append, List.countP_singleton]
    simp only [decide_eq_true_eq]
  cases hs with
  | nullBurst => rfl
  | transfer hq => exact taken hq
  | command hq => exact taken hq
  | read =>
      have hne : c.missRequest.commandCode ≠ .invalidate := by
        show c.missCommand ≠ .invalidate
        rcases c.missCommand_cases with h0 | ⟨h0, _⟩ <;> simp [h0]
      rw [if_neg hne]
      rfl

/-- No command of another node queues a read or takes one away. -/
theorem Snooped.reads (hs : Snooped d c c') : c'.busReqQueue = c.busReqQueue
    ∧ c'.loadMisses = c.loadMisses ∧ c'.storeMisses = c.storeMisses
    ∧ c'.storeHits = c.storeHits := by
  cases hs <;> exact ⟨rfl, rfl, rfl, rfl⟩

theorem Snooped.invalidates (hs : Snooped d c c') :
    c'.queuedInvalidates ≤ c.queuedInvalidates := by
  have queued {k : CommandCode} {adx : Nat} (hk : k ≠ .invalidate) :
      (c.makeRequest k adx :: c.maxPriorityQueue).countP (fun r => r.commandCode = .invalidate)
        ≤ c.queuedInvalidates := by
    rw [List.countP_cons, ← queuedInvalidates]
    simp [makeRequest, hk]
  cases hs with
  | holdRead | holdReadX => exact queued (answerCode_ne_invalidate _)
  | holdInvalidateModified | waitRead => exact queued (by simp)
  | data | ignored => exact (uncancelled_sublist d _).countP_le
  | holdInvalidate | holdShareMe | waitReadX | waitInvalidate | waitShareMe => exact Nat.le_refl _

theorem Sent.sameMisses (hs : Sent c d c') : c'.loadMisses = c.loadMisses
    ∧ c'.storeMisses = c.storeMisses ∧ c'.storeHits = c.storeHits := by
  cases hs <;> exact ⟨rfl, rfl, rfl⟩

theorem sharedHits_congr (ht : c'.controllerType = c.controllerType)
    (hs : c'.storeHits = c.storeHits) : c'.sharedHits = c.sharedHits := by
  rw [sharedHits, sharedHits, ht, hs]

theorem missesOf_congr (ht : c'.controllerType = c.controllerType)
    (hl : c'.loadMisses = c.loadMisses) (hs : c'.storeMisses = c.storeMisses) :
    c'.missesOf code = c.missesOf code := by
  rw [missesOf, missesOf, ht, hl, hs]

end Controller

/-! ## Runs -/

/-- The traffic of a controller at `a`, as far as it is due to misses and to stores on lines that
others may hold. -/
structure Charged (h : List TickRecord) (a : Nat) (c : Controller) : Prop where
  reads : ∀ code, code.Fetches →
    timesSent (·.IsFrom a code) h + c.queuedReads code = c.missesOf code
  invalidates : timesSent (·.IsFrom a .invalidate) h + c.queuedInvalidates ≤ c.sharedHits

variable {ps : Params} {Q : Instruction → Prop} {h : List TickRecord} {s mid s' : System}
  {req : Option BusRequest}

theorem timesSent_isFrom_cons (a : Nat) (code : CommandCode) (s s' : System)
    (req : Option BusRequest) (h : List TickRecord) :
    timesSent (·.IsFrom a code) (⟨s, req, s'⟩ :: h) = timesSent (·.IsFrom a code) h
      + (req.any fun r => decide (r.IsFrom a code)).toNat := timesSent_cons _ s s' req h

variable (req) in
/-- A tick in which this node sends nothing. -/
theorem timesSent_isFrom_of_ne {a : Nat} (code : CommandCode) (s s' : System)
    (h : List TickRecord) (hne : ∀ r, req = some r → r.sourceAddress ≠ a) :
    timesSent (·.IsFrom a code) (⟨s, req, s'⟩ :: h) = timesSent (·.IsFrom a code) h := by
  rw [timesSent_isFrom_cons]
  cases req with
  | none => rfl
  | some r => simp [BusRequest.IsFrom, hne r rfl]

theorem Charged.ticked {a : Nat} {c c' : Controller} (hc : Charged h a c)
    (ht : Controller.Ticked c c') : Charged h a c' := by
  have key {c₁ : Controller} (hs : Controller.Transitioned c c₁) :
      (∀ code, code.Fetches → timesSent (·.IsFrom a code) h + c₁.queuedReads code
          = c₁.missesOf code)
        ∧ timesSent (·.IsFrom a .invalidate) h + c₁.queuedInvalidates ≤ c₁.sharedHits := by
    refine ⟨fun code hcode => ?_, ?_⟩
    · have hold := hc.reads code hcode
      have hstep := hs.reads code
      omega
    · have hold := hc.invalidates
      have hstep := hs.invalidates
      omega
  cases ht with
  | plain hs => exact ⟨(key hs).1, (key hs).2⟩
  | handed hs => exact ⟨(key hs).1, (key hs).2⟩

/-- **Preserved by the bus.** -/
theorem Charged.passed {a : Nat} {c c' : Controller} (hc : Charged h a c) (hi : c.Inv)
    (ha : a ≤ ps.numProcessors) (hp : Passed ps a c req c') (s s' : System) :
    Charged (⟨s, req, s'⟩ :: h) a c' := by
  cases hp with
  | quiet l =>
      have hnone (code : CommandCode) :=
        timesSent_isFrom_of_ne none (a := a) code s s' h fun r h0 => (by cases h0)
      refine ⟨fun code hcode => ?_, ?_⟩
      · rw [hnone]; exact hc.reads code hcode
      · rw [hnone]; exact hc.invalidates
  | @sent r _ hsrc _ hs =>
      have hone (code : CommandCode) : timesSent (·.IsFrom a code) (⟨s, some r, s'⟩ :: h)
          = timesSent (·.IsFrom a code) h + if r.commandCode = code then 1 else 0 := by
        rw [timesSent_isFrom_cons]
        by_cases hcode : r.commandCode = code <;> simp [BusRequest.IsFrom, hsrc, hcode]
      obtain ⟨hl, hst, hhits⟩ := hs.sameMisses
      refine ⟨fun code hcode => ?_, ?_⟩
      · have hold := hc.reads code hcode
        have hsent := hs.reads hi.frame hcode
        rw [hone, Controller.missesOf_congr hs.sameNode.controllerType hl hst]
        show _ = c.missesOf code
        have hq : c.polled.queuedReads code = c.queuedReads code := rfl
        omega
      · have hold := hc.invalidates
        have hsent := hs.invalidates
        rw [hone, Controller.sharedHits_congr hs.sameNode.controllerType hhits]
        show _ ≤ c.sharedHits
        have hq : c.polled.queuedInvalidates = c.queuedInvalidates := rfl
        omega
  | @received r _ hsrc _ hs =>
      have hnone (code : CommandCode) := timesSent_isFrom_of_ne (some r) (a := a) code s s' h
        fun r' h0 => by cases h0; exact hsrc
      obtain ⟨hq, hl, hst, hhits⟩ := hs.reads
      refine ⟨fun code hcode => ?_, ?_⟩
      · rw [hnone, Controller.missesOf_congr hs.sameNode.controllerType hl hst,
          Controller.queuedReads, hq]
        exact hc.reads code hcode
      · have hle := hs.invalidates
        have hold := hc.invalidates
        rw [hnone, Controller.sharedHits_congr hs.sameNode.controllerType hhits]
        omega
  | @missed r hsrc =>
      have hnone (code : CommandCode) := timesSent_isFrom_of_ne (some r) (a := a) code s s' h
        fun r' h0 => by cases h0; omega
      refine ⟨fun code hcode => ?_, ?_⟩
      · rw [hnone]; exact hc.reads code hcode
      · rw [hnone]; exact hc.invalidates

theorem Run.charged (hrun : Run ps h s) :
    ∀ a c, controllerAt s.interconnect a = some c → Charged h a c := by
  refine Run.induct (P := fun h s => ∀ a c, controllerAt s.interconnect a = some c →
    Charged h a c) ?_ ?_ ?_ hrun
  · intro s hs a c hc
    rw [hs.controller a c hc]
    refine ⟨fun code _ => ?_, Nat.zero_le _⟩
    show 0 + 0 = (if ps.controllerType.loadCommand = code then 0 else 0)
      + if .busReadX = code then 0 else 0
    simp only [ite_self]
  · intro h s s' _ _ hins ih a c hc
    exact ih a c (by rw [← hins.controller]; exact hc)
  · intro h s mid req s' hok hok' hcycle ih a c' hc'
    obtain ⟨c₁, hc₁, hpassed⟩ := hcycle.event.passed hcycle.valid hok'.valid hc'
    obtain ⟨c, hc, hticked⟩ := hcycle.ticks.controllerBefore hok.valid hcycle.valid hc₁
    have ok₁ := hcycle.valid.controller hc₁
    exact ((ih a c hc).ticked hticked).passed ok₁.inv ok₁.range.2 hpassed s s'

/-- **A miss costs one read on the bus.** The reads that a controller has sent, and those in its
queue, are its misses: one `BUSREADX` for each store that missed, and one `BUSREAD` for each load
that missed, or a `BUSREADX` as well in MI. And it has sent an `INVALIDATE` for no more stores
than hit, in MI for none. -/
theorem misses_are_reads (ps : Params) (h : List TickRecord) (s : System) (hrun : Run ps h s) :
    ∀ a c, controllerAt s.interconnect a = some c →
      timesSent (·.IsFrom a .busRead) h + c.queuedReads .busRead
          = (if ps.controllerType = .mi then 0 else c.loadMisses)
      ∧ timesSent (·.IsFrom a .busReadX) h + c.queuedReads .busReadX
          = c.storeMisses + (if ps.controllerType = .mi then c.loadMisses else 0)
      ∧ timesSent (·.IsFrom a .invalidate) h
          ≤ (if ps.controllerType = .mi then 0 else c.storeHits) := by
  intro a c hc
  have hcharged := hrun.charged a c hc
  have htype := (hrun.ok.valid.controller hc).controllerType
  have hread := hcharged.reads .busRead (Or.inl rfl)
  have hreadX := hcharged.reads .busReadX (Or.inr rfl)
  have hinv := hcharged.invalidates
  rw [Controller.sharedHits, htype] at hinv
  rw [hread, hreadX, Controller.missesOf, Controller.missesOf, htype]
  refine ⟨?_, ?_, by omega⟩
  · cases ps.controllerType <;> rfl
  · cases ps.controllerType <;> simp [ControllerType.loadCommand, Nat.add_comm]

/-- Two processors miss on one line, and the second misses again when it stores to it. All misses
are answered. -/
theorem misses_are_reads_load_store : ∃ h s c, Run ⟨2, .mesi, 3, 2⟩ h s
    ∧ controllerAt s.interconnect 2 = some c ∧ c.cache.isModified 64 = .ok true
    ∧ timesSent (·.IsFrom 2 .busRead) h + c.queuedReads .busRead = 1
    ∧ timesSent (·.IsFrom 2 .busReadX) h + c.queuedReads .busReadX = 1
    ∧ timesSent (·.IsFrom 2 .invalidate) h = 0 := by
  obtain ⟨h, s, hrun, hc⟩ := Run.of_run ⟨2, .mesi, 3, 2⟩
    ([.insert .store 64 0, .insert .load 64 1] ++ List.replicate 20 .tick
      ++ [.insert .store 64 1] ++ List.replicate 12 .tick)
    (fun _ s => (controllerAt s.interconnect 2).any fun (c : Controller) => decide (c.loadMisses = 1
      ∧ c.storeMisses = 1 ∧ c.storeHits = 0 ∧ c.cache.isModified 64 = .ok true))
    (by decide +kernel)
  obtain ⟨c, hc, hl⟩ := (Option.any_eq_true _ _).mp hc
  obtain ⟨hloads, hstores, hhits, hmod⟩ := of_decide_eq_true hl
  obtain ⟨hread, hreadX, hinv⟩ := misses_are_reads _ h s hrun 2 c hc
  refine ⟨h, s, c, hrun, hc, hmod, hread.trans hloads, hreadX.trans ?_, ?_⟩
  · rw [hstores]; rfl
  · exact Nat.le_zero.mp (hinv.trans hhits.le)

end CoherenceSim
