import CoherenceSim.Proof.SystemTick

/-!
# Transfers from cache to cache

Every holder of a line queues an answer of its own to a read, and the first of them that goes out
takes one off each of the other queues. What the reads bound is the longest of these queues: it
and the transfers so far are together never more than the reads so far.
-/

namespace CoherenceSim

open BusNode Interconnect

/-- A `DATA_RETURN_PROCESSOR` for this line. -/
def BusRequest.Transfers (adx : Nat) (r : BusRequest) : Prop :=
  r.commandCode = .dataReturnProcessor ∧ r.payload = adx

/-- A `BUSREAD` or `BUSREADX` for this line. -/
def BusRequest.Reads (adx : Nat) (r : BusRequest) : Prop :=
  (r.commandCode = .busRead ∨ r.commandCode = .busReadX) ∧ r.payload = adx

instance (adx : Nat) (r : BusRequest) : Decidable (r.Transfers adx) := by
  unfold BusRequest.Transfers; infer_instance

instance (adx : Nat) (r : BusRequest) : Decidable (r.Reads adx) := by
  unfold BusRequest.Reads; infer_instance

/-- How many messages of a kind were on the bus. -/
def timesSent (p : BusRequest → Prop) [DecidablePred p] (h : List TickRecord) : Nat :=
  h.countP fun x => x.sent.any fun r => p r

variable {adx : Nat} {r : BusRequest}

theorem BusRequest.not_transfers_of_ne (hne : r.commandCode ≠ .dataReturnProcessor) :
    ¬ r.Transfers adx := fun h0 => hne h0.1

theorem timesSent_cons (p : BusRequest → Prop) [DecidablePred p] (s s' : System)
    (req : Option BusRequest) (h : List TickRecord) :
    timesSent p (⟨s, req, s'⟩ :: h) = timesSent p h + (req.any fun r => p r).toNat :=
  TickRecord.countP_cons _ _ _

/-! ## The queue of a controller -/

namespace Controller

/-- The answers for this line that wait to be sent. -/
def queuedTransfers (c : Controller) (adx : Nat) : Nat :=
  c.maxPriorityQueue.countP fun r => r.Transfers adx

variable {c c' : Controller} {d : BusRequest}

theorem queuedTransfers_cons (hq : c'.maxPriorityQueue = r :: c.maxPriorityQueue) :
    c'.queuedTransfers adx = c.queuedTransfers adx + if r.Transfers adx then 1 else 0 := by
  rw [queuedTransfers, hq, List.countP_cons, queuedTransfers]
  simp only [decide_eq_true_eq]

/-- A controller's own tick queues no answer. -/
theorem Ticked.queuedTransfers (hs : Ticked c c') :
    c'.queuedTransfers adx = c.queuedTransfers adx := by
  rcases hs.queue with hq | ⟨code, payload, hcode, hq⟩
  · rw [Controller.queuedTransfers, hq]
    rfl
  · have hne : code ≠ .dataReturnProcessor := by
      rcases hcode with rfl | rfl <;> simp
    rw [queuedTransfers_cons hq, if_neg (BusRequest.not_transfers_of_ne hne)]
    rfl

/-- What is sent was queued. -/
theorem Sent.queuedTransfers (hs : Sent c d c') :
    c'.queuedTransfers adx + (if d.Transfers adx then 1 else 0) = c.queuedTransfers adx := by
  have popped {r : BusRequest} (hq : c.maxPriorityQueue.getLast? = some r) :
      c.maxPriorityQueue.dropLast.countP (fun r => r.Transfers adx)
        + (if r.Transfers adx then 1 else 0) = c.queuedTransfers adx := by
    obtain ⟨q, hq⟩ := List.getLast?_eq_some_iff.mp hq
    rw [Controller.queuedTransfers, hq, List.dropLast_concat, List.countP_append,
      List.countP_singleton]
    simp only [decide_eq_true_eq]
  cases hs with
  | nullBurst => rw [if_neg (BusRequest.not_transfers_of_ne (by simp))]; rfl
  | transfer hq => exact popped hq
  | command hq => exact popped hq
  | read =>
      have hne : c.missCommand ≠ .dataReturnProcessor := by
        rcases c.missCommand_cases with h0 | ⟨h0, _⟩ <;> simp [h0]
      rw [if_neg (BusRequest.not_transfers_of_ne hne)]
      rfl

/-! ## Cancelling -/

theorem countP_eraseP {α : Type} (p : α → Bool) (l : List α) :
    (l.eraseP p).countP p = l.countP p - 1 := by
  induction l with
  | nil => rfl
  | cons a l ih =>
      by_cases ha : p a = true
      · rw [List.eraseP_cons_of_pos ha, List.countP_cons_of_pos ha]
        rfl
      · rw [List.eraseP_cons_of_neg ha, List.countP_cons_of_neg ha, List.countP_cons_of_neg ha, ih]

/-- An answer that passes takes one off the queue. -/
theorem countP_uncancelled (hd : d.Transfers adx) (q : List BusRequest) :
    (uncancelled d q).countP (fun r => r.Transfers adx)
      = q.countP (fun r => r.Transfers adx) - 1 := by
  obtain ⟨hcode, rfl⟩ := hd
  rw [uncancelled, if_pos (Or.inr hcode)]
  exact countP_eraseP (fun r => decide (r.Transfers d.payload)) q

/-- A message makes a controller queue at most one answer, and only if it is a read. -/
theorem Snooped.queuedTransfers_le (adx : Nat) (hs : Snooped d c c') (ok : c.cache.Ok)
    (ha : Aligned d.payload) : c'.queuedTransfers adx
      ≤ c.queuedTransfers adx + if d.Reads adx then 1 else 0 := by
  rcases hs.queue with hsub | ⟨code, hq, hcode⟩
  · exact Nat.le_trans hsub.countP_le (Nat.le_add_right _ _)
  · -- an answer is for the line that was read
    have hreads (htr : (c.makeRequest code d.payload).Transfers adx) : d.Reads adx := by
      have hpay : d.payload = adx := (ok.getLineAlignedAddress_of_aligned ha).symm.trans htr.2
      have hans : code = .dataReturnProcessor := htr.1
      rcases hcode with hd | hd | ⟨_, hd⟩
      · exact ⟨Or.inl hd, hpay⟩
      · exact ⟨Or.inr hd, hpay⟩
      · rw [hans] at hd; cases hd
    rw [queuedTransfers_cons hq]
    by_cases htr : (c.makeRequest code d.payload).Transfers adx
    · rw [if_pos htr, if_pos (hreads htr)]
    · rw [if_neg htr]
      omega

theorem Snooped.queuedTransfers_of_transfers (hs : Snooped d c c') (hd : d.Transfers adx) :
    c'.queuedTransfers adx = c.queuedTransfers adx - 1 := by
  have absurd {code : CommandCode} (h0 : d.commandCode = code) (hne : code ≠ .dataReturnProcessor) :
      c'.queuedTransfers adx = c.queuedTransfers adx - 1 := (hne (h0.symm.trans hd.1)).elim
  cases hs with
  | data => exact countP_uncancelled hd _
  | ignored => exact countP_uncancelled hd _
  | holdRead h0 | holdReadX h0 | holdInvalidate h0 | holdInvalidateModified h0 | holdShareMe h0
  | waitRead h0 | waitReadX h0 | waitInvalidate h0 | waitShareMe h0 => exact absurd h0 (by simp)

end Controller

/-! ## Runs -/

/-- No queue, with the transfers so far, has more answers than there were reads. -/
structure TransfersBounded (adx : Nat) (h : List TickRecord) (ic : Interconnect Node) : Prop where
  sent : timesSent (·.Transfers adx) h ≤ timesSent (·.Reads adx) h
  queued : ∀ a c, controllerAt ic a = some c → c.queuedTransfers adx
    + timesSent (·.Transfers adx) h ≤ timesSent (·.Reads adx) h

variable {ps : Params} {Q : Instruction → Prop} {s mid s' : System} {req : Option BusRequest}
  {h : List TickRecord}

/-- **Preserved by every cycle.** -/
theorem TransfersBounded.cycle (hb : TransfersBounded adx h s.interconnect)
    (hv : Valid ps Q s.interconnect) (hv' : Valid ps Q s'.interconnect)
    (hcycle : Cycle ps Q s mid req s') :
    TransfersBounded adx (⟨s, req, s'⟩ :: h) s'.interconnect := by
  have hvm := hcycle.valid
  -- the controllers' own ticks queue no answers
  have hmid (a : Nat) (c : Controller) (hc : controllerAt mid.interconnect a = some c) :
      c.queuedTransfers adx + timesSent (·.Transfers adx) h ≤ timesSent (·.Reads adx) h := by
    obtain ⟨c₀, hc₀, ht⟩ := hcycle.ticks.controllerBefore hv hvm hc
    rw [ht.queuedTransfers]
    exact hb.queued a c₀ hc₀
  have hsent := hb.sent
  have hev := hcycle.event
  -- every controller after the cycle was one before the bus half
  have before {a : Nat} {c' : Controller} (hc' : controllerAt s'.interconnect a = some c') :
      ∃ c, controllerAt mid.interconnect a = some c := hvm.controllerBefore hv' hc'
  have htimes (p : BusRequest → Prop) [DecidablePred p] (r : BusRequest) :
      timesSent p (⟨s, some r, s'⟩ :: h) = timesSent p h + if p r then 1 else 0 := by
    rw [timesSent_cons, Option.any_some]
    by_cases hp : p r <;> simp [hp]
  cases hev with
  | quiet hctrl =>
      refine ⟨hsent, fun a c' hc' => ?_⟩
      obtain ⟨c, hc⟩ := before hc'
      obtain ⟨l, hl⟩ := hctrl a c hc
      rw [hc'] at hl; cases hl
      exact hmid a c hc
  | @controller a₀ c₀ c₀' r _ hc₀ _ hon _ _ hs hc₀' hother =>
      have hsender := hmid a₀ c₀ hc₀
      have hpopped : c₀'.queuedTransfers adx + (if r.Transfers adx then 1 else 0)
          = c₀.queuedTransfers adx := hs.queuedTransfers
      refine ⟨?_, fun a c' hc' => ?_⟩
      · rw [htimes, htimes]
        omega
      · rw [htimes, htimes]
        by_cases ha : a = a₀
        · subst ha
          rw [hc'] at hc₀'; cases hc₀'
          omega
        · obtain ⟨c, hc⟩ := before hc'
          have hle := hmid a c hc
          obtain ⟨d, hsn, hd⟩ := hother a c ha hc
          rw [hc'] at hd; cases hd
          by_cases htr : r.Transfers adx
          · -- a queue without an answer is bounded by the sender's, which had one
            rw [hsn.queuedTransfers_of_transfers htr]
            rw [if_pos htr] at hpopped ⊢
            omega
          · have hsnoop := hsn.queuedTransfers_le adx (hvm.controller hc).inv.cache
              hon.receivable.payload
            rw [if_neg htr]
            omega
  | @memory m₀ r _ _ hm₀ _ hon _ _ hq _ hother =>
      have hcode : r.commandCode = .dataReturnMemory ∨ r.commandCode = .nullBurst := by
        rcases (hvm.memoryOk hm₀).2.queue r (by rw [hq]; exact List.mem_cons_self) with hr | hr
        · exact Or.inl hr.code
        · exact Or.inr hr.code
      have hnot : ¬ r.Transfers adx := by
        intro h0
        rcases hcode with h1 | h1 <;> rw [h0.1] at h1 <;> cases h1
      refine ⟨?_, fun a c' hc' => ?_⟩
      · rw [htimes, htimes, if_neg hnot]
        omega
      · rw [htimes, htimes, if_neg hnot]
        obtain ⟨c, hc⟩ := before hc'
        have hle := hmid a c hc
        have hb := hother a c hc
        split at hb
        · obtain ⟨d, hsn, hd⟩ := hb
          rw [hc'] at hd; cases hd
          have hsnoop := hsn.queuedTransfers_le adx (hvm.controller hc).inv.cache
            hon.receivable.payload
          omega
        · rw [hc'] at hb; cases hb
          omega

/-- **At most one transfer for each read**, for every line and however many caches share it. -/
theorem transfers_le_reads (ps : Params) (h : List TickRecord) (s : System) (hrun : Run ps h s)
    (adx : Nat) : timesSent (·.Transfers adx) h ≤ timesSent (·.Reads adx) h := by
  have hbounded : TransfersBounded adx h s.interconnect := by
    refine Run.induct (P := fun h s => TransfersBounded adx h s.interconnect) ?_ ?_ ?_ hrun
    · intro s hs
      refine ⟨Nat.le_refl 0, fun a c hc => ?_⟩
      rw [hs.controller a c hc]
      exact Nat.le_refl 0
    · intro h s s' _ _ hins hb
      exact ⟨hb.sent, fun a c hc => hb.queued a c (by rw [← hins.controller]; exact hc)⟩
    · intro h s mid req s' hok hok' hcycle hb
      exact hb.cycle hok.valid hok'.valid hcycle
  exact hbounded.sent

/-- Two caches share a line, and a third reads it: both answer, and one answer goes out. -/
theorem transfers_le_reads_two_sharers : ∃ h s, Run ⟨3, .mesi, 1, 2⟩ h s
    ∧ timesSent (·.Transfers 64) h = 2 ∧ timesSent (·.Reads 64) h = 3
    ∧ timesSent (·.Transfers 64) h ≤ timesSent (·.Reads 64) h := by
  obtain ⟨h, s, hrun, hp⟩ := Run.of_run ⟨3, .mesi, 1, 2⟩
    ([.insert .load 64 0] ++ List.replicate 10 .tick ++ [.insert .load 64 1]
      ++ List.replicate 10 .tick ++ [.insert .load 64 2] ++ List.replicate 12 .tick)
    (fun h _ => decide (timesSent (·.Transfers 64) h = 2 ∧ timesSent (·.Reads 64) h = 3))
    (by decide +kernel)
  obtain ⟨htransfers, hreads⟩ := of_decide_eq_true hp
  exact ⟨h, s, hrun, htransfers, hreads, transfers_le_reads _ h s hrun 64⟩

end CoherenceSim
