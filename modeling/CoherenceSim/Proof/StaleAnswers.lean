import CoherenceSim.Proof.Answers
import Mathlib.Data.List.Perm.Basic

/-!
# Answers that nobody waits for

A `BUSWRITE` or `DATA_RETURN_PROCESSOR` ends the wait of everybody who waits for the line, but
memory cancels at most one read for it, and only one that is still tracked. So memory owes an
answer to a satisfied reader as soon as two read the line, or the read is already in a burst.

Answers are counted: as long as every such command finds at most one read of its line, still in
the tracker, memory owes a controller at most the one line that it waits for.
-/

namespace CoherenceSim

open BusNode Interconnect

/-! ## What memory owes -/

namespace Memory

/-- A `DATA_RETURN_MEMORY` for this line and this node. -/
def Answers (adx a : Nat) (r : BusRequest) : Prop :=
  r.commandCode = .dataReturnMemory ∧ r.payload = adx ∧ r.targetAddress = a

instance (adx a : Nat) (r : BusRequest) : Decidable (Answers adx a r) := by
  unfold Answers; infer_instance

/-- The requests that have left the tracker. -/
def inTransfer (m : Memory) : List BusRequest :=
  (if m.bursting then m.burstRequest.toList else []) ++ m.busReqQueue

/-- How many answers for this line memory has for the node at `a`, or will have. -/
def owes (m : Memory) (adx a : Nat) : Nat :=
  m.memTracker.countP (fun p => p.address = adx ∧ p.returnAddress = a)
    + m.inTransfer.countP fun r => Answers adx a r

/-- A command that cancels a read of this line cancels all that memory owes for it: there is at
most one, and it is still tracked. -/
def Cancellable (m : Memory) (adx : Nat) : Prop :=
  m.memTracker.countP (fun p => p.address = adx) ≤ 1
    ∧ ∀ r ∈ m.inTransfer, r.commandCode = .dataReturnMemory → r.payload ≠ adx

instance (m : Memory) (adx : Nat) : Decidable (m.Cancellable adx) := by
  unfold Cancellable; infer_instance

variable {m m' : Memory} {adx a : Nat} {d : BusRequest}

/-- **A tick moves answers on**, and makes none. -/
theorem Ticked.owes (ht : Ticked m m') (adx a : Nat) : m'.owes adx a = m.owes adx a := by
  -- ages are no part of an answer
  have aged : m.updateReadAges.memTracker.countP (fun p => p.address = adx ∧ p.returnAddress = a)
      = m.memTracker.countP fun p => p.address = adx ∧ p.returnAddress = a := by
    rw [updateReadAges, List.countP_map]
    rfl
  cases ht with
  | age hb => rw [Memory.owes, aged]; rfl
  | @start p hb hget _ =>
      obtain ⟨hlt, hp⟩ := List.getElem?_eq_some_iff.mp hget
      have hperm := (List.getElem_cons_eraseIdx_perm hlt).countP_eq
        fun p => decide (p.address = adx ∧ p.returnAddress = a)
      rw [List.countP_cons, hp, aged] at hperm
      have hsame : decide (Answers adx a (m.answerTo p))
          = decide (p.address = adx ∧ p.returnAddress = a) := by
        simp [Answers, answerTo]
      simp only [Memory.owes, inTransfer, if_true, Option.toList_some, List.countP_append,
        List.countP_singleton, hsame, hb, Bool.false_eq_true, if_false, List.countP_nil]
      rw [← hperm]
      show _ + (_ + List.countP _ m.busReqQueue) = _
      omega
  | finish hb hr =>
      simp only [Memory.owes, inTransfer, hb, hr, if_true, Bool.false_eq_true, if_false,
        Option.toList_some, List.countP_append, List.countP_nil]
      omega
  | @nullBurst r hb hr =>
      have hno : ¬ Answers adx a ⟨.nullBurst, BROADCAST_ADX, m.nodeAddress, r.payload⟩ := by
        rintro ⟨h0, _⟩
        cases h0
      simp only [Memory.owes, inTransfer, hb, if_true, List.countP_append,
        List.countP_singleton, hno, decide_false, Bool.false_eq_true, if_false]
      omega
  | hold => rfl

theorem countP_cancelRead_le (payload : Nat) (q : MemoryOperation → Bool)
    (l : List MemoryOperation) : (cancelRead payload l).countP q ≤ l.countP q := by
  induction l with
  | nil => exact Nat.le_refl _
  | cons p l ih =>
      unfold cancelRead
      split
      · rw [List.countP_cons]; omega
      · rw [List.countP_cons, List.countP_cons]; omega

/-- Of several tracked reads of a line one is cancelled. -/
theorem countP_cancelRead (payload : Nat) (l : List MemoryOperation) :
    (cancelRead payload l).countP (fun p => p.address = payload)
      = l.countP (fun p => p.address = payload) - 1 := by
  induction l with
  | nil => rfl
  | cons p l ih =>
      unfold cancelRead
      by_cases hp : p.address = payload
      · rw [if_pos hp, List.countP_cons_of_pos (by simpa using hp)]
        omega
      · rw [if_neg hp, List.countP_cons_of_neg (by simpa using hp),
          List.countP_cons_of_neg (by simpa using hp), ih]

/-- Memory takes on an answer only for a read that it hears. -/
theorem owes_acceptBusTransaction (adx a : Nat) : (m.acceptBusTransaction d).owes adx a
    ≤ m.owes adx a + if (d.commandCode = .busRead ∨ d.commandCode = .busReadX)
        ∧ d.payload = adx ∧ d.sourceAddress = a then 1 else 0 := by
  refine acceptBusTransaction_elim m d (fun hread => ?_) (fun _ => ?_) fun _ =>
    Nat.le_add_right _ _
  · simp only [Memory.owes, inTransfer, List.countP_append, List.countP_singleton, hread,
      true_and, decide_eq_true_eq]
    omega
  · exact Nat.le_trans (Nat.add_le_add_right (countP_cancelRead_le _ _ _) _) (Nat.le_add_right _ _)

/-- **All that memory owes for the line is cancelled**, if it was cancellable. -/
theorem Cancellable.owes_eq_zero (h : m.Cancellable d.payload)
    (hcode : d.commandCode = .busWrite ∨ d.commandCode = .dataReturnProcessor) (a : Nat) :
    (m.acceptBusTransaction d).owes d.payload a = 0 := by
  have htracked : (cancelRead d.payload m.memTracker).countP
      (fun p => p.address = d.payload ∧ p.returnAddress = a) = 0 := by
    have hnone := countP_cancelRead d.payload m.memTracker
    have hle : (cancelRead d.payload m.memTracker).countP
        (fun p => p.address = d.payload ∧ p.returnAddress = a)
          ≤ (cancelRead d.payload m.memTracker).countP fun p => p.address = d.payload :=
      List.countP_mono_left fun p _ hp => by
        simp only [decide_eq_true_eq] at hp ⊢
        exact hp.1
    have := h.1
    omega
  have htransfer : m.inTransfer.countP (fun r => Answers d.payload a r) = 0 := by
    rw [List.countP_eq_zero]
    intro r hr hans
    obtain ⟨hcode, hpay, _⟩ := of_decide_eq_true hans
    exact h.2 r hr hcode hpay
  rw [acceptBusTransaction_of_cancel hcode]
  show _ + m.inTransfer.countP _ = 0
  rw [htracked, htransfer]

/-- What is sent is no longer owed. -/
theorem owes_sent {rest : List BusRequest} (hq : m.busReqQueue = d :: rest) (l : Bool) (k adx a : Nat) :
    Memory.owes { m with nodeIsLocked := l, busReqQueue := rest, memSendCounts := k } adx a
      + (if Answers adx a d then 1 else 0) = m.owes adx a := by
  simp only [Memory.owes, inTransfer, List.countP_append, hq, List.countP_cons, decide_eq_true_eq]
  omega

end Memory

/-! ## What a controller expects -/

namespace Controller

/-- The controller's read of this line is out and unanswered. -/
def Expects (c : Controller) (adx : Nat) : Prop :=
  c.awaitingBusRead = true ∧ c.awaitingDataLocalAddress = adx

instance (c : Controller) (adx : Nat) : Decidable (c.Expects adx) := by
  unfold Expects; infer_instance

variable {c c' : Controller} {d : BusRequest} {adx : Nat}

theorem Transitioned.waits (hs : Transitioned c c') (h : c.Inv) (hb : c.awaitingBusRead = true) :
    c' = c := by
  have hm := h.awaiting hb
  have hw := h.waits hb
  have answered (h0 : c.awaitingDataLocal = false) : c' = c := by rw [hw] at h0; cases h0
  have elsewhere {s : ControllerState} (hs : c.currentState = s)
      (hne : s ≠ .issueReadState ∧ s ≠ .issueReadXState) : c' = c :=
    absurd hm (not_missing_of hs hne.1 hne.2)
  cases hs with
  | wait => rfl
  | rest hs | invalidateQueued hs | loadHit hs | loadMiss hs | storeHit hs | storeShared hs
  | storeMiss hs => exact elsewhere hs (by simp)
  | retire hs => rcases hs with hs | hs | hs <;> exact elsewhere hs (by simp)
  | loadDropped _ h0 | loadFilled _ h0 | storeDropped _ h0 | storeFilled _ h0 => exact answered h0

/-- A tick does not end a wait. -/
theorem Ticked.expects (hs : Ticked c c') (h : c.Inv) (he : c.Expects adx) : c'.Expects adx := by
  cases hs with
  | plain hs =>
      obtain rfl := hs.waits h he.1
      exact he
  | handed hs =>
      obtain rfl := hs.waits h he.1
      exact he

/-- Nothing but data for the line ends a wait. -/
theorem Snooped.expects (hs : Snooped d c c') (he : c.Expects adx)
    (hd : d.commandCode.Delivers → d.payload ≠ adx) : c'.Expects adx := by
  cases hs with
  | data hdel _ _ hadx => exact absurd (hadx.symm.trans he.2) (hd hdel)
  | holdRead | holdReadX | holdInvalidate | holdInvalidateModified | holdShareMe | waitRead
  | waitReadX | waitInvalidate | waitShareMe | ignored => exact he

theorem Sent.expects (hs : Sent c d c') (he : c.Expects adx) : c'.Expects adx := by
  cases hs with
  | nullBurst | transfer | command => exact he
  | read _ _ _ hb => rw [he.1] at hb; cases hb

/-- A read is sent by a controller that expects nothing yet. -/
theorem Sent.expects_read (hs : Sent c d c') (h : c.Inv)
    (hd : d.commandCode = .busRead ∨ d.commandCode = .busReadX) :
    c.awaitingBusRead = false ∧ c'.Expects d.payload := by
  have urgent {r : BusRequest} (hq : c.maxPriorityQueue.getLast? = some r)
      (hr : r.commandCode = .busRead ∨ r.commandCode = .busReadX) : False := by
    rcases (h.urgent r (List.mem_of_mem_getLast? hq)).code.cases with h0 | ⟨_, h0 | h0 | h0⟩ <;>
      rw [h0] at hr <;> rcases hr with hr | hr <;> cases hr
  cases hs with
  | nullBurst => rcases hd with hd | hd <;> cases hd
  | transfer hq | command hq => exact (urgent hq hd).elim
  | read _ _ _ hb => exact ⟨hb, rfl, rfl⟩

/-- What it means to expect an answer, in the controller's own words. -/
theorem Inv.instructionLine_of_expects (h : c.Inv) (he : c.Expects adx) :
    c.instructionLine = .ok adx := by
  obtain ⟨opcode, hi⟩ := (h.miss (h.awaiting he.1)).line
  rw [hi.instructionLine, he.2]

end Controller

/-! ## Runs -/

/-- Memory owes a controller nothing but the line that it waits for, and that once. -/
def OwesExpected (ps : Params) (ic : Interconnect Node) : Prop :=
  ∀ a c m, controllerAt ic a = some c → memoryAt ic (ps.numProcessors + 1) = some m →
    ∀ adx, m.owes adx a ≤ if c.Expects adx then 1 else 0

/-- An answer that the bus takes to its target finds the target waiting for the line. -/
def FindsWaiting (rec : TickRecord) : Prop :=
  ∀ mid r c, rec.before.tickNodes = .ok mid → rec.sent = some r →
    r.commandCode = .dataReturnMemory → controllerAt mid.interconnect r.targetAddress = some c →
    c.awaitingBusRead = true ∧ c.instructionLine = .ok r.payload

/-- Memory never answers a satisfied read. -/
def AnswersWaited (ps : Params) : Prop := ∀ h s, Run ps h s → ∀ rec ∈ h, FindsWaiting rec

/-- A command that satisfies readers finds at most one read of its line at memory, and that one
still in the tracker. -/
def CancelsAll (ps : Params) (rec : TickRecord) : Prop :=
  ∀ mid r m, rec.before.tickNodes = .ok mid → rec.sent = some r →
    r.commandCode = .busWrite ∨ r.commandCode = .dataReturnProcessor →
    memoryAt mid.interconnect (ps.numProcessors + 1) = some m → m.Cancellable r.payload

variable {ps : Params} {Q : Instruction → Prop} {s mid s' : System} {req : Option BusRequest}

theorem owesExpected_ticks {ic₀ ic₁ : Interconnect Node} (hv : Valid ps Q ic₀)
    (hv₁ : Valid ps Q ic₁) (ht : Ticks ic₀ ic₁) (h : OwesExpected ps ic₀) : OwesExpected ps ic₁ := by
  intro a c₁ m₁ hc₁ hm₁ adx
  obtain ⟨c, hc, hs⟩ := ht.controllerBefore hv hv₁ hc₁
  obtain ⟨m, hm, hmt⟩ := ht.memoryBefore hv hm₁
  have hle := h a c m hc hm adx
  rw [hmt.owes]
  refine Nat.le_trans hle ?_
  by_cases he : c.Expects adx
  · rw [if_pos he, if_pos (hs.expects (hv.controller hc).inv he)]
  · rw [if_neg he]
    exact Nat.zero_le _

/-- **Preserved by every cycle** in which a command that satisfies readers cancels what memory
owes them. -/
theorem owesExpected_cycle (hv : Valid ps Q s.interconnect) (hv' : Valid ps Q s'.interconnect)
    (hcycle : Cycle ps Q s mid req s') (hcancel : CancelsAll ps ⟨s, req, s'⟩)
    (h : OwesExpected ps s.interconnect) : OwesExpected ps s'.interconnect := by
  have hvm := hcycle.valid
  have hmid := owesExpected_ticks hv hvm hcycle.ticks h
  intro a c' m' hc' hm' adx
  obtain ⟨c, hc⟩ := hvm.controllerBefore hv' hc'
  obtain ⟨m, hm, _⟩ := hvm.memory
  have hm := memoryAt_of_nodeAt hm
  have hi := (hvm.controller hc).inv
  have hle := hmid a c m hc hm adx
  -- as long as the controller goes on expecting what it expects, nothing more may be owed
  have keep (hexp : c.Expects adx → c'.Expects adx) (howes : m'.owes adx a ≤ m.owes adx a) :
      m'.owes adx a ≤ if c'.Expects adx then 1 else 0 := by
    refine Nat.le_trans howes (Nat.le_trans hle ?_)
    by_cases he : c.Expects adx
    · rw [if_pos he, if_pos (hexp he)]
    · rw [if_neg he]
      exact Nat.zero_le _
  have hev := hcycle.event
  cases hev with
  | quiet hctrl hmem _ _ =>
      obtain ⟨l, hl⟩ := hctrl a c hc
      obtain ⟨l', hl'⟩ := hmem _ m hm
      rw [hc'] at hl; cases hl
      rw [hm'] at hl'; cases hl'
      exact keep id (Nat.le_refl _)
  | @controller a₀ c₀ c₀' r _ hc₀ hsrc _ _ _ hs hc₀' hother hmem _ _ =>
      have hacc := hmem _ m hm
      rw [hm'] at hacc; cases hacc
      have htaken := Memory.owes_acceptBusTransaction (m := m) (d := r) adx a
      by_cases haa : a = a₀
      · subst haa
        rw [hc] at hc₀; cases hc₀
        rw [hc'] at hc₀'; cases hc₀'
        by_cases hread : r.commandCode = .busRead ∨ r.commandCode = .busReadX
        · -- the read is the only thing that memory owes
          obtain ⟨hb, hexp⟩ := hs.expects_read hi.frame hread
          have hb : c.awaitingBusRead = false := hb
          have hnot : ¬ c.Expects adx := fun he => by rw [he.1] at hb; cases hb
          rw [if_neg hnot] at hle
          by_cases hpay : r.payload = adx
          · rw [if_pos (hpay ▸ hexp)]
            split at htaken <;> omega
          · rw [if_neg fun h0 => hpay h0.2.1] at htaken
            exact Nat.le_trans htaken (Nat.le_trans hle (Nat.zero_le _))
        · rw [if_neg fun h0 => hread h0.1] at htaken
          exact keep (fun he => hs.expects he) htaken
      · obtain ⟨d, hsn, hd⟩ := hother a c haa hc
        rw [hc'] at hd; cases hd
        rw [if_neg fun h0 => haa (h0.2.2.symm.trans hsrc)] at htaken
        by_cases hdel : r.commandCode.Delivers ∧ r.payload = adx
        · obtain ⟨hdel, rfl⟩ := hdel
          have hcode : r.commandCode = .busWrite ∨ r.commandCode = .dataReturnProcessor := by
            rcases hdel with h0 | h0 | h0
            · exact Or.inl h0
            · exact absurd h0 (hs.not_dataReturnMemory (hvm.controller hc₀).inv.frame)
            · exact Or.inr h0
          rw [(hcancel mid r m hcycle.tickNodes rfl hcode hm).owes_eq_zero hcode a]
          exact Nat.zero_le _
        · exact keep (fun he => hsn.expects he fun h0 hpay => hdel ⟨h0, hpay⟩) htaken
  | @memory m₀ r rest _ hm₀ _ _ _ _ hq hm₀' hother _ _ =>
      rw [hm] at hm₀; cases hm₀
      rw [hm'] at hm₀'; cases hm₀'
      have hsent := Memory.owes_sent hq m.bursting (m.memSendCounts + 1) adx a
      have hb := hother a c hc
      by_cases hrec : Receives r a
      · rw [if_pos hrec] at hb
        obtain ⟨d, hsn, hd⟩ := hb
        rw [hc'] at hd; cases hd
        by_cases hans : Memory.Answers adx a r
        · -- it was owed once, and is not owed any more
          rw [if_pos hans] at hsent
          have hone : (if c.Expects adx then 1 else 0) ≤ 1 := by split <;> omega
          exact Nat.le_trans (by omega) (Nat.zero_le _)
        · rw [if_neg hans] at hsent
          refine keep (fun he => hsn.expects he fun hdel hpay => hans ?_) (by omega)
          rcases (hvm.memoryOk hm).2.queue r (by rw [hq]; exact List.mem_cons_self) with hr' | hr'
          · have htarget := hr'.target
            rw [Receives, if_neg (by rw [BROADCAST_ADX]; omega)] at hrec
            exact ⟨hr'.code, hpay, hrec.symm⟩
          · rcases hdel with h0 | h0 | h0 <;> rw [hr'.code] at h0 <;> cases h0
      · rw [if_neg hrec, hc'] at hb; cases hb
        exact keep id (by omega)

/-- What is owed on the bus is expected. -/
theorem Cycle.findsWaiting (hcycle : Cycle ps Q s mid req s') (hv : Valid ps Q s.interconnect)
    (h : OwesExpected ps s.interconnect) : FindsWaiting ⟨s, req, s'⟩ := by
  have hvm := hcycle.valid
  have hmid := owesExpected_ticks hv hvm hcycle.ticks h
  intro mid' r c hmid' hreq hcode hc
  rw [hcycle.tickNodes] at hmid'; cases hmid'
  obtain rfl : req = some r := hreq
  have hev := hcycle.event
  cases hev with
  | controller hc₀ _ _ _ _ hs =>
      exact absurd hcode (hs.not_dataReturnMemory (hvm.controller hc₀).inv.frame)
  | memory hm _ _ _ _ hq =>
      have howed := hmid _ c _ hc hm r.payload
      have hsent := Memory.owes_sent hq false 0 r.payload r.targetAddress
      rw [if_pos ⟨hcode, rfl, rfl⟩] at hsent
      have he : c.Expects r.payload := by
        by_contra hno
        rw [if_neg hno] at howed
        omega
      exact ⟨he.1, (hvm.controller hc).inv.instructionLine_of_expects he⟩

/-- **When memory answers no satisfied read**: as long as every `BUSWRITE` and
`DATA_RETURN_PROCESSOR` finds at most one read of its line at memory, still in the tracker,
each answer finds its controller waiting for the line. -/
theorem answers_waited (ps : Params) (h : List TickRecord) (s : System) (hrun : Run ps h s)
    (hcancel : ∀ rec ∈ h, CancelsAll ps rec) : ∀ rec ∈ h, FindsWaiting rec := by
  refine (Run.induct (P := fun h s => (∀ rec ∈ h, CancelsAll ps rec) →
    OwesExpected ps s.interconnect ∧ ∀ rec ∈ h, FindsWaiting rec) ?_ ?_ ?_ hrun hcancel).2
  · refine fun s hs _ => ⟨fun a c m _ hm adx => ?_, fun rec hrec => (by cases hrec)⟩
    obtain rfl := hs.memory _ m hm
    exact Nat.zero_le _
  · intro h s s' _ _ hins ih hcancel
    obtain ⟨howes, hfinds⟩ := ih hcancel
    exact ⟨fun a c m hc hm => howes a c m (by rw [← hins.controller]; exact hc)
      (by rw [← hins.memory]; exact hm), hfinds⟩
  · intro h s mid req s' hok hok' hcycle ih hcancel
    obtain ⟨howes, hfinds⟩ := ih fun rec hrec => hcancel rec (List.mem_cons_of_mem _ hrec)
    refine ⟨owesExpected_cycle hok.valid hok'.valid hcycle (hcancel _ List.mem_cons_self) howes,
      fun rec hrec => ?_⟩
    rcases List.mem_cons.mp hrec with rfl | hrec
    · exact hcycle.findsWaiting hok.valid howes
    · exact hfinds rec hrec

/-- A store, and a load of its line by another processor while the write-back waits for nothing
else: memory still tracks the read that the `BUSWRITE` satisfies. -/
theorem answers_waited_store_load : ∃ h s, Run ⟨2, .msi, 3, 1⟩ h s
    ∧ (∃ rec ∈ h, ∃ r, rec.sent = some r ∧ r.commandCode = .busWrite)
    ∧ ∀ rec ∈ h, FindsWaiting rec := by
  obtain ⟨h, s, hrun, hp⟩ := Run.of_run ⟨2, .msi, 3, 1⟩
    ([.insert .store 64 0] ++ List.replicate 10 .tick ++ [.insert .load 64 1]
      ++ List.replicate 8 .tick)
    (fun h _ => (h.any fun (rec : TickRecord) => rec.sent.any fun (r : BusRequest) =>
        decide (r.commandCode = .busWrite))
      && h.all fun (rec : TickRecord) => rec.sent.all fun (r : BusRequest) =>
        rec.before.tickNodes.toOption.all fun (mid : System) =>
          (memoryAt mid.interconnect 3).all fun (m : Memory) =>
            decide (r.commandCode = .busWrite ∨ r.commandCode = .dataReturnProcessor →
              m.Cancellable r.payload))
    (by decide +kernel)
  obtain ⟨hany, hall⟩ := Bool.and_eq_true_iff.mp hp
  refine ⟨h, s, hrun, ?_, answers_waited _ h s hrun fun rec hrec mid r m hmid hsent hcode hm => ?_⟩
  · obtain ⟨rec, hrec, hr⟩ := List.any_eq_true.mp hany
    obtain ⟨r, hsent, hr⟩ := (Option.any_eq_true _ _).mp hr
    exact ⟨rec, hrec, r, hsent, of_decide_eq_true hr⟩
  · have hr := List.all_eq_true.mp hall rec hrec
    have hm : memoryAt mid.interconnect 3 = some m := hm
    simp only [hsent, hmid, hm, Except.toOption, Option.all_some] at hr
    exact (of_decide_eq_true hr : _ → m.Cancellable r.payload) hcode

/-- A load and a store to one line. The store's processor gets its answer, finds that the line was
read meanwhile and writes it back at once. By then the answer for the load is in a burst. -/
def loadStoreRace : List Event :=
  [.insert .load 64 0, .insert .store 64 1] ++ List.replicate 8 .tick

theorem not_answersWaited : ¬ AnswersWaited ⟨2, .msi, 2, 1⟩ := by
  intro hclaim
  obtain ⟨h, s, hrun, hp⟩ := Run.of_run ⟨2, .msi, 2, 1⟩ loadStoreRace
    (fun h _ => h.any fun (rec : TickRecord) => rec.sent.any fun (r : BusRequest) =>
      decide (r.commandCode = .dataReturnMemory)
        && rec.before.tickNodes.toOption.any fun (mid : System) =>
          (controllerAt mid.interconnect r.targetAddress).any fun (c : Controller) =>
            !c.awaitingBusRead)
    (by decide +kernel)
  obtain ⟨rec, hrec, hp⟩ := List.any_eq_true.mp hp
  obtain ⟨r, hsent, hp⟩ := (Option.any_eq_true _ _).mp hp
  obtain ⟨hcode, hc⟩ := Bool.and_eq_true_iff.mp hp
  obtain ⟨mid, hmid, hc⟩ := Outcome.any_toOption.mp hc
  obtain ⟨c, hc, hb⟩ := (Option.any_eq_true _ _).mp hc
  rw [(hclaim h s hrun rec hrec mid r c hmid hsent (of_decide_eq_true hcode) hc).1] at hb
  cases hb

end CoherenceSim
