import CoherenceSim.Proof.SystemTick

/-!
# No response is lost

Memory cancels a read that somebody else has answered, but it looks only at the address:
the read it erases may be anyone's. No waiting controller is stranded by that, because all
controllers that wait for the line take the data that made memory cancel; and the one that
sent the data does not wait for that line.
-/

namespace CoherenceSim

open BusNode Interconnect

namespace Memory

/-- Memory has an answer for the controller at `a`, or will have one. -/
inductive Holds (m : Memory) (adx a : Nat) : Prop
  | tracked {p : MemoryOperation} : p ∈ m.memTracker → p.address = adx → p.returnAddress = a →
      Holds m adx a
  | burst {r : BusRequest} : m.bursting = true → m.burstRequest = some r →
      r.commandCode = .dataReturnMemory → r.targetAddress = a → r.payload = adx → Holds m adx a
  | queued {r : BusRequest} : r ∈ m.busReqQueue → r.commandCode = .dataReturnMemory →
      r.targetAddress = a → r.payload = adx → Holds m adx a

variable {m m' : Memory} {adx a : Nat}

theorem Holds.mono (h : m.Holds adx a)
    (ht : ∀ p ∈ m.memTracker, p.address = adx → p ∈ m'.memTracker)
    (hb : m'.bursting = m.bursting) (hr : m'.burstRequest = m.burstRequest)
    (hq : ∀ r ∈ m.busReqQueue, r.commandCode = .dataReturnMemory → r.targetAddress = a →
      r.payload = adx → r ∈ m'.busReqQueue) : m'.Holds adx a := by
  cases h with
  | tracked hp h₁ h₂ => exact .tracked (ht _ hp h₁) h₁ h₂
  | burst h0 h₀ h₁ h₂ h₃ => exact .burst (hb.trans h0) (hr.trans h₀) h₁ h₂ h₃
  | queued hm h₁ h₂ h₃ => exact .queued (hq _ hm h₁ h₂ h₃) h₁ h₂ h₃

/-- An answer moves on, but does not get lost. -/
theorem Ticked.holds (ht : Ticked m m') (h : m.Holds adx a) : m'.Holds adx a := by
  -- ages are no part of an answer
  have aged {p : MemoryOperation} (hp : p ∈ m.memTracker) :
      ∃ q ∈ m.updateReadAges.memTracker, q.address = p.address
        ∧ q.returnAddress = p.returnAddress :=
    ⟨_, List.mem_map_of_mem hp, rfl, rfl⟩
  cases ht with
  | age hb =>
      cases h with
      | tracked hp h₁ h₂ =>
          obtain ⟨q, hq, h₃, h₄⟩ := aged hp
          exact .tracked hq (h₃.trans h₁) (h₄.trans h₂)
      | burst h0 => rw [hb] at h0; cases h0
      | queued hr h₁ h₂ h₃ => exact .queued hr h₁ h₂ h₃
  | @start p₀ hb hget =>
      cases h with
      | tracked hp h₁ h₂ =>
          obtain ⟨q, hq, h₃, h₄⟩ := aged hp
          -- either this read was picked, or it is still in the tracker
          obtain ⟨j, hj⟩ := List.mem_iff_getElem?.mp hq
          by_cases hji : j = m.updateReadAges.getOldestOp
          · rw [hji, hget] at hj
            cases hj
            exact .burst rfl rfl rfl (h₄.trans h₂) (h₃.trans h₁)
          · refine .tracked (p := q) ?_ (h₃.trans h₁) (h₄.trans h₂)
            exact List.mem_eraseIdx_iff_getElem?.mpr ⟨j, hji, hj⟩
      | burst h0 => rw [hb] at h0; cases h0
      | queued hr h₁ h₂ h₃ => exact .queued hr h₁ h₂ h₃
  | finish hb hr =>
      cases h with
      | tracked hp h₁ h₂ => exact .tracked hp h₁ h₂
      | burst _ h0 h₁ h₂ h₃ =>
          rw [hr] at h0; cases h0
          exact .queued (List.mem_append_right _ (List.mem_singleton_self _)) h₁ h₂ h₃
      | queued hr h₁ h₂ h₃ => exact .queued (List.mem_append_left _ hr) h₁ h₂ h₃
  | nullBurst hb hr =>
      cases h with
      | tracked hp h₁ h₂ => exact .tracked hp h₁ h₂
      | burst h0 h₀ h₁ h₂ h₃ => exact .burst h0 h₀ h₁ h₂ h₃
      | queued hr h₁ h₂ h₃ => exact .queued (List.mem_append_left _ hr) h₁ h₂ h₃
  | hold hb => exact h

/-- Only reads of the same line are ever cancelled. -/
theorem mem_cancelRead_of_ne {payload : Nat} {l : List MemoryOperation} {p : MemoryOperation}
    (hp : p ∈ l) (hne : p.address ≠ payload) : p ∈ cancelRead payload l := by
  induction l with
  | nil => cases hp
  | cons q l ih =>
      unfold cancelRead
      rcases List.mem_cons.mp hp with rfl | hp
      · rw [if_neg hne]; exact List.mem_cons_self
      · split
        · exact hp
        · exact List.mem_cons_of_mem _ (ih hp)

/-- The commands that make memory cancel a read. -/
def Cancels (d : BusRequest) (adx : Nat) : Prop :=
  (d.commandCode = .busWrite ∨ d.commandCode = .dataReturnProcessor) ∧ d.payload = adx

theorem Holds.acceptBusTransaction (h : m.Holds adx a) {d : BusRequest} (hd : ¬ Cancels d adx) :
    (m.acceptBusTransaction d).Holds adx a := by
  refine acceptBusTransaction_elim m d (fun _ => ?_) (fun hcancel => ?_) fun _ => h
  · exact h.mono (fun p hp _ => List.mem_append_left _ hp) rfl rfl fun r hr _ _ _ => hr
  · exact h.mono (fun p hp hadx =>
      mem_cancelRead_of_ne hp fun h0 => hd ⟨hcancel, h0.symm.trans hadx⟩)
      rfl rfl fun r hr _ _ _ => hr

/-- A read that arrives is tracked. -/
theorem holds_of_read {d : BusRequest}
    (hd : d.commandCode = .busRead ∨ d.commandCode = .busReadX) :
    (m.acceptBusTransaction d).Holds d.payload d.sourceAddress := by
  rw [acceptBusTransaction_of_read hd]
  exact .tracked (List.mem_append_right _ (List.mem_singleton_self _)) rfl rfl

end Memory

/-- A read that is out has an answer coming. -/
def AnswersComing (ps : Params) (ic : Interconnect Node) : Prop :=
  ∀ a c m, controllerAt ic a = some c → memoryAt ic (ps.numProcessors + 1) = some m →
    c.awaitingBusRead = true → m.Holds c.awaitingDataLocalAddress a

variable {ps : Params} {Q : Instruction → Prop} {s mid s' : System} {req : Option BusRequest}

namespace Controller

variable {c c' : Controller} {d : BusRequest}

theorem Inv.waits (h : c.Inv) (hb : c.awaitingBusRead = true) : c.awaitingDataLocal = true := by
  cases (h.miss (h.awaiting hb)).stage with
  | queued _ h0 _ _ => rw [hb] at h0; cases h0
  | out hw _ _ _ _ _ => exact hw
  | answered _ h0 _ _ _ => rw [hb] at h0; cases h0

/-- While a read is out, a controller does nothing but wait. -/
theorem Transitioned.awaiting (hs : Transitioned c c') (h : c.Inv)
    (hb : c'.awaitingBusRead = true) : c' = c := by
  have atRest {s : ControllerState} (hs : c.currentState = s)
      (hne : s ≠ .issueReadState ∧ s ≠ .issueReadXState) (hb : c.awaitingBusRead = true) : False := by
    rw [(h.rest (not_missing_of hs hne.1 hne.2)).awaitingBusRead] at hb; cases hb
  have answered (hm : c.Missing) (hw : c.awaitingDataLocal = false) (hb : c.awaitingBusRead = true) :
      False := by
    rw [(h.atRest_of_answered hm hw).awaitingBusRead] at hb; cases hb
  cases hs with
  | rest | retire => cases hb
  | wait => rfl
  | invalidateQueued hs | loadHit hs | loadMiss hs | storeHit hs | storeShared hs | storeMiss hs =>
      exact (atRest hs (by simp) hb).elim
  | loadDropped hs hw | loadFilled hs hw => exact (answered (Or.inl hs) hw hb).elim
  | storeDropped hs hw | storeFilled hs hw => exact (answered (Or.inr hs) hw hb).elim

theorem Ticked.awaiting (hs : Ticked c c') (h : c.Inv) (hb : c'.awaitingBusRead = true) :
    c.awaitingBusRead = true ∧ c'.awaitingDataLocalAddress = c.awaitingDataLocalAddress := by
  cases hs with
  | plain hs =>
      have heq := hs.awaiting h hb
      subst heq
      exact ⟨hb, rfl⟩
  | handed hs =>
      have heq := hs.awaiting h hb
      subst heq
      exact ⟨hb, rfl⟩

/-- Data for the line ends the wait; nothing else has an effect on it. -/
theorem Snooped.awaiting (hs : Snooped d c c') (h : c.Inv) (hb : c'.awaitingBusRead = true) :
    c.awaitingBusRead = true ∧ c'.awaitingDataLocalAddress = c.awaitingDataLocalAddress
      ∧ (d.commandCode.Delivers → d.payload ≠ c.awaitingDataLocalAddress) := by
  cases hs with
  | holdRead hd | holdReadX hd | holdInvalidate hd | holdInvalidateModified hd | holdShareMe hd
  | waitRead hd | waitReadX hd | waitInvalidate hd | waitShareMe hd =>
      exact ⟨hb, rfl, fun h0 => by simp [CommandCode.Delivers, hd] at h0⟩
  | data => cases hb
  | ignored hu =>
      refine ⟨hb, rfl, fun hd hpay => ?_⟩
      have hw : c.awaitsLocal d.payload = true :=
        awaitsLocal_iff.mpr ⟨h.waits hb, hpay.symm⟩
      rcases hu.miss hw with ⟨_, h0⟩ | h0
      · have hb : c.awaitingBusRead = true := hb
        rw [hb] at h0; cases h0
      · rcases hd with hd | hd | hd <;> rw [hd] at h0 <;> cases h0

/-- While a read is out, the queue has nothing that memory would take for its answer. -/
theorem Inv.not_cancels (h : c.Inv) (hb : c.awaitingBusRead = true) {r : BusRequest}
    (hr : r ∈ c.maxPriorityQueue) : ¬ Memory.Cancels r c.awaitingDataLocalAddress := by
  rintro ⟨hcode, hpay⟩
  cases (h.miss (h.awaiting hb)).stage with
  | queued _ h0 _ _ => rw [hb] at h0; cases h0
  | out _ _ _ _ _ hu =>
      have h0 := (hu r hr).2 hpay
      rcases hcode with h1 | h1 <;> rw [h0] at h1 <;> cases h1
  | answered _ h0 _ _ _ => rw [hb] at h0; cases h0

/-- A controller sends its read, or something that does not disturb it. -/
theorem Sent.awaiting (hs : Sent c d c') (h : c.Inv) (hb : c'.awaitingBusRead = true) :
    c'.awaitingDataLocalAddress = c.awaitingDataLocalAddress
      ∧ (d = c.missRequest ∨ c.awaitingBusRead = true
        ∧ ¬ Memory.Cancels d c.awaitingDataLocalAddress) := by
  cases hs with
  | nullBurst => exact ⟨rfl, Or.inr ⟨hb, fun h0 => by rcases h0.1 with h1 | h1 <;> cases h1⟩⟩
  | transfer hq | command hq =>
      exact ⟨rfl, Or.inr ⟨hb, h.not_cancels hb (List.mem_of_mem_getLast? hq)⟩⟩
  | read => exact ⟨rfl, Or.inl rfl⟩

end Controller

/-! ## Cycles -/

theorem answersComing_ticks {ic₀ ic₁ : Interconnect Node} (hv : Valid ps Q ic₀) (hv₁ : Valid ps Q ic₁)
    (ht : Ticks ic₀ ic₁) (h : AnswersComing ps ic₀) : AnswersComing ps ic₁ := by
  intro a c₁ m₁ hc₁ hm₁ hb
  obtain ⟨c, hc, hs⟩ := ht.controllerBefore hv hv₁ hc₁
  obtain ⟨m, hm, hmt⟩ := ht.memoryBefore hv hm₁
  obtain ⟨hb₀, hadx⟩ := hs.awaiting (hv.controller hc).inv hb
  rw [hadx]
  exact hmt.holds (h a c m hc hm hb₀)

/-- **Preserved by every cycle.** -/
theorem answersComing_cycle (hv : Valid ps Q s.interconnect) (hv' : Valid ps Q s'.interconnect)
    (hcycle : Cycle ps Q s mid req s') (h : AnswersComing ps s.interconnect) :
    AnswersComing ps s'.interconnect := by
  have hvm := hcycle.valid
  have hmid := answersComing_ticks hv hvm hcycle.ticks h
  intro a c' m' hc' hm' hb
  obtain ⟨c, hc⟩ := hvm.controllerBefore hv' hc'
  obtain ⟨m, hm, _⟩ := hvm.memory
  have hm := memoryAt_of_nodeAt hm
  have hi := (hvm.controller hc).inv
  have ha := (hvm.controller hc).nodeAddress
  have hold := hmid a c m hc hm
  cases hcycle.event with
  | quiet hctrl hmem _ _ =>
      obtain ⟨l, hl⟩ := hctrl a c hc
      obtain ⟨l', hl'⟩ := hmem _ m hm
      rw [hc'] at hl; cases hl
      rw [hm'] at hl'; cases hl'
      exact (hold hb).mono (fun p hp _ => hp) rfl rfl fun r hr _ _ _ => hr
  | @controller a₀ c₀ c₀' r _ hc₀ _ _ _ _ hs hc₀' hother hmem _ _ =>
      have hacc := hmem _ m hm
      rw [hm'] at hacc; cases hacc
      by_cases haa : a = a₀
      · subst haa
        rw [hc] at hc₀; cases hc₀
        rw [hc'] at hc₀'; cases hc₀'
        obtain ⟨hadx, rfl | ⟨hb₀, hno⟩⟩ := hs.awaiting hi.frame hb
        · have htrack := Memory.holds_of_read (m := m) (d := c.polled.missRequest)
            (c.polled.missCommand_cases.symm.imp And.left id)
          rw [hadx]
          rwa [show c.polled.missRequest.sourceAddress = a from ha] at htrack
        · rw [hadx]
          exact (hold hb₀).acceptBusTransaction hno
      · obtain ⟨d, hsn, hd⟩ := hother a c haa hc
        rw [hc'] at hd; cases hd
        obtain ⟨hb₀, hadx, hdel⟩ := hsn.awaiting hi hb
        rw [hadx]
        exact (hold hb₀).acceptBusTransaction fun h0 =>
          hdel (h0.1.imp id Or.inr) h0.2
  | @memory m₀ r rest _ hm₀ _ _ _ _ hq hm₀' hother _ _ =>
      rw [hm] at hm₀; cases hm₀
      rw [hm'] at hm₀'; cases hm₀'
      have hb₀ := hother a c hc
      by_cases hrec : Receives r a
      · rw [if_pos hrec] at hb₀
        obtain ⟨d, hsn, hd⟩ := hb₀
        rw [hc'] at hd; cases hd
        obtain ⟨hb₀, hadx, hdel⟩ := hsn.awaiting hi hb
        rw [hadx]
        refine (hold hb₀).mono (fun p hp _ => hp) rfl rfl fun r' hr' h₁ h₂ h₃ => ?_
        -- had this been the answer, the wait would be over
        rcases List.mem_cons.mp (hq ▸ hr') with rfl | hr'
        · exact absurd h₃ (hdel (Or.inr (Or.inl h₁)))
        · exact hr'
      · rw [if_neg hrec, hc'] at hb₀; cases hb₀
        refine (hold hb).mono (fun p hp _ => hp) rfl rfl fun r' hr' h₁ h₂ h₃ => ?_
        rcases List.mem_cons.mp (hq ▸ hr') with rfl | hr'
        · refine absurd ?_ hrec
          have hr := (hvm.controller hc).range
          rw [Receives, if_neg (by rw [h₂, BROADCAST_ADX]; omega), h₂]
        · exact hr'

/-- **No lost response**: a controller that waits for a line either still has its read in
the queue, and nothing else; or the read is out, and memory has an answer for it. -/
theorem no_lost_response (ps : Params) (h : List TickRecord) (s : System) (hrun : Run ps h s) :
    ∀ a c, controllerAt s.interconnect a = some c → c.Missing → c.awaitingDataLocal = true →
      (c.awaitingBusRead = false ∧ ∃ r, c.busReqQueue = [r]
        ∧ (r.commandCode = .busRead ∨ r.commandCode = .busReadX)
        ∧ r.payload = c.awaitingDataLocalAddress)
      ∨ (c.awaitingBusRead = true ∧ c.busReqQueue = [] ∧ ∃ m,
        memoryAt s.interconnect (ps.numProcessors + 1) = some m
        ∧ m.Holds c.awaitingDataLocalAddress a) := by
  have hcoming : AnswersComing ps s.interconnect := by
    refine Run.induct (P := fun _ s => AnswersComing ps s.interconnect) ?_ ?_ ?_ hrun
    · intro s hs a c m hc _ hb
      rw [hs.controller a c hc] at hb; cases hb
    · intro h s s' _ _ hins ih a c m hc hm hb
      exact ih a c m (by rw [← hins.controller]; exact hc) (by rw [← hins.memory]; exact hm) hb
    · exact fun h s mid req s' hok hok' hcycle ih => answersComing_cycle hok.valid hok'.valid hcycle ih
  intro a c hc hm hw
  cases ((hrun.ok.valid.controller hc).inv.miss hm).stage with
  | queued _ hb hq _ =>
      exact Or.inl ⟨hb, _, hq, c.missCommand_cases.symm.imp And.left id, rfl⟩
  | out _ hb hq _ _ _ =>
      obtain ⟨m, hmem, _⟩ := hrun.ok.valid.memory
      have hmem := memoryAt_of_nodeAt hmem
      exact Or.inr ⟨hb, hq, m, hmem, hcoming a c m hc hmem hb⟩
  | answered h0 _ _ _ _ => rw [hw] at h0; cases h0

/-- Two stores to one line, one tick before memory answers. -/
theorem no_lost_response_two_stores : ∃ h s, Run ⟨2, .msi, 3, 1⟩ h s ∧ ∃ a c,
    controllerAt s.interconnect a = some c ∧ c.awaitingBusRead = true ∧ ∃ m,
      memoryAt s.interconnect 3 = some m ∧ m.Holds c.awaitingDataLocalAddress a := by
  obtain ⟨h, s, hrun, hc⟩ := Run.of_run ⟨2, .msi, 3, 1⟩
    ([.insert .store 64 0, .insert .store 64 1] ++ List.replicate 4 .tick)
    (fun _ s => (controllerAt s.interconnect 1).any fun c =>
      c.Missing && c.awaitingDataLocal && c.awaitingBusRead) (by decide +kernel)
  obtain ⟨c, hc, hb⟩ := (Option.any_eq_true _ _).mp hc
  obtain ⟨⟨hm, hw⟩, hb⟩ : (c.Missing ∧ c.awaitingDataLocal = true) ∧ c.awaitingBusRead = true := by
    simpa using hb
  obtain ⟨h0, _⟩ | ⟨_, _, hmem⟩ := no_lost_response _ h s hrun 1 c hc hm hw
  · rw [hb] at h0; cases h0
  · exact ⟨h, s, hrun, 1, c, hc, hb, hmem⟩

end CoherenceSim
