import CoherenceSim.Proof.ControllerSnoop

/-!
# What a controller puts on the bus

`bursting` is recomputed at the end of every tick from the request that is next. When the
bus comes round, a controller whose next request takes a burst sends a `NULL_BURST` until
the count is full, and then the request itself; any other request goes out at once.
-/

namespace CoherenceSim

namespace Controller

variable {c c' : Controller} {d : BusRequest}

/-- The controller with `bursting` brought up to date. -/
def settle (c : Controller) : Controller :=
  { c with bursting := (c.maxPriorityQueue.getLast?.map burstsFor).getD false }

/-- `bursting` is up to date. -/
def Settled (c : Controller) : Prop :=
  c.bursting = (c.maxPriorityQueue.getLast?.map burstsFor).getD false

/-- The handshake flag once a request with this code is sent. -/
def waitFlagAfter (c : Controller) (code : CommandCode) : Bool :=
  if code = c.outgoingCommandWaitCode then false else c.outgoingCommandWaitFlag

/-- What `initiateBusTransaction` can take from a controller, and make of it. -/
inductive Sent (c : Controller) : BusRequest → Controller → Prop
  | nullBurst {r : BusRequest} : c.maxPriorityQueue.getLast? = some r →
      burstsFor r = true → (c.burstCounter + 1) % 2 ^ 32 ≠ c.burstLen →
      Sent c ⟨.nullBurst, BROADCAST_ADX, c.nodeAddress, r.payload⟩
        { c with
          burstCounter := (c.burstCounter + 1) % 2 ^ 32
          outgoingCommandWaitFlag := c.waitFlagAfter .nullBurst }
  | transfer {r : BusRequest} : c.maxPriorityQueue.getLast? = some r →
      burstsFor r = true → (c.burstCounter + 1) % 2 ^ 32 = c.burstLen →
      Sent c r { c with
        maxPriorityQueue := c.maxPriorityQueue.dropLast
        burstCounter := 0
        outgoingCommandWaitFlag := c.waitFlagAfter r.commandCode }
  | command {r : BusRequest} : c.maxPriorityQueue.getLast? = some r →
      burstsFor r = false →
      Sent c r { c with
        maxPriorityQueue := c.maxPriorityQueue.dropLast
        outgoingCommandWaitFlag := c.waitFlagAfter r.commandCode }
  | read : c.maxPriorityQueue = [] → c.Missing → c.awaitingDataLocal = true →
      c.awaitingBusRead = false → ¬ c.GotData →
      Sent c c.missRequest { c with
        busReqQueue := []
        dispatchedBusRead := some c.missRequest
        awaitingBusRead := true
        outgoingCommandWaitFlag := c.waitFlagAfter c.missCommand }

/-- Sending fills no queue. -/
theorem Sent.mem_queue (hs : Sent c d c') {r : BusRequest} (hr : r ∈ c'.maxPriorityQueue) :
    r ∈ c.maxPriorityQueue := by
  cases hs with
  | nullBurst => exact hr
  | transfer => exact List.dropLast_subset _ hr
  | command => exact List.dropLast_subset _ hr
  | read => exact hr

/-! ## After a tick -/

theorem Inv.settle (h : c.Inv) : c.settle.Inv := h.frame

theorem Inv.updateBusBurstRequest (h : c.Inv) : c.updateBusBurstRequest = c.settle := by
  unfold Controller.updateBusBurstRequest
  cases hq : c.maxPriorityQueue.getLast? with
  | some r => rw [Controller.settle, hq]; rfl
  | none =>
      rw [Controller.settle, hq]
      cases hb : c.busReqQueue.getLast? with
      | none => rfl
      | some r =>
          obtain ⟨rfl, _⟩ := h.mem_busReqQueue (List.mem_of_mem_getLast? hb)
          rcases c.missCommand_cases with h0 | ⟨h0, _⟩ <;> simp [burstsFor, missRequest, h0]

/-- **A tick**: one step of the state machine, which leaves `bursting` up to date. -/
theorem Inv.tick (h : c.Inv) : ∃ c₁, Transitioned c c₁ ∧ c.tick = .ok c₁.settle := by
  obtain ⟨c₁, hc₁, hs⟩ := h.transitionState
  exact ⟨c₁, hs, by simp [Controller.tick, hc₁, (hs.inv h).updateBusBurstRequest]⟩

/-! ## Taking a request -/

theorem nextRequest_urgent {r : BusRequest} (hr : c.maxPriorityQueue.getLast? = some r) :
    c.nextRequest = .ok (r, true) := by
  have hpos : 0 < c.maxPriorityQueue.length := List.length_pos_of_mem (List.mem_of_mem_getLast? hr)
  simp [nextRequest, hpos, hr]

/-- The handshake flag is the last thing that sending touches. -/
theorem ite_waitFlag (c : Controller) (p : Prop) [Decidable p] :
    (if p then { c with outgoingCommandWaitFlag := false } else c)
      = { c with outgoingCommandWaitFlag := if p then false else c.outgoingCommandWaitFlag } := by
  split <;> rfl

theorem Inv.initiateBusTransaction (h : c.Inv) (hset : c.Settled)
    (hlock : c.bursting = true → c.nodeIsLocked = true) (hreq : c.requestsTransaction = true) :
    ∃ r c', c.initiateBusTransaction = .ok (r, c') ∧ Sent c r c' := by
  cases hq : c.maxPriorityQueue.getLast? with
  -- the urgent commands go first, and those that carry a line as a burst
  | some r =>
      have hburst : c.bursting = burstsFor r := by rw [hset, hq]; rfl
      have hnext := nextRequest_urgent hq
      have hcode := (h.urgent r (List.mem_of_mem_getLast? hq)).code.cases
      have hread : ¬ (r.commandCode = .busRead ∨ r.commandCode = .busReadX) := by
        rcases hcode with h0 | ⟨_, h0 | h0 | h0⟩ <;> simp [h0]
      cases hb : burstsFor r with
      | false =>
          rw [hb] at hburst
          refine ⟨r, _, ?_, .command hq hb⟩
          simp only [Controller.initiateBusTransaction, hnext, Outcome.ok_bind, hburst,
            Bool.false_eq_true, if_false, popBack, if_true, hread, Outcome.pure_eq_ok, ite_waitFlag]
          rfl
      | true =>
          rw [hb] at hburst
          by_cases hfull : (c.burstCounter + 1) % 2 ^ 32 = c.burstLen
          · refine ⟨r, _, ?_, .transfer hq hb hfull⟩
            simp only [Controller.initiateBusTransaction, hnext, Outcome.ok_bind, hburst, hasLock,
              hlock hburst, if_true, hfull, popBack, hread, if_false, Outcome.pure_eq_ok,
              ite_waitFlag]
            rfl
          · refine ⟨_, _, ?_, .nullBurst hq hb hfull⟩
            simp only [Controller.initiateBusTransaction, hnext, Outcome.ok_bind, hburst, hasLock,
              hlock hburst, if_true, hfull, if_false, Outcome.pure_eq_ok, ite_waitFlag]
            rfl
  -- otherwise there is the read of a miss, which has not gone out yet
  | none =>
      have hempty : c.maxPriorityQueue = [] := by simpa using hq
      have hburst : c.bursting = false := by rw [hset, hq]; rfl
      have hpos : 0 < c.busReqQueue.length := by
        simpa [Controller.requestsTransaction, hempty] using hreq
      obtain ⟨r, hr⟩ := List.exists_mem_of_length_pos hpos
      obtain ⟨_, hm, hw, hb⟩ := h.mem_busReqQueue hr
      have hread : c.missRequest.commandCode = .busRead ∨ c.missRequest.commandCode = .busReadX := by
        rcases c.missCommand_cases with h0 | ⟨h0, _⟩
        · exact Or.inr h0
        · exact Or.inl h0
      cases (h.miss hm).stage with
      | queued _ _ hlist hgot =>
          have hnext : c.nextRequest = .ok (c.missRequest, false) := by
            simp [nextRequest, hempty, hlist]
          refine ⟨c.missRequest, _, ?_, .read hempty hm hw hb hgot⟩
          simp only [Controller.initiateBusTransaction, hnext, Outcome.ok_bind, hburst,
            Bool.false_eq_true, if_false, popBack, hread, if_true, Outcome.pure_eq_ok, ite_waitFlag,
            hlist]
          rfl
      | out _ _ hlist _ _ _ => rw [hlist] at hr; cases hr
      | answered _ _ hlist _ _ => rw [hlist] at hr; cases hr

/-! ## The invariant -/

/-- **Preserved by `initiateBusTransaction`.** -/
theorem Sent.inv (hs : Sent c d c') (h : c.Inv) : c'.Inv := by
  have dropped {q : List BusRequest} (hq : ∀ r ∈ q, r ∈ c.maxPriorityQueue) :
      Inv { c with maxPriorityQueue := q } :=
    h.snoop h.cache h.allows (fun hm => (h.miss hm).absent) (fun r hr => h.urgent r (hq r hr))
      (fun r hr => Or.inl (hq r hr)) (Or.inl ⟨rfl, rfl, rfl⟩)
      fun h0 => ⟨(h.mi h0).1, (h.mi h0).2.1⟩
  cases hs with
  | nullBurst => exact h.frame
  | transfer => exact (dropped fun _ hr => List.dropLast_subset _ hr).frame
  | command => exact (dropped fun _ hr => List.dropLast_subset _ hr).frame
  | read hempty hm hw hb hgot =>
      obtain ⟨⟨opcode, hi⟩, ha, hq, _⟩ := h.miss hm
      have hsome : c.currentInstruction.isSome := by
        obtain ⟨i, h0, _⟩ := hi
        rw [h0]; rfl
      exact
        { cache := h.cache
          allows := h.allows
          urgent := h.urgent
          busy := h.busy
          serves := h.serves
          dispatched := fun _ => hsome
          idle := fun h0 => absurd hm (not_missing_of h0)
          rest := fun h0 => absurd hm h0
          miss := fun _ => ⟨⟨opcode, hi⟩, ha, hq, .out hw rfl rfl rfl hgot
            fun r hr => by rw [show _ = _ from hempty] at hr; cases hr⟩
          mi := h.mi }

/-- The request is one that the others can meet. -/
theorem Sent.receivable (hs : Sent c d c') (h : c.Inv) : Receivable c.controllerType d := by
  have urgent {r : BusRequest} (hq : c.maxPriorityQueue.getLast? = some r)
      (hb : c.controllerType = .mi → r.commandCode = .busWrite) : Receivable c.controllerType r :=
    ⟨(h.urgent r (List.mem_of_mem_getLast? hq)).payload, fun h0 => by simp [hb h0]⟩
  have code {r : BusRequest} (hq : c.maxPriorityQueue.getLast? = some r)
      (h0 : c.controllerType = .mi) : r.commandCode = .busWrite := by
    have := (h.urgent r (List.mem_of_mem_getLast? hq)).code
    rwa [h0] at this
  cases hs with
  | nullBurst hq => exact ⟨(urgent hq (code hq)).payload, fun _ => by simp⟩
  | transfer hq => exact urgent hq (code hq)
  | command hq => exact urgent hq (code hq)
  | read _ hm _ _ _ =>
      obtain ⟨_, hi⟩ := (h.miss hm).line
      refine ⟨hi.aligned h.cache, fun h0 => ?_⟩
      rcases c.missCommand_cases with h₁ | ⟨_, h₁⟩
      · simp [missRequest, h₁]
      · exact absurd h0 h₁

/-- Controllers broadcast everything, under their own address. -/
theorem Sent.broadcast (hs : Sent c d c') (h : c.Inv) :
    d.targetAddress = BROADCAST_ADX ∧ d.sourceAddress = c.nodeAddress := by
  have urgent {r : BusRequest} (hq : c.maxPriorityQueue.getLast? = some r) :
      r.targetAddress = BROADCAST_ADX ∧ r.sourceAddress = c.nodeAddress :=
    ⟨(h.urgent r (List.mem_of_mem_getLast? hq)).target,
      (h.urgent r (List.mem_of_mem_getLast? hq)).source⟩
  cases hs with
  | nullBurst => exact ⟨rfl, rfl⟩
  | transfer hq => exact urgent hq
  | command hq => exact urgent hq
  | read => exact ⟨rfl, rfl⟩

/-- Only memory answers from memory. -/
theorem Sent.not_dataReturnMemory (hs : Sent c d c') (h : c.Inv) :
    d.commandCode ≠ .dataReturnMemory := by
  have urgent {r : BusRequest} (hq : c.maxPriorityQueue.getLast? = some r) :
      r.commandCode ≠ .dataReturnMemory := by
    rcases (h.urgent r (List.mem_of_mem_getLast? hq)).code.cases with h0 | ⟨_, h0 | h0 | h0⟩ <;>
      simp [h0]
  cases hs with
  | nullBurst => exact fun h0 => by cases h0
  | transfer hq => exact urgent hq
  | command hq => exact urgent hq
  | read =>
      show c.missCommand ≠ .dataReturnMemory
      rcases c.missCommand_cases with h0 | ⟨h0, _⟩ <;> simp [h0]

theorem Sent.sameNode (hs : Sent c d c') : SameNode c c' := by
  cases hs <;> exact ⟨rfl, rfl, rfl, rfl⟩

/-- Sending is no step of the state machine. -/
theorem Sent.sameState (hs : Sent c d c') : c'.currentState = c.currentState
    ∧ c'.pendingInstructionFlag = c.pendingInstructionFlag
    ∧ c'.currentInstruction = c.currentInstruction ∧ c'.cache = c.cache := by
  cases hs <;> exact ⟨rfl, rfl, rfl, rfl⟩

end Controller

end CoherenceSim
