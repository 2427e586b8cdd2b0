import CoherenceSim.Proof.ControllerStep

/-!
# What a controller does about a command of another node

`Snooped` lists the outcomes of `acceptBusTransaction`: the controller holds the line, or
waits for it, or is waiting for the answer that this command is; or the command does not
concern it. Data for a line, whoever sends it, also cancels one `DATA_RETURN_PROCESSOR`
of that line that is still queued.
-/

namespace CoherenceSim

/-- The commands that end a wait. -/
def CommandCode.Delivers (code : CommandCode) : Prop :=
  code = .busWrite ∨ code = .dataReturnMemory ∨ code = .dataReturnProcessor

namespace Controller

variable {c c' : Controller} {d : BusRequest}

/-- The command by which a holder in this state answers a read. -/
def answerCode (m : MESI) : CommandCode :=
  if m = .modified then .busWrite else .dataReturnProcessor

/-- The maximum-priority queue after `cancelBusRequest`. -/
def uncancelled (d : BusRequest) (q : List BusRequest) : List BusRequest :=
  if d.commandCode = .dataReturnMemory ∨ d.commandCode = .dataReturnProcessor then
    q.eraseP fun r => r.commandCode = .dataReturnProcessor ∧ r.payload = d.payload
  else q

/-- What a controller can meet on the bus, given that all controllers are of one type. -/
structure Receivable (t : ControllerType) (d : BusRequest) : Prop where
  payload : Aligned d.payload
  mi : t = .mi → d.commandCode ≠ .busRead ∧ d.commandCode ≠ .invalidate ∧ d.commandCode ≠ .shareMe

/-- The command is none of this controller's business. -/
structure Unconcerned (c : Controller) (d : BusRequest) : Prop where
  line : c.cache.get d.payload ≠ none → d.commandCode.Delivers ∨ d.commandCode = .nullBurst
  miss : c.awaitsLocal d.payload = true →
    d.commandCode.Delivers ∧ c.awaitingBusRead = false ∨ d.commandCode = .nullBurst

/-- What `acceptBusTransaction` can make of a controller. -/
inductive Snooped (d : BusRequest) (c : Controller) : Controller → Prop
  | holdRead {m : MESI} {k : Cache} : d.commandCode = .busRead → c.cache.get d.payload = some m →
      c.controllerType ≠ .mi → c.cache.Put d.payload (some .shared) k →
      Snooped d c { c.queueMaxPriorityBusCommand (answerCode m) d.payload with cache := k }
  | holdReadX {m : MESI} {k : Cache} : d.commandCode = .busReadX →
      c.cache.get d.payload = some m → c.cache.Put d.payload none k →
      Snooped d c { c.queueMaxPriorityBusCommand (answerCode m) d.payload with cache := k }
  | holdInvalidate {m : MESI} {k : Cache} : d.commandCode = .invalidate →
      c.cache.get d.payload = some m → m ≠ .modified → c.cache.Put d.payload none k →
      Snooped d c { c with cache := k }
  | holdInvalidateModified {k : Cache} : d.commandCode = .invalidate →
      c.cache.get d.payload = some .modified → c.cache.Put d.payload none k →
      Snooped d c { c.queueMaxPriorityBusCommand .busWrite d.payload with cache := k }
  | holdShareMe {m : MESI} {k : Cache} : d.commandCode = .shareMe →
      c.cache.get d.payload = some m → c.controllerType ≠ .mi →
      c.cache.Put d.payload (some .shared) k → Snooped d c { c with cache := k }
  | waitRead : d.commandCode = .busRead → c.cache.get d.payload = none →
      c.awaitsLocal d.payload = true → c.controllerType ≠ .mi →
      Snooped d c { c.queueMaxPriorityBusCommand .shareMe d.payload with
        sawBusReadToMyIncomingAddress := true }
  | waitReadX : d.commandCode = .busReadX → c.cache.get d.payload = none →
      c.awaitsLocal d.payload = true →
      Snooped d c { c with sawBusReadXToMyIncomingAddress := true }
  | waitInvalidate : d.commandCode = .invalidate → c.cache.get d.payload = none →
      c.awaitsLocal d.payload = true → c.controllerType ≠ .mi →
      Snooped d c { c with sawInvalidateToMyIncomingAddress := true }
  | waitShareMe : d.commandCode = .shareMe → c.cache.get d.payload = none →
      c.awaitsLocal d.payload = true → c.controllerType ≠ .mi →
      Snooped d c { c with sawBusReadToMyIncomingAddress := true }
  | data : d.commandCode.Delivers → c.Missing → c.awaitingBusRead = true →
      c.awaitingDataLocalAddress = d.payload →
      Snooped d c { c with
        maxPriorityQueue := uncancelled d c.maxPriorityQueue
        gotDataReturnFromBusReadMemory := d.commandCode = .dataReturnMemory
        gotDataReturnFromBusReadProcessor := d.commandCode = .dataReturnProcessor
        snoopedDataReturnFromWriteback := d.commandCode = .busWrite
        awaitingBusRead := false
        awaitingDataLocal := false }
  | ignored : c.Unconcerned d →
      Snooped d c { c with maxPriorityQueue := uncancelled d c.maxPriorityQueue }

/-! ## Cancelling -/

theorem eraseRequest_getD (code : CommandCode) (payload : Nat) (q : List BusRequest) :
    (eraseRequest code payload q).getD q
      = q.eraseP fun r => r.commandCode = code ∧ r.payload = payload := by
  induction q with
  | nil => rfl
  | cons r q ih =>
      unfold eraseRequest
      by_cases h : r.commandCode = code ∧ r.payload = payload
      · simp [h]
      · rw [if_neg h, List.eraseP_cons_of_neg (by simpa using h), ← ih]
        cases eraseRequest code payload q <;> rfl

theorem eraseRequest_none {code : CommandCode} {payload : Nat} {q : List BusRequest}
    (h : ∀ r ∈ q, r.commandCode ≠ code) : eraseRequest code payload q = none := by
  induction q with
  | nil => rfl
  | cons r q ih =>
      unfold eraseRequest
      rw [if_neg fun h0 => h r List.mem_cons_self h0.1,
        ih fun r' hr' => h r' (List.mem_cons_of_mem _ hr')]
      rfl

theorem cancelBusRequest_eq {code : CommandCode} (payload : Nat)
    (h : ∀ r ∈ c.busReqQueue, r.commandCode ≠ code) :
    c.cancelBusRequest code payload = { c with
      maxPriorityQueue := c.maxPriorityQueue.eraseP fun r =>
        r.commandCode = code ∧ r.payload = payload } := by
  rw [cancelBusRequest, eraseRequest_none h, ← eraseRequest_getD]
  cases eraseRequest code payload c.maxPriorityQueue <;> rfl

theorem missCommand_cases (c : Controller) :
    c.missCommand = .busReadX ∨ c.missCommand = .busRead ∧ c.controllerType ≠ .mi := by
  unfold missCommand
  split
  · exact Or.inl rfl
  · cases ht : c.controllerType <;> simp [ControllerType.loadCommand]

/-- The ordinary queue holds at most the read of the miss. -/
theorem Inv.mem_busReqQueue (h : c.Inv) {r : BusRequest} (hr : r ∈ c.busReqQueue) :
    r = c.missRequest ∧ c.Missing ∧ c.awaitingDataLocal = true ∧ c.awaitingBusRead = false := by
  by_cases hm : c.Missing
  · cases (h.miss hm).stage with
    | queued hw hb hq _ =>
        rw [hq] at hr
        exact ⟨List.mem_singleton.mp hr, hm, hw, hb⟩
    | out _ _ hq _ _ _ => rw [hq] at hr; cases hr
    | answered _ _ hq _ _ => rw [hq] at hr; cases hr
  · rw [(h.rest hm).busReqQueue] at hr; cases hr

theorem Inv.noDataQueued (h : c.Inv) : ∀ r ∈ c.busReqQueue, r.commandCode ≠ .dataReturnProcessor := by
  intro r hr
  rw [(h.mem_busReqQueue hr).1]
  rcases c.missCommand_cases with h0 | ⟨h0, _⟩ <;> simp [missRequest, h0]

/-! ## Waiting -/

/-- `awaitingDataRemote`, for a controller that satisfies the invariant. -/
theorem Inv.awaitingDataRemote (h : c.Inv) (adx : Nat) :
    c.awaitingDataRemote adx
      = .ok (c.awaitingBusRead && c.awaitingDataLocalAddress = adx) := by
  unfold Controller.awaitingDataRemote
  by_cases hm : c.Missing
  · obtain ⟨⟨_, hi⟩, _, _, hstage⟩ := h.miss hm
    cases hstage with
    | queued _ hb _ _ =>
        cases c.dispatchedBusRead <;> simp [hb, hi.instructionLine]
    | out _ hb _ hd _ _ =>
        obtain ⟨r, hr⟩ := Option.isSome_iff_exists.mp hd
        simp [hr, hb, hi.instructionLine]
    | answered _ hb _ _ _ =>
        cases c.dispatchedBusRead <;> simp [hb, hi.instructionLine]
  · have hb := (h.rest hm).awaitingBusRead
    cases hd : c.dispatchedBusRead with
    | none => simp [hb]
    | some r =>
        obtain ⟨i, hi⟩ := Option.isSome_iff_exists.mp (h.dispatched (by simp [hd]))
        simp [hb, instructionLine, instructionAddress, hi]

theorem Inv.awaiting (h : c.Inv) (hb : c.awaitingBusRead = true) : c.Missing := by
  by_contra hm
  rw [(h.rest hm).awaitingBusRead] at hb; cases hb

theorem awaitsLocal_iff {adx : Nat} :
    c.awaitsLocal adx = true ↔ c.awaitingDataLocal = true ∧ c.awaitingDataLocalAddress = adx := by
  simp [awaitsLocal]

theorem Inv.missing_of_awaitsLocal (h : c.Inv) {adx : Nat} (hw : c.awaitsLocal adx = true) :
    c.Missing := by
  by_contra hm
  have := (awaitsLocal_iff.mp hw).1
  rw [(h.rest hm).awaitingDataLocal] at this; cases this

/-! ## The handlers -/

theorem answerRead_eq (ok : c.cache.Ok) {adx : Nat} {m : MESI} (hm : c.cache.get adx = some m)
    (hne : m ≠ .invalid) :
    c.answerRead adx = .ok (c.queueMaxPriorityBusCommand (answerCode m) adx) := by
  cases m with
  | invalid => exact absurd rfl hne
  | modified => simp [answerRead, ok.isExclusive hm, ok.isShared hm, ok.isModified hm, answerCode]
  | exclusive => simp [answerRead, ok.isExclusive hm, ok.isShared hm, answerCode]
  | shared => simp [answerRead, ok.isExclusive hm, ok.isShared hm, answerCode]

/-- A command that cancels nothing and concerns nobody here. -/
theorem Snooped.pass (hcode : d.commandCode ≠ .dataReturnMemory)
    (hcode' : d.commandCode ≠ .dataReturnProcessor) (hu : c.Unconcerned d) : Snooped d c c := by
  have h := Snooped.ignored hu
  rwa [uncancelled, if_neg (by simp [hcode, hcode'])] at h

theorem Inv.handleBusReadX (h : c.Inv) (hd : d.commandCode = .busReadX) :
    ∃ c', c.handleBusReadX d = .ok c' ∧ Snooped d c c' := by
  cases hm : c.cache.get d.payload with
  | some m =>
      obtain ⟨k, hk, hput⟩ := h.cache.invalidate hm
      refine ⟨_, ?_, .holdReadX hd hm hput⟩
      simp [Controller.handleBusReadX, h.cache.contains, hm,
        answerRead_eq h.cache hm (h.allows _ _ hm).ne_invalid, queueMaxPriorityBusCommand,
        addNewMaxPriorityBusRequest, hk, hput.ok.contains, hput.get_self]
  | none =>
      cases hw : c.awaitsLocal d.payload with
      | true =>
          refine ⟨_, ?_, .waitReadX hd hm hw⟩
          simp [Controller.handleBusReadX, h.cache.contains, hm, hw]
      | false =>
          refine ⟨c, ?_, .pass (by simp [hd]) (by simp [hd]) ⟨by simp [hm], by simp [hw]⟩⟩
          simp [Controller.handleBusReadX, h.cache.contains, hm, hw]

section Sharing

open SharingController

theorem Inv.handleBusRead (h : c.Inv) (hmi : c.controllerType ≠ .mi)
    (hd : d.commandCode = .busRead) : ∃ c', handleBusRead c d = .ok c' ∧ Snooped d c c' := by
  cases hm : c.cache.get d.payload with
  | some m =>
      obtain ⟨k, hk, hput⟩ := h.cache.setShared hm
      refine ⟨_, ?_, .holdRead hd hm hmi hput⟩
      simp [SharingController.handleBusRead, h.cache.contains, hm,
        answerRead_eq h.cache hm (h.allows _ _ hm).ne_invalid, queueMaxPriorityBusCommand,
        addNewMaxPriorityBusRequest, hk]
  | none =>
      cases hw : c.awaitsLocal d.payload with
      | true =>
          refine ⟨_, ?_, .waitRead hd hm hw hmi⟩
          simp [SharingController.handleBusRead, h.cache.contains, hm, hw]
          rfl
      | false =>
          refine ⟨c, ?_, .pass (by simp [hd]) (by simp [hd]) ⟨by simp [hm], by simp [hw]⟩⟩
          simp [SharingController.handleBusRead, h.cache.contains, hm, hw]

theorem Inv.handleInvalidate (h : c.Inv) (hmi : c.controllerType ≠ .mi)
    (hd : d.commandCode = .invalidate) : ∃ c', handleInvalidate c d = .ok c' ∧ Snooped d c c' := by
  cases hm : c.cache.get d.payload with
  | some m =>
      obtain ⟨k, hk, hput⟩ := h.cache.invalidate hm
      by_cases hmod : m = .modified
      · subst hmod
        refine ⟨_, ?_, .holdInvalidateModified hd hm hput⟩
        simp [SharingController.handleInvalidate, h.cache.contains, hm, h.cache.isModified hm,
          queueMaxPriorityBusCommand, addNewMaxPriorityBusRequest, hk]
      · refine ⟨_, ?_, .holdInvalidate hd hm hmod hput⟩
        simp [SharingController.handleInvalidate, h.cache.contains, hm, h.cache.isModified hm, hmod,
          hk]
  | none =>
      cases hw : c.awaitsLocal d.payload with
      | true =>
          refine ⟨_, ?_, .waitInvalidate hd hm hw hmi⟩
          simp [SharingController.handleInvalidate, h.cache.contains, hm, hw]
      | false =>
          refine ⟨c, ?_, .pass (by simp [hd]) (by simp [hd]) ⟨by simp [hm], by simp [hw]⟩⟩
          simp [SharingController.handleInvalidate, h.cache.contains, hm, hw]

theorem Inv.handleShareMe (h : c.Inv) (hmi : c.controllerType ≠ .mi)
    (hd : d.commandCode = .shareMe) : ∃ c', handleShareMe c d = .ok c' ∧ Snooped d c c' := by
  cases hm : c.cache.get d.payload with
  | some m =>
      by_cases hsh : m = .shared
      · subst hsh
        refine ⟨c, ?_, .holdShareMe (k := c.cache) hd hm hmi ⟨h.cache, fun key => ?_⟩⟩
        · simp [SharingController.handleShareMe, h.cache.contains, hm, h.cache.isShared hm]
        · split
          · rename_i hkey; rw [hkey, ← hm, Cache.get]
          · rfl
      · obtain ⟨k, hk, hput⟩ := h.cache.setShared hm
        refine ⟨_, ?_, .holdShareMe hd hm hmi hput⟩
        simp [SharingController.handleShareMe, h.cache.contains, hm, h.cache.isShared hm, hsh, hk]
  | none =>
      cases hw : c.awaitsLocal d.payload with
      | true =>
          refine ⟨_, ?_, .waitShareMe hd hm hw hmi⟩
          simp [SharingController.handleShareMe, h.cache.contains, hm, hw]
      | false =>
          refine ⟨c, ?_, .pass (by simp [hd]) (by simp [hd]) ⟨by simp [hm], by simp [hw]⟩⟩
          simp [SharingController.handleShareMe, h.cache.contains, hm, hw]

end Sharing

/-- Data that the controller does not wait for. -/
theorem unconcerned_of_delivers (hd : d.commandCode.Delivers)
    (hw : (c.awaitingBusRead && c.awaitingDataLocalAddress = d.payload) = false) :
    c.Unconcerned d := by
  refine ⟨fun _ => Or.inl hd, fun hl => Or.inl ⟨hd, ?_⟩⟩
  simpa [(awaitsLocal_iff.mp hl).2] using hw

/-- Before the answer comes, no data flag is set. -/
theorem Inv.noData (h : c.Inv) (hb : c.awaitingBusRead = true) :
    c.gotDataReturnFromBusReadMemory = false ∧ c.gotDataReturnFromBusReadProcessor = false
      ∧ c.snoopedDataReturnFromWriteback = false := by
  cases (h.miss (h.awaiting hb)).stage with
  | queued _ h0 _ _ => rw [hb] at h0; cases h0
  | out _ _ _ _ hg _ =>
      rw [GotData, not_or, not_or] at hg
      simpa using hg
  | answered _ h0 _ _ _ => rw [hb] at h0; cases h0

theorem Inv.handleBusWrite (h : c.Inv) (hd : d.commandCode = .busWrite) :
    ∃ c', c.handleBusWrite d = .ok c' ∧ Snooped d c c' := by
  have hdel : d.commandCode.Delivers := Or.inl hd
  cases hw : (c.awaitingBusRead && c.awaitingDataLocalAddress = d.payload) with
  | true =>
      obtain ⟨hb, ha⟩ : c.awaitingBusRead = true ∧ c.awaitingDataLocalAddress = d.payload := by
        simpa using hw
      refine ⟨_, ?_, .data hdel (h.awaiting hb) hb ha⟩
      simp [Controller.handleBusWrite, h.awaitingDataRemote, hw, uncancelled, hd, h.noData hb]
  | false =>
      refine ⟨c, ?_, .pass (by simp [hd]) (by simp [hd]) (unconcerned_of_delivers hdel hw)⟩
      simp [Controller.handleBusWrite, h.awaitingDataRemote, hw]

theorem Inv.handleDataReturnMemory (h : c.Inv) (hd : d.commandCode = .dataReturnMemory) :
    ∃ c', c.handleDataReturnMemory d = .ok c' ∧ Snooped d c c' := by
  have hdel : d.commandCode.Delivers := Or.inr (Or.inl hd)
  cases hw : (c.awaitingBusRead && c.awaitingDataLocalAddress = d.payload) with
  | true =>
      obtain ⟨hb, ha⟩ : c.awaitingBusRead = true ∧ c.awaitingDataLocalAddress = d.payload := by
        simpa using hw
      refine ⟨_, ?_, .data hdel (h.awaiting hb) hb ha⟩
      simp only [Controller.handleDataReturnMemory, h.awaitingDataRemote, hw, Outcome.ok_bind,
        if_true, Outcome.pure_eq_ok]
      rw [cancelBusRequest_eq]
      · simp [uncancelled, hd, h.noData hb]
      · exact h.noDataQueued
  | false =>
      refine ⟨_, ?_, .ignored (unconcerned_of_delivers hdel hw)⟩
      simp only [Controller.handleDataReturnMemory, h.awaitingDataRemote, hw, Outcome.ok_bind,
        Bool.false_eq_true, if_false, Outcome.pure_eq_ok]
      rw [cancelBusRequest_eq _ h.noDataQueued]
      simp [uncancelled, hd]

theorem Inv.handleDataReturnProcessor (h : c.Inv) (hd : d.commandCode = .dataReturnProcessor) :
    ∃ c', c.handleDataReturnProcessor d = .ok c' ∧ Snooped d c c' := by
  have hdel : d.commandCode.Delivers := Or.inr (Or.inr hd)
  cases hw : (c.awaitingBusRead && c.awaitingDataLocalAddress = d.payload) with
  | true =>
      obtain ⟨hb, ha⟩ : c.awaitingBusRead = true ∧ c.awaitingDataLocalAddress = d.payload := by
        simpa using hw
      refine ⟨_, ?_, .data hdel (h.awaiting hb) hb ha⟩
      simp only [Controller.handleDataReturnProcessor, h.awaitingDataRemote, hw, Outcome.ok_bind,
        if_true, Outcome.pure_eq_ok]
      rw [cancelBusRequest_eq]
      · simp [uncancelled, hd, h.noData hb]
      · exact h.noDataQueued
  | false =>
      refine ⟨_, ?_, .ignored (unconcerned_of_delivers hdel hw)⟩
      simp only [Controller.handleDataReturnProcessor, h.awaitingDataRemote, hw, Outcome.ok_bind,
        Bool.false_eq_true, if_false, Outcome.pure_eq_ok]
      rw [cancelBusRequest_eq _ h.noDataQueued]
      simp [uncancelled, hd]

theorem Snooped.nullBurst (hd : d.commandCode = .nullBurst) : Snooped d c c :=
  .pass (by simp [hd]) (by simp [hd]) ⟨fun _ => Or.inr hd, fun _ => Or.inr hd⟩

/-- **No fault in `acceptBusTransaction`**, and nothing but what `Snooped` says. -/
theorem Inv.acceptBusTransaction (h : c.Inv) (hr : Receivable c.controllerType d) :
    ∃ c', c.acceptBusTransaction d = .ok c' ∧ Snooped d c c' := by
  have sharing (hmi : c.controllerType ≠ .mi) :
      ∃ c', SharingController.acceptBusTransaction c d = .ok c' ∧ Snooped d c c' := by
    unfold SharingController.acceptBusTransaction
    cases hd : d.commandCode with
    | busRead => exact h.handleBusRead hmi hd
    | busReadX => exact h.handleBusReadX hd
    | busWrite => exact h.handleBusWrite hd
    | dataReturnMemory => exact h.handleDataReturnMemory hd
    | dataReturnProcessor => exact h.handleDataReturnProcessor hd
    | invalidate => exact h.handleInvalidate hmi hd
    | nullBurst => exact ⟨c, rfl, .nullBurst hd⟩
    | shareMe => exact h.handleShareMe hmi hd
  unfold Controller.acceptBusTransaction
  cases ht : c.controllerType with
  | mi =>
      obtain ⟨hnoRead, hnoInv, hnoShare⟩ := hr.mi ht
      show ∃ c', MIController.acceptBusTransaction c d = .ok c' ∧ _
      unfold MIController.acceptBusTransaction
      cases hd : d.commandCode with
      | busRead => exact absurd hd hnoRead
      | busReadX => exact h.handleBusReadX hd
      | busWrite => exact h.handleBusWrite hd
      | dataReturnMemory => exact h.handleDataReturnMemory hd
      | dataReturnProcessor => exact h.handleDataReturnProcessor hd
      | invalidate => exact absurd hd hnoInv
      | nullBurst => exact ⟨c, rfl, .nullBurst hd⟩
      | shareMe => exact absurd hd hnoShare
  | msi => exact sharing (by simp [ht])
  | mesi => exact sharing (by simp [ht])

/-! ## The invariant -/

theorem uncancelled_sublist (d : BusRequest) (q : List BusRequest) :
    (uncancelled d q).Sublist q := by
  unfold uncancelled
  split
  · exact List.eraseP_sublist
  · exact List.Sublist.refl q

theorem mem_uncancelled {q : List BusRequest} {r : BusRequest} (h : r ∈ uncancelled d q) : r ∈ q :=
  (uncancelled_sublist d q).subset h

/-- What a command does to the queue: it cancels, or it makes the controller queue something about
the same line. That is an answer, if the command is a read, and otherwise a write-back. -/
theorem Snooped.queue (hs : Snooped d c c') :
    c'.maxPriorityQueue.Sublist c.maxPriorityQueue
      ∨ ∃ code, c'.maxPriorityQueue = c.makeRequest code d.payload :: c.maxPriorityQueue
        ∧ (d.commandCode = .busRead ∨ d.commandCode = .busReadX
          ∨ d.commandCode = .invalidate ∧ code = .busWrite) := by
  cases hs with
  | @holdRead m _ hd => exact Or.inr ⟨answerCode m, rfl, Or.inl hd⟩
  | @holdReadX m _ hd => exact Or.inr ⟨answerCode m, rfl, Or.inr (Or.inl hd)⟩
  | holdInvalidateModified hd => exact Or.inr ⟨.busWrite, rfl, Or.inr (Or.inr ⟨hd, rfl⟩)⟩
  | waitRead hd => exact Or.inr ⟨.shareMe, rfl, Or.inl hd⟩
  | holdInvalidate | holdShareMe | waitReadX | waitInvalidate | waitShareMe =>
      exact Or.inl (List.Sublist.refl _)
  | data | ignored => exact Or.inl (uncancelled_sublist d _)

/-- What snooping leaves alone, and so need not be stated for each outcome. -/
theorem Inv.frame (h : c.Inv) {a b f : Bool} {n : Nat} :
    Inv { c with nodeIsLocked := a, bursting := b, burstCounter := n, outgoingCommandWaitFlag := f }
    where
  cache := h.cache
  allows := h.allows
  urgent := h.urgent
  busy := h.busy
  serves := h.serves
  dispatched := h.dispatched
  idle h0 := ⟨(h.idle h0).noData, (h.idle h0).queuedBusRead, (h.idle h0).sawBusRead,
    (h.idle h0).sawBusReadX, (h.idle h0).sawInvalidate⟩
  rest h0 := ⟨(h.rest h0).awaitingDataLocal, (h.rest h0).awaitingBusRead, (h.rest h0).busReqQueue⟩
  miss h0 := by
    obtain ⟨hl, ha, hq, hstage⟩ := h.miss h0
    refine ⟨hl, ha, hq, ?_⟩
    cases hstage with
    | queued h₁ h₂ h₃ h₄ => exact .queued h₁ h₂ h₃ h₄
    | out h₁ h₂ h₃ h₄ h₅ h₆ => exact .out h₁ h₂ h₃ h₄ h₅ h₆
    | answered h₁ h₂ h₃ h₄ h₅ => exact .answered h₁ h₂ h₃ h₄ h₅
  mi := h.mi

/-- A snoop that changes the cache, the maximum-priority queue and the flags. -/
theorem Inv.snoop (h : c.Inv) {k : Cache} (hk : k.Ok)
    (hal : ∀ key m, k.stateAt key = some m → c.controllerType.Allows m)
    (hnew : c.Missing → k.get c.awaitingDataLocalAddress = none) {q : List BusRequest}
    (hq : ∀ r ∈ q, UrgentRequest c.controllerType c.nodeAddress r)
    (hu : ∀ r ∈ q, r ∈ c.maxPriorityQueue ∨ r.commandCode ≠ .invalidate
      ∧ (c.Missing → r.payload = c.awaitingDataLocalAddress → r.commandCode = .shareMe))
    {f₁ f₂ f₃ : Bool}
    (hf : f₁ = c.sawBusReadToMyIncomingAddress ∧ f₂ = c.sawBusReadXToMyIncomingAddress
      ∧ f₃ = c.sawInvalidateToMyIncomingAddress ∨ c.Missing)
    (hmi : c.controllerType = .mi → f₁ = false ∧ f₃ = false) :
    Inv { c with
      cache := k
      maxPriorityQueue := q
      sawBusReadToMyIncomingAddress := f₁
      sawBusReadXToMyIncomingAddress := f₂
      sawInvalidateToMyIncomingAddress := f₃ } where
  cache := hk
  allows := hal
  urgent := hq
  busy := h.busy
  serves := h.serves
  dispatched := h.dispatched
  idle h0 := by
    have hc := h.idle h0
    obtain ⟨rfl, rfl, rfl⟩ := hf.resolve_right (not_missing_of h0)
    exact ⟨hc.noData, hc.queuedBusRead, hc.sawBusRead, hc.sawBusReadX, hc.sawInvalidate⟩
  rest h0 := ⟨(h.rest h0).awaitingDataLocal, (h.rest h0).awaitingBusRead, (h.rest h0).busReqQueue⟩
  miss h0 := by
    obtain ⟨⟨_, hi⟩, _, hqueued, hstage⟩ := h.miss h0
    refine ⟨⟨_, hi.of_cache h.cache hk rfl⟩, hnew h0, hqueued, ?_⟩
    have unburdened (hold : c.Unburdened) (r : BusRequest) (hr : r ∈ q) :
        r.commandCode ≠ .invalidate
          ∧ (r.payload = c.awaitingDataLocalAddress → r.commandCode = .shareMe) := by
      rcases hu r hr with hr | ⟨h₁, h₂⟩
      · exact hold r hr
      · exact ⟨h₁, h₂ h0⟩
    cases hstage with
    | queued h₁ h₂ h₃ h₄ => exact .queued h₁ h₂ h₃ h₄
    | out h₁ h₂ h₃ h₄ h₅ h₆ => exact .out h₁ h₂ h₃ h₄ h₅ (unburdened h₆)
    | answered h₁ h₂ h₃ h₄ h₅ => exact .answered h₁ h₂ h₃ h₄ (unburdened h₅)
  mi h0 := ⟨(hmi h0).1, (hmi h0).2, (h.mi h0).2.2⟩

/-- The parts of a controller that only its constructor and the interconnect set. -/
structure SameNode (c c' : Controller) : Prop where
  controllerType : c'.controllerType = c.controllerType
  nodeAddress : c'.nodeAddress = c.nodeAddress
  burstLen : c'.burstLen = c.burstLen
  nodeIsLocked : c'.nodeIsLocked = c.nodeIsLocked

theorem Snooped.sameNode (hs : Snooped d c c') : SameNode c c' := by
  cases hs <;> exact ⟨rfl, rfl, rfl, rfl⟩

/-- Snooping is no step of the state machine. -/
theorem Snooped.sameState (hs : Snooped d c c') : c'.currentState = c.currentState
    ∧ c'.pendingInstructionFlag = c.pendingInstructionFlag
    ∧ c'.currentInstruction = c.currentInstruction ∧ c'.burstCounter = c.burstCounter := by
  cases hs <;> exact ⟨rfl, rfl, rfl, rfl⟩

/-- A miss is on another line than the ones the cache holds. -/
theorem Inv.ne_of_held (h : c.Inv) (hm : c.Missing) {adx : Nat} {m : MESI}
    (hheld : c.cache.get adx = some m) : lineKey c.awaitingDataLocalAddress ≠ lineKey adx := by
  intro hkey
  have := (h.miss hm).absent
  rw [Cache.get, hkey, ← Cache.get, hheld] at this; cases this

theorem answerCode_urgent {t : ControllerType} {m : MESI} (h : t.Allows m) :
    t.Urgent (answerCode m) := by
  unfold answerCode
  split
  · exact ControllerType.urgent_busWrite t
  · rename_i hne
    refine ControllerType.urgent_of_ne_mi ?_ (Or.inl rfl)
    rintro rfl
    exact hne h

theorem answerCode_ne_invalidate (m : MESI) : answerCode m ≠ .invalidate := by
  unfold answerCode
  split <;> simp

/-- **Preserved by `acceptBusTransaction`.** -/
theorem Snooped.inv (hs : Snooped d c c') (h : c.Inv) (hr : Receivable c.controllerType d) :
    c'.Inv := by
  have hmi : c.controllerType = .mi → c.sawBusReadToMyIncomingAddress = false
      ∧ c.sawInvalidateToMyIncomingAddress = false := fun h0 => ⟨(h.mi h0).1, (h.mi h0).2.1⟩
  have absent {m : MESI} {v : Option MESI} {k : Cache} (hheld : c.cache.get d.payload = some m)
      (hput : c.cache.Put d.payload v k) (hm : c.Missing) :
      k.get c.awaitingDataLocalAddress = none := by
    rw [hput.get_of_ne (h.ne_of_held hm hheld), (h.miss hm).absent]
  -- a request about a held line does not burden a miss
  have pushed {m : MESI} {code : CommandCode} (hheld : c.cache.get d.payload = some m)
      (hcode : code ≠ .invalidate) :
      ∀ r ∈ c.makeRequest code d.payload :: c.maxPriorityQueue, r ∈ c.maxPriorityQueue
        ∨ r.commandCode ≠ .invalidate
          ∧ (c.Missing → r.payload = c.awaitingDataLocalAddress → r.commandCode = .shareMe) := by
    intro r hr0
    rcases List.mem_cons.mp hr0 with rfl | hr0
    · refine Or.inr ⟨hcode, fun hm hadx => ?_⟩
      rw [show (c.makeRequest code d.payload).payload = d.payload from
        h.cache.getLineAlignedAddress_of_aligned hr.payload] at hadx
      exact absurd (by rw [hadx]) (h.ne_of_held hm hheld)
    · exact Or.inl hr0
  have kept : ∀ r ∈ c.maxPriorityQueue, r ∈ c.maxPriorityQueue ∨ r.commandCode ≠ .invalidate
      ∧ (c.Missing → r.payload = c.awaitingDataLocalAddress → r.commandCode = .shareMe) :=
    fun _ h0 => Or.inl h0
  cases hs with
  | holdRead hd hheld hnmi hput =>
      exact h.snoop hput.ok
        (h.allows_of_put hput fun _ h0 => by cases h0; exact ControllerType.allows_shared hnmi)
        (absent hheld hput) (h.urgent_cons hr.payload (answerCode_urgent (h.allows _ _ hheld)))
        (pushed hheld (answerCode_ne_invalidate _)) (Or.inl ⟨rfl, rfl, rfl⟩) hmi
  | holdReadX hd hheld hput =>
      exact h.snoop hput.ok (h.allows_of_put hput fun _ h0 => by cases h0) (absent hheld hput)
        (h.urgent_cons hr.payload (answerCode_urgent (h.allows _ _ hheld)))
        (pushed hheld (answerCode_ne_invalidate _)) (Or.inl ⟨rfl, rfl, rfl⟩) hmi
  | holdInvalidate hd hheld hne hput =>
      exact h.snoop hput.ok (h.allows_of_put hput fun _ h0 => by cases h0) (absent hheld hput)
        h.urgent kept (Or.inl ⟨rfl, rfl, rfl⟩) hmi
  | holdInvalidateModified hd hheld hput =>
      exact h.snoop hput.ok (h.allows_of_put hput fun _ h0 => by cases h0) (absent hheld hput)
        (h.urgent_cons hr.payload (ControllerType.urgent_busWrite _)) (pushed hheld (by simp))
        (Or.inl ⟨rfl, rfl, rfl⟩) hmi
  | holdShareMe hd hheld hnmi hput =>
      exact h.snoop hput.ok
        (h.allows_of_put hput fun _ h0 => by cases h0; exact ControllerType.allows_shared hnmi)
        (absent hheld hput) h.urgent kept (Or.inl ⟨rfl, rfl, rfl⟩) hmi
  | waitRead hd hnone hw hnmi =>
      refine h.snoop h.cache h.allows (fun hm => (h.miss hm).absent)
        (h.urgent_cons hr.payload (ControllerType.urgent_of_ne_mi hnmi (Or.inr (Or.inr rfl)))) ?_
        (Or.inr (h.missing_of_awaitsLocal hw)) fun h0 => absurd h0 hnmi
      intro r hr0
      rcases List.mem_cons.mp hr0 with rfl | hr0
      · exact Or.inr ⟨by simp [makeRequest], fun _ _ => rfl⟩
      · exact Or.inl hr0
  | waitReadX hd hnone hw =>
      exact h.snoop h.cache h.allows (fun hm => (h.miss hm).absent) h.urgent kept
        (Or.inr (h.missing_of_awaitsLocal hw)) hmi
  | waitInvalidate hd hnone hw hnmi =>
      exact h.snoop h.cache h.allows (fun hm => (h.miss hm).absent) h.urgent kept
        (Or.inr (h.missing_of_awaitsLocal hw)) fun h0 => absurd h0 hnmi
  | waitShareMe hd hnone hw hnmi =>
      exact h.snoop h.cache h.allows (fun hm => (h.miss hm).absent) h.urgent kept
        (Or.inr (h.missing_of_awaitsLocal hw)) fun h0 => absurd h0 hnmi
  | data hd hm hb hadx =>
      obtain ⟨hl, ha, hq, hstage⟩ := h.miss hm
      have hempty : c.busReqQueue = [] ∧ c.Unburdened := by
        cases hstage with
        | queued _ h0 _ _ => rw [hb] at h0; cases h0
        | out _ _ h₁ _ _ h₂ => exact ⟨h₁, h₂⟩
        | answered _ h0 _ _ _ => rw [hb] at h0; cases h0
      have hdata : GotData { c with
          gotDataReturnFromBusReadMemory := d.commandCode = .dataReturnMemory
          gotDataReturnFromBusReadProcessor := d.commandCode = .dataReturnProcessor
          snoopedDataReturnFromWriteback := d.commandCode = .busWrite } := by
        rcases hd with hd | hd | hd <;> simp [GotData, hd]
      exact
        { cache := h.cache
          allows := h.allows
          urgent := fun r hr0 => h.urgent r (mem_uncancelled hr0)
          busy := h.busy
          serves := h.serves
          dispatched := h.dispatched
          idle := fun h0 => absurd hm (not_missing_of h0)
          rest := fun h0 => absurd hm h0
          miss := fun _ => ⟨hl, ha, hq, .answered rfl rfl hempty.1 hdata
            fun r hr0 => hempty.2 r (mem_uncancelled hr0)⟩
          mi := h.mi }
  | ignored hu =>
      exact h.snoop h.cache h.allows (fun hm => (h.miss hm).absent)
        (fun r hr0 => h.urgent r (mem_uncancelled hr0)) (fun _ hr0 => Or.inl (mem_uncancelled hr0))
        (Or.inl ⟨rfl, rfl, rfl⟩) hmi

end Controller

end CoherenceSim
