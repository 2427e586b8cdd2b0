import CoherenceSim.Proof.Episodes

/-!
# Do stores take ownership?

A store retires when its controller clears `pendingInstructionFlag`. Before that it should have
made its line its own. It has, when the line was missing, modified or exclusive at lookup. When
the line was shared the store queues an `INVALIDATE` and goes on to `INVALIDATE_WAIT`, a state
that `getNextState` does not know: the next step is to `IDLE_STATE`, and
`UpdateCacheStore_Action` never runs.
-/

namespace CoherenceSim

/-- In this tick the controller clears `pendingInstructionFlag`. -/
def Retires (a : Nat) (i : Instruction) (rec : TickRecord) : Prop :=
  ∃ c c', controllerAt rec.before.interconnect a = some c ∧ c.pendingInstructionFlag = true
    ∧ c.currentInstruction = some i ∧ c.tick = .ok c' ∧ c'.pendingInstructionFlag = false

/-- `UpdateCacheStore_Action` runs in this tick: it makes the line `MODIFIED`, or queues a
`BUSWRITE` for it. -/
def Updates (a : Nat) (i : Instruction) (rec : TickRecord) : Prop :=
  ∃ c c', controllerAt rec.before.interconnect a = some c ∧ c.tick = .ok c'
    ∧ c'.currentState = .updateCacheStState
    ∧ (c'.cache.isModified i.address = .ok true
      ∨ ∃ r, c'.maxPriorityQueue = r :: c.maxPriorityQueue ∧ r.commandCode = .busWrite
        ∧ r.payload = c.cache.getLineAlignedAddress i.address)

/-- In this tick an `INVALIDATE` of the controller's own is on the bus. -/
def SendsInvalidate (a adx : Nat) (rec : TickRecord) : Prop :=
  ∃ r, rec.sent = some r ∧ r.sourceAddress = a ∧ r.commandCode = .invalidate ∧ r.payload = adx

/-- The store has made the line its own, and has told the sharers if there may be any. -/
structure TakesOwnership (a : Nat) (i : Instruction) (c : Controller) (recs : List TickRecord) :
    Prop where
  updates : ∃ rec ∈ recs, Updates a i rec
  invalidates : c.cache.isShared i.address = .ok true →
    ∃ rec ∈ recs, SendsInvalidate a (c.cache.getLineAlignedAddress i.address) rec

/-- Stores take ownership before they retire, in every run. -/
def StoresTakeOwnership (ps : Params) : Prop :=
  ∀ h s, Run ps h s → ∀ newer rec older, h = newer ++ rec :: older → ∀ a i, i.opcode = .store →
    Retires a i rec → ∃ recs c, Episode a i c recs older ∧ TakesOwnership a i c recs

variable {ps : Params} {Q : Instruction → Prop} {a : Nat} {i : Instruction} {c c' c₀ : Controller}
  {rec : TickRecord} {recs recs' older : List TickRecord}

/-! ## Where a store stands -/

/-- Where a store stands, by the state that a controller is in after these ticks of it. -/
inductive StoreStage (a : Nat) (i : Instruction) (c₀ : Controller) (recs : List TickRecord) :
    ControllerState → Prop
  | invalidating {s : ControllerState} : s = .issueInvalidateState ∨ s = .invalidateWait →
      c₀.cache.isShared i.address = .ok true → (∀ rec ∈ recs, ¬ Updates a i rec) →
      StoreStage a i c₀ recs s
  | missing : c₀.cache.isShared i.address ≠ .ok true → StoreStage a i c₀ recs .issueReadXState
  | updated : c₀.cache.isShared i.address ≠ .ok true → (∃ rec ∈ recs, Updates a i rec) →
      StoreStage a i c₀ recs .updateCacheStState

/-- Every store that a controller is at work on stands somewhere. -/
def StoresStaged (h : List TickRecord) (ic : Interconnect Node) : Prop :=
  ∀ a c i, controllerAt ic a = some c → c.currentState ≠ .idleState →
    c.currentInstruction = some i → i.opcode = .store →
    ∃ recs c₀, Episode a i c₀ recs h ∧ StoreStage a i c₀ recs c.currentState

theorem not_updates (hc : controllerAt rec.before.interconnect a = some c) (ht : c.tick = .ok c')
    (hs : c'.currentState ≠ .updateCacheStState) : ¬ Updates a i rec := by
  rintro ⟨d, d', hd, hd', hs', _⟩
  rw [hc] at hd; cases hd
  rw [ht] at hd'; cases hd'
  exact hs hs'

/-- **A step of the state machine takes a store to its next stage.** -/
theorem Controller.Transitioned.staged {c₁ : Controller} (hs : Transitioned c c₁) (hinv : c.Inv)
    (hc : controllerAt rec.before.interconnect a = some c) (ht : c.tick = .ok c₁.settle)
    (hne : c₁.currentState ≠ .idleState) (hi : c.currentInstruction = some i)
    (hstore : i.opcode = .store)
    (ih : c.currentState ≠ .idleState →
      ∃ recs c₀, Episode a i c₀ recs older ∧ StoreStage a i c₀ recs c.currentState) :
    ∃ recs c₀, Episode a i c₀ recs (rec :: older) ∧ StoreStage a i c₀ recs c₁.currentState := by
  have ok := hinv.cache
  have state {s : ControllerState} (hs : c.currentState = s) (h0 : s ≠ .idleState) :
      s.Serves .store := by
    obtain ⟨j, hj, hserve⟩ := hinv.serves (hinv.busy (hs ▸ h0))
    rw [hi] at hj; cases hj
    rwa [hstore, hs] at hserve
  -- the instruction was taken up before
  have work {s : ControllerState} (hs : c.currentState = s) (h0 : s ≠ .idleState) :
      ∃ recs c₀, Episode a i c₀ (rec :: recs) (rec :: older) ∧ StoreStage a i c₀ recs s := by
    have h0 : c.currentState ≠ .idleState := hs ▸ h0
    obtain ⟨recs, c₀, hep, hst⟩ := ih h0
    exact ⟨recs, c₀, .work ⟨c, hc, h0, hinv.busy h0, hi⟩ hep, hs ▸ hst⟩
  -- the miss is on the line of the instruction
  have line (hm : c.Missing) : lineKey i.address = lineKey c.awaitingDataLocalAddress := by
    obtain ⟨_, hinst⟩ := (hinv.miss hm).line
    exact hinst.lineKey_eq hi ok
  have updated {recs : List TickRecord} {c₀ : Controller}
      (hst : StoreStage a i c₀ recs .issueReadXState) (hup : Updates a i rec) :
      StoreStage a i c₀ (rec :: recs) .updateCacheStState := by
    cases hst with
    | invalidating h0 => rcases h0 with h0 | h0 <;> cases h0
    | missing hns => exact .updated hns ⟨rec, List.mem_cons_self, hup⟩
  cases hs with
  | rest hs => exact absurd hs hne
  | retire => exact absurd rfl hne
  | wait hm =>
      rcases hm with hs | hs
      · cases state hs (by simp)
      · obtain ⟨recs, c₀, hep, hst⟩ := work hs (by simp)
        rw [hs]
        cases hst with
        | invalidating h0 => rcases h0 with h0 | h0 <;> cases h0
        | missing hns => exact ⟨_, c₀, hep, .missing hns⟩
  | invalidateQueued hs =>
      obtain ⟨recs, c₀, hep, hst⟩ := work hs (by simp)
      cases hst with
      | invalidating _ hsh hno =>
          refine ⟨_, c₀, hep, .invalidating (Or.inr rfl) hsh fun rec' hrec => ?_⟩
          rcases List.mem_cons.mp hrec with rfl | hrec
          · exact not_updates hc ht (by simp [settle])
          · exact hno rec' hrec
  | loadHit _ _ hinst => rw [hinst.opcode_eq hi] at hstore; cases hstore
  | loadMiss _ _ hinst => rw [hinst.opcode_eq hi] at hstore; cases hstore
  | @storeHit adx m k hs hp hinst hm hown hput =>
      have hkey := hinst.lineKey_eq hi ok
      refine ⟨_, c, .lookup ⟨hc, hs, hp, hi⟩, .updated (fun h0 => ?_) ⟨rec, List.mem_singleton_self _,
        c, _, hc, ht, rfl, Or.inl (hput.ok.isModified_iff.mpr ?_)⟩⟩
      · have hget := ok.isShared_iff.mp h0
        rw [Cache.get, hkey, ← Cache.get, hm] at hget
        rcases hown with rfl | rfl <;> cases hget
      · rw [Cache.get, hkey]
        exact hput.get_self
  | @storeShared adx hs hp hinst hm =>
      refine ⟨_, c, .lookup ⟨hc, hs, hp, hi⟩, .invalidating (Or.inl rfl) (ok.isShared_iff.mpr ?_)
        fun rec' hrec => ?_⟩
      · rw [Cache.get, hinst.lineKey_eq hi ok]
        exact hm
      · rw [List.mem_singleton.mp hrec]
        exact not_updates hc ht (by simp [settle])
  | @storeMiss adx hs hp hinst hm =>
      refine ⟨_, c, .lookup ⟨hc, hs, hp, hi⟩, .missing fun h0 => ?_⟩
      have hget := ok.isShared_iff.mp h0
      rw [Cache.get, hinst.lineKey_eq hi ok, ← Cache.get, hm] at hget
      cases hget
  | loadDropped hs => cases state hs (by simp)
  | loadFilled hs => cases state hs (by simp)
  | storeDropped hs =>
      obtain ⟨recs, c₀, hep, hst⟩ := work hs (by simp)
      obtain ⟨_, hinst⟩ := (hinv.miss (Or.inr hs)).line
      refine ⟨_, c₀, hep, updated hst ⟨c, _, hc, ht, rfl, Or.inr ⟨_, rfl, rfl, ?_⟩⟩⟩
      show c.cache.getLineAlignedAddress c.awaitingDataLocalAddress = _
      rw [ok.getLineAlignedAddress_of_aligned (hinst.aligned ok)]
      obtain ⟨j, hj, _, hadx⟩ := hinst
      rw [hi] at hj; cases hj
      exact hadx.symm
  | @storeFilled k hs _ _ _ _ hfill =>
      obtain ⟨recs, c₀, hep, hst⟩ := work hs (by simp)
      refine ⟨_, c₀, hep, updated hst ⟨c, _, hc, ht, rfl, Or.inl (hfill.ok.isModified_iff.mpr ?_)⟩⟩
      rw [Cache.get, line (Or.inr hs)]
      exact hfill.get

/-- **Preserved by every cycle.** -/
theorem storesStaged_cycle {h : List TickRecord} {s mid s' : System} {req : Option BusRequest}
    (hok : s.Ok ps Q) (hok' : s'.Ok ps Q) (hcycle : Cycle ps Q s mid req s')
    (ih : StoresStaged h s.interconnect) :
    StoresStaged (⟨s, req, s'⟩ :: h) s'.interconnect := by
  intro a c'' i hc'' hne hi hstore
  obtain ⟨c', hc', hpassed⟩ := hcycle.event.passed hcycle.valid hok'.valid hc''
  obtain ⟨hstate, _, hinst⟩ := hpassed.sameState
  obtain ⟨c, hc, ht⟩ := hcycle.ticks.controllerBefore hok.valid hcycle.valid hc'
  have hinv := (hok.valid.controller hc).inv
  rw [hstate] at hne ⊢
  rw [hinst] at hi
  cases ht with
  | plain hs ht =>
      have hi₀ := hs.currentInstruction.symm.trans hi
      exact hs.staged hinv hc ht hne hi₀ hstore fun h0 => ih a c i hc h0 hi₀ hstore
  | handed hs _ hp =>
      -- a controller with no instruction is idle
      have hp' := (hs.inv hinv).busy hne
      rw [hp] at hp'; cases hp'

/-! ## Retirement -/

theorem Run.storesStaged {h : List TickRecord} {s : System} (hrun : Run ps h s) :
    StoresStaged h s.interconnect := by
  refine Run.induct (P := fun h s => StoresStaged h s.interconnect) ?_ ?_ ?_ hrun
  · intro s hs a c i hc hne
    rw [hs.controller a c hc] at hne
    exact absurd rfl hne
  · intro h s s' _ _ hins ih a c i hc
    exact ih a c i (by rw [← hins.controller]; exact hc)
  · exact fun h s mid req s' hok hok' hcycle ih => storesStaged_cycle hok hok' hcycle ih

/-- A controller that retires a store had nothing left to do for it. -/
theorem Controller.Transitioned.retires {c₁ : Controller} (hs : Transitioned c c₁)
    (hp : c.pendingInstructionFlag = true) (hp' : c₁.pendingInstructionFlag = false) :
    c.currentState = .updateCacheLdState ∨ c.currentState = .updateCacheStState
      ∨ c.currentState = .invalidateWait := by
  cases hs with
  | rest _ h0 => rw [hp] at h0; cases h0
  | retire hs => exact hs
  | wait | invalidateQueued | loadHit | loadMiss | storeHit | storeShared | storeMiss | loadDropped
  | loadFilled | storeDropped | storeFilled =>
      have hp' : c.pendingInstructionFlag = false := hp'
      rw [hp] at hp'; cases hp'

/-- **Stores that find their line `SHARED` do not take ownership, and all others do**, before
they retire. -/
theorem store_ownership (ps : Params) (h : List TickRecord) (s : System) (hrun : Run ps h s) :
    ∀ newer rec older, h = newer ++ rec :: older → ∀ a i, i.opcode = .store → Retires a i rec →
      (∃ recs c, Episode a i c recs older) ∧ ∀ recs c, Episode a i c recs older →
        (TakesOwnership a i c recs ↔ c.cache.isShared i.address ≠ .ok true) := by
  intro newer rec older hsplit a i hstore ⟨c, c', hc, hp, hi, ht, hp'⟩
  obtain ⟨hrun', _⟩ := hrun.of_split newer rec older hsplit
  have hinv := (hrun'.ok.valid.controller hc).inv
  obtain ⟨c₁, hs, ht'⟩ := hinv.tick
  rw [ht] at ht'; cases ht'
  have hstate := hs.retires hp hp'
  have hne : c.currentState ≠ .idleState := by rcases hstate with h0 | h0 | h0 <;> simp [h0]
  obtain ⟨recs, c₀, hep, hst⟩ := hrun'.storesStaged a c i hc hne hi hstore
  refine ⟨⟨recs, c₀, hep⟩, fun recs' c' hep' => ?_⟩
  obtain ⟨rfl, rfl⟩ := hep.unique hep'
  rcases hstate with h0 | h0 | h0 <;> rw [h0] at hst
  · cases hst with
    | invalidating h1 => rcases h1 with h1 | h1 <;> cases h1
  · cases hst with
    | invalidating h1 => rcases h1 with h1 | h1 <;> cases h1
    | updated hns hup => exact ⟨fun _ => hns, fun _ => ⟨hup, fun hsh => absurd hsh hns⟩⟩
  · cases hst with
    | invalidating _ hsh hno =>
        refine ⟨fun htakes => ?_, fun hns => absurd hsh hns⟩
        obtain ⟨rec', hrec, hup⟩ := htakes.updates
        exact absurd hup (hno rec' hrec)

/-- A load and then a store to one line, up to the tick in which the store retires. -/
def loadStore : List Event := [.insert .load 64 0, .insert .store 64 0] ++ List.replicate 11 .tick

theorem run_loadStore : ∃ rec older s i, Run ⟨1, .msi, 1, 2⟩ (rec :: older) s ∧ i.opcode = .store
    ∧ i.address = 64 ∧ Retires 1 i rec ∧ ∀ rec ∈ older, ¬ Updates 1 i rec := by
  let i : Instruction := ⟨.store, 64, by decide⟩
  obtain ⟨h, s, hrun, hp⟩ := Run.of_run ⟨1, .msi, 1, 2⟩ loadStore
    (fun h _ => (h.head?.any fun (rec : TickRecord) =>
        (controllerAt rec.before.interconnect 1).any fun (c : Controller) =>
          c.pendingInstructionFlag && decide (c.currentInstruction = some i)
            && c.tick.toOption.any fun (c' : Controller) => !c'.pendingInstructionFlag)
      && h.tail.all fun (rec : TickRecord) =>
        (controllerAt rec.before.interconnect 1).any fun (c : Controller) =>
          c.tick.toOption.any fun (c' : Controller) =>
            decide (c'.currentState ≠ .updateCacheStState))
    (by decide +kernel)
  obtain ⟨hret, hno⟩ := Bool.and_eq_true_iff.mp hp
  cases h with
  | nil => cases hret
  | cons rec older =>
      obtain ⟨rec', hrec', hret⟩ := (Option.any_eq_true _ _).mp hret
      cases hrec'
      refine ⟨rec, older, s, i, hrun, rfl, rfl, ?_, fun rec hrec => ?_⟩
      · obtain ⟨c, hc, hp⟩ := (Option.any_eq_true _ _).mp hret
        obtain ⟨hp, hret⟩ := Bool.and_eq_true_iff.mp hp
        obtain ⟨hp, hi⟩ := Bool.and_eq_true_iff.mp hp
        obtain ⟨c', ht, hret⟩ := Outcome.any_toOption.mp hret
        exact ⟨c, c', hc, hp, of_decide_eq_true hi, ht, by simpa using hret⟩
      · obtain ⟨c, hc, hp⟩ := (Option.any_eq_true _ _).mp (List.all_eq_true.mp hno rec hrec)
        obtain ⟨c', ht, hp⟩ := Outcome.any_toOption.mp hp
        exact not_updates hc ht (of_decide_eq_true hp)

theorem not_storesTakeOwnership : ¬ StoresTakeOwnership ⟨1, .msi, 1, 2⟩ := by
  intro hclaim
  obtain ⟨rec, older, s, i, hrun, hstore, _, hret, hno⟩ := run_loadStore
  obtain ⟨recs, c, hep, htakes⟩ := hclaim _ s hrun [] rec older rfl 1 i hstore hret
  obtain ⟨rec', hrec, hup⟩ := htakes.updates
  exact hno rec' (hep.subset hrec) hup

theorem store_ownership_load_store : ∃ rec older s i recs c,
    Run ⟨1, .msi, 1, 2⟩ (rec :: older) s ∧ Retires 1 i rec ∧ Episode 1 i c recs older
      ∧ ¬ TakesOwnership 1 i c recs ∧ c.cache.isShared 64 = .ok true := by
  obtain ⟨rec, older, s, i, hrun, hstore, haddr, hret, hno⟩ := run_loadStore
  obtain ⟨⟨recs, c, hep⟩, hiff⟩ := store_ownership _ _ s hrun [] rec older rfl 1 i hstore hret
  have htakes : ¬ TakesOwnership 1 i c recs := by
    intro htakes
    obtain ⟨rec', hrec, hup⟩ := htakes.updates
    exact hno rec' (hep.subset hrec) hup
  refine ⟨rec, older, s, i, recs, c, hrun, hret, hep, htakes, ?_⟩
  rw [← haddr]
  exact not_not.mp fun hns => htakes ((hiff recs c hep).mpr hns)

end CoherenceSim
