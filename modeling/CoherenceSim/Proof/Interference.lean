import CoherenceSim.Proof.Episodes

/-!
# Who installs the line

A controller that waits for a line takes note of what others do to it, in three flags, and drops
the line if someone else is to have it. The flags are set from the tick in which the read is
queued, and not only from the one in which it is on the bus. So a command of another node that
came first still makes the last requester drop its line.

The flags say exactly what was on the bus in the ticks of the episode (`Listened`).
-/

namespace CoherenceSim

/-- One of these commands for the line, of another node, is on the bus. -/
def Hears (a adx : Nat) (codes : List CommandCode) (rec : TickRecord) : Prop :=
  ∃ r, rec.sent = some r ∧ r.sourceAddress ≠ a ∧ r.payload = adx ∧ r.commandCode ∈ codes

/-- The controller's own read of the line is on the bus. -/
def SendsRead (a adx : Nat) (rec : TickRecord) : Prop :=
  ∃ r, rec.sent = some r ∧ r.sourceAddress = a ∧ r.payload = adx
    ∧ (r.commandCode = .busRead ∨ r.commandCode = .busReadX)

/-- Data of the line is on the bus. -/
def Brings (adx : Nat) (rec : TickRecord) : Prop :=
  ∃ r, rec.sent = some r ∧ r.payload = adx ∧ r.commandCode.Delivers

instance (a adx : Nat) (rec : TickRecord) : Decidable (SendsRead a adx rec) :=
  decidable_of_iff (rec.sent.any fun r => decide (r.sourceAddress = a ∧ r.payload = adx
    ∧ (r.commandCode = .busRead ∨ r.commandCode = .busReadX)))
    (by simp only [Option.any_eq_true, decide_eq_true_eq]; rfl)

instance (adx : Nat) (rec : TickRecord) : Decidable (Brings adx rec) :=
  decidable_of_iff (rec.sent.any fun r => decide (r.payload = adx
    ∧ (r.commandCode = .busWrite ∨ r.commandCode = .dataReturnMemory
      ∨ r.commandCode = .dataReturnProcessor)))
    (by simp only [Option.any_eq_true, decide_eq_true_eq]; rfl)

/-- The commands of a node that wants the line. -/
def wanting : List CommandCode := [.busRead, .busReadX, .invalidate, .shareMe]

/-- The commands that make the instruction drop its line. -/
def dropping : Opcode → List CommandCode
  | .store => wanting
  | _ => [.busReadX, .invalidate]

/-- In this tick the `UpdateCache` action of a miss runs, and leaves the controller as `c'`. -/
structure UpdatesMiss (a : Nat) (i : Instruction) (rec : TickRecord) (c c' : Controller) :
    Prop where
  controller : controllerAt rec.before.interconnect a = some c
  missing : c.Missing
  instruction : c.currentInstruction = some i
  tick : c.tick = .ok c'
  updated : c'.currentState = .updateCacheLdState ∨ c'.currentState = .updateCacheStState

/-- The ticks of a miss, up to the one that brought the data: `early` before the tick `sent` in
which its read was on the bus, and `late` between the two. -/
structure Fetched (a adx : Nat) (i : Instruction) (data : TickRecord) (late : List TickRecord)
    (sent : TickRecord) (early older : List TickRecord) : Prop where
  episode : ∃ c, Episode a i c (data :: late ++ sent :: early) older
  read : SendsRead a adx sent
  data : Brings adx data

/-- The last requester installs the line. -/
def LastInstalls (ps : Params) : Prop := ∀ h s, Run ps h s → ∀ newer rec older,
  h = newer ++ rec :: older → ∀ a i c c', UpdatesMiss a i rec c c' →
    ∀ data late sent early,
      Fetched a (c.cache.getLineAlignedAddress i.address) i data late sent early older →
      (∀ x ∈ late, ¬ Hears a (c.cache.getLineAlignedAddress i.address) wanting x) →
      c'.cache.contains i.address = .ok true

/-- The flags in which a waiting controller takes note of what others do to its line. -/
inductive Note
  | sawBusRead
  | sawBusReadX
  | sawInvalidate

def Note.flag : Note → Controller → Bool
  | .sawBusRead => Controller.sawBusReadToMyIncomingAddress
  | .sawBusReadX => Controller.sawBusReadXToMyIncomingAddress
  | .sawInvalidate => Controller.sawInvalidateToMyIncomingAddress

/-- The commands that set the flag. -/
def Note.codes : Note → List CommandCode
  | .sawBusRead => [.busRead, .shareMe]
  | .sawBusReadX => [.busReadX]
  | .sawInvalidate => [.invalidate]

/-- The instruction drops its line if the flag is set. -/
def Note.Heeded (opcode : Opcode) (n : Note) : Prop := opcode = .store ∨ n ≠ .sawBusRead

/-- What a miss knows of its ticks. -/
structure Listened (a : Nat) (c : Controller) (recs : List TickRecord) : Prop where
  flag : ∀ n : Note, n.flag c = true ↔
    ∃ x ∈ recs, Hears a c.awaitingDataLocalAddress n.codes x
  sent : c.awaitingBusRead = true → ∃ x ∈ recs, SendsRead a c.awaitingDataLocalAddress x
  answered : c.awaitingDataLocal = false → ∃ data rest, recs = data :: rest
    ∧ Brings c.awaitingDataLocalAddress data
    ∧ ∃ x ∈ rest, SendsRead a c.awaitingDataLocalAddress x

/-- Every miss has listened since its lookup. -/
def MissesListened (h : List TickRecord) (ic : Interconnect Node) : Prop :=
  ∀ a c i, controllerAt ic a = some c → c.Missing → c.currentInstruction = some i →
    ∃ recs c₀, Episode a i c₀ recs h ∧ Listened a c recs

variable {ps : Params} {Q : Instruction → Prop} {s mid s' : System} {req : Option BusRequest}
  {a adx : Nat} {i : Instruction} {c c' : Controller} {d : BusRequest} {rec : TickRecord}
  {recs older : List TickRecord} {n : Note}

/-! ## Listening -/

theorem Note.not_delivers {code : CommandCode} (hn : code ∈ n.codes) :
    ¬ (code.Delivers ∨ code = .nullBurst) := by
  cases n <;> simp only [Note.codes, List.mem_cons, List.not_mem_nil, or_false] at hn
  · rcases hn with rfl | rfl <;> simp [CommandCode.Delivers]
  · simp [hn, CommandCode.Delivers]
  · simp [hn, CommandCode.Delivers]

namespace Controller

/-- A miss is not over until its data has come. -/
theorem Transitioned.awaitingDataLocal (hs : Transitioned c c') (hm : c'.Missing) :
    c'.awaitingDataLocal = true := by
  have elsewhere {s : ControllerState} (h0 : c'.currentState = s)
      (hne : s ≠ .issueReadState ∧ s ≠ .issueReadXState) : c'.awaitingDataLocal = true :=
    absurd hm (not_missing_of h0 hne.1 hne.2)
  cases hs with
  | wait _ hw => exact hw
  | loadMiss | storeMiss => rfl
  | rest hs => exact elsewhere hs (by simp)
  | retire => exact elsewhere (s := .idleState) rfl (by simp)
  | invalidateQueued | loadHit | storeHit | storeShared | loadDropped | loadFilled | storeDropped
  | storeFilled => exact elsewhere rfl (by simp)

/-- **What a waiting controller takes note of.** -/
theorem Snooped.flag (hs : Snooped d c c') (h : c.Inv) (hm : c.Missing)
    (hw : c.awaitingDataLocal = true) (n : Note) : n.flag c' = true ↔ n.flag c = true
      ∨ d.payload = c.awaitingDataLocalAddress ∧ d.commandCode ∈ n.codes := by
  have habsent := (h.miss hm).absent
  -- a line that is held is not the one that is awaited
  have held {m : MESI} (hget : c.cache.get d.payload = some m)
      (hsame : n.flag c' = n.flag c) : n.flag c' = true ↔ n.flag c = true
        ∨ d.payload = c.awaitingDataLocalAddress ∧ d.commandCode ∈ n.codes := by
    have hne : d.payload ≠ c.awaitingDataLocalAddress := by
      intro h0
      rw [h0, habsent] at hget
      cases hget
    rw [hsame]
    exact ⟨Or.inl, fun h0 => h0.elim id fun h0 => absurd h0.1 hne⟩
  have awaited (h0 : c.awaitsLocal d.payload = true) : d.payload = c.awaitingDataLocalAddress :=
    (awaitsLocal_iff.mp h0).2.symm
  have other (hsame : n.flag c' = n.flag c) (hno : d.payload = c.awaitingDataLocalAddress →
      d.commandCode.Delivers ∨ d.commandCode = .nullBurst) : n.flag c' = true ↔ n.flag c = true
        ∨ d.payload = c.awaitingDataLocalAddress ∧ d.commandCode ∈ n.codes := by
    rw [hsame]
    exact ⟨Or.inl, fun h0 => h0.elim id fun h0 => absurd (hno h0.1) (Note.not_delivers h0.2)⟩
  cases hs with
  | holdRead _ hget | holdReadX _ hget | holdInvalidate _ hget | holdInvalidateModified _ hget
  | holdShareMe _ hget => exact held hget (by cases n <;> rfl)
  | waitRead hd _ h0 | waitReadX hd _ h0 | waitInvalidate hd _ h0 | waitShareMe hd _ h0 =>
      cases n <;> simp [Note.flag, Note.codes, hd, awaited h0, queueMaxPriorityBusCommand,
        addNewMaxPriorityBusRequest]
  | data hd => exact other (by cases n <;> rfl) fun _ => Or.inl hd
  | ignored hu =>
      refine other (by cases n <;> rfl) fun hpay => ?_
      exact (hu.miss (awaitsLocal_iff.mpr ⟨hw, hpay.symm⟩)).imp And.left id

/-- Data for the awaited line ends the wait, and nothing else does. -/
theorem Snooped.wait (hs : Snooped d c c') :
    c'.awaitingDataLocalAddress = c.awaitingDataLocalAddress
      ∧ (c'.awaitingBusRead = c.awaitingBusRead ∧ c'.awaitingDataLocal = c.awaitingDataLocal
        ∨ c'.awaitingBusRead = false ∧ c.awaitingBusRead = true ∧ d.commandCode.Delivers
          ∧ d.payload = c.awaitingDataLocalAddress) := by
  cases hs with
  | data hd _ hb hadx => exact ⟨rfl, Or.inr ⟨rfl, hb, hd, hadx.symm⟩⟩
  | holdRead | holdReadX | holdInvalidate | holdInvalidateModified | holdShareMe | waitRead
  | waitReadX | waitInvalidate | waitShareMe | ignored => exact ⟨rfl, Or.inl ⟨rfl, rfl⟩⟩

/-- What a controller sends is its read, or has nothing to do with the wait. -/
theorem Sent.wait (hs : Sent c d c') : (∀ n : Note, n.flag c' = n.flag c)
    ∧ c'.awaitingDataLocalAddress = c.awaitingDataLocalAddress
    ∧ c'.awaitingDataLocal = c.awaitingDataLocal
    ∧ (c'.awaitingBusRead = c.awaitingBusRead ∨ d.payload = c.awaitingDataLocalAddress
      ∧ (d.commandCode = .busRead ∨ d.commandCode = .busReadX)) := by
  cases hs with
  | nullBurst | transfer | command => exact ⟨fun n => by cases n <;> rfl, rfl, rfl, Or.inl rfl⟩
  | read =>
      exact ⟨fun n => by cases n <;> rfl, rfl, rfl,
        Or.inr ⟨rfl, c.missCommand_cases.symm.imp And.left id⟩⟩

end Controller

theorem hears_iff {codes : List CommandCode} {r : BusRequest} (hsent : rec.sent = some r) :
    Hears a adx codes rec ↔ r.sourceAddress ≠ a ∧ r.payload = adx ∧ r.commandCode ∈ codes := by
  constructor
  · rintro ⟨r', hr', h⟩
    rw [hsent] at hr'; cases hr'
    exact h
  · exact fun h => ⟨r, hsent, h⟩

theorem Listened.settle (hl : Listened a c recs) : Listened a c.settle recs where
  flag n := by
    have h := hl.flag n
    cases n <;> exact h
  sent := hl.sent
  answered := hl.answered

/-- **A miss goes on listening** in the bus half of a tick. -/
theorem Passed.listened (hp : Passed ps a c rec.sent c') (h : c.Inv) (hm : c.Missing)
    (hw : c.awaitingDataLocal = true)
    (hmem : ∀ r, rec.sent = some r → r.sourceAddress = ps.numProcessors + 1 →
      r.commandCode.Delivers ∨ r.commandCode = .nullBurst)
    (hl : Listened a c recs) : Listened a c' (rec :: recs) := by
  generalize hreq : rec.sent = req at hp
  -- nothing changes, and nothing was heard
  have silent (hadx : c'.awaitingDataLocalAddress = c.awaitingDataLocalAddress)
      (hflag : ∀ n : Note, n.flag c' = n.flag c)
      (hno : ∀ n : Note, ¬ Hears a c.awaitingDataLocalAddress n.codes rec) (n : Note) :
      n.flag c' = true ↔ ∃ x ∈ rec :: recs, Hears a c'.awaitingDataLocalAddress n.codes x := by
    rw [hadx, hflag n, hl.flag n, List.exists_mem_cons_iff]
    exact ⟨Or.inr, fun h0 => h0.resolve_left (hno n)⟩
  -- the read was sent in this tick, or before
  have sent (hadx : c'.awaitingDataLocalAddress = c.awaitingDataLocalAddress)
      (hb : c'.awaitingBusRead = true → c.awaitingBusRead = true
        ∨ SendsRead a c.awaitingDataLocalAddress rec) (h0 : c'.awaitingBusRead = true) :
      ∃ x ∈ rec :: recs, SendsRead a c'.awaitingDataLocalAddress x := by
    rw [hadx, List.exists_mem_cons_iff]
    exact (hb h0).symm.imp id hl.sent
  have waits (hw' : c'.awaitingDataLocal = c.awaitingDataLocal)
      (h0 : c'.awaitingDataLocal = false) : ∃ data rest, rec :: recs = data :: rest
        ∧ Brings c'.awaitingDataLocalAddress data
        ∧ ∃ x ∈ rest, SendsRead a c'.awaitingDataLocalAddress x := by
    rw [hw', hw] at h0; cases h0
  cases hp with
  | quiet l =>
      refine ⟨silent rfl (fun n => by cases n <;> rfl) ?_, sent rfl Or.inl, waits rfl⟩
      rintro n ⟨r, hr, _⟩
      rw [hreq] at hr; cases hr
  | @sent r _ hsrc _ hs =>
      obtain ⟨hflag, hadx, hdata, hb⟩ := hs.wait
      refine ⟨silent hadx (fun n => (hflag n).trans (by cases n <;> rfl)) ?_,
        sent hadx fun h0 => ?_, waits hdata⟩
      · intro n hn
        exact ((hears_iff hreq).mp hn).1 hsrc
      · rcases hb with hb | ⟨hpay, hcode⟩
        · exact Or.inl (hb.symm.trans h0)
        · exact Or.inr ⟨r, hreq, hsrc, hpay, hcode⟩
  | @received r _ hsrc _ hs =>
      obtain ⟨hadx, hwait⟩ := hs.wait
      refine ⟨fun n => ?_, sent hadx fun h0 => Or.inl ?_, fun h0 => ?_⟩
      · rw [hadx, hs.flag h hm hw n, hl.flag n, List.exists_mem_cons_iff, hears_iff hreq, or_comm]
        exact or_congr ⟨fun h0 => ⟨hsrc, h0⟩, And.right⟩ Iff.rfl
      · rcases hwait with ⟨hb, _⟩ | ⟨hb, _⟩
        · exact hb.symm.trans h0
        · rw [hb] at h0; cases h0
      · rcases hwait with ⟨_, hdata⟩ | ⟨_, hb, hdel, hpay⟩
        · exact waits hdata h0
        · -- the data ends the wait
          rw [hadx]
          exact ⟨rec, recs, rfl, ⟨r, hreq, hpay, hdel⟩, hl.sent hb⟩
  | @missed r hsrc =>
      refine ⟨silent rfl (fun _ => rfl) ?_, sent rfl Or.inl, waits rfl⟩
      intro n hn
      exact Note.not_delivers ((hears_iff hreq).mp hn).2.2 (hmem r hreq hsrc)

/-! ## Runs -/

/-- **A miss starts to listen at its lookup**, and listens until its data comes. -/
theorem Controller.Transitioned.listened {c₁ : Controller} (hs : Transitioned c c₁) (h : c.Inv)
    (hc : controllerAt rec.before.interconnect a = some c) (hm : c₁.Missing)
    (hi : c.currentInstruction = some i)
    (ih : c.Missing → ∃ recs c₀, Episode a i c₀ recs older ∧ Listened a c recs) :
    ∃ recs c₀, Episode a i c₀ (rec :: recs) (rec :: older) ∧ Listened a c₁ recs := by
  have new (hs : c.currentState = .idleState) (hp : c.pendingInstructionFlag = true)
      (hflag : ∀ n : Note, n.flag c₁ = n.flag c) (hb : c₁.awaitingBusRead = c.awaitingBusRead)
      (hw : c₁.awaitingDataLocal = true) :
      ∃ recs c₀, Episode a i c₀ (rec :: recs) (rec :: older) ∧ Listened a c₁ recs := by
    have hcleared := h.idle hs
    have hrest := h.rest (not_missing_of hs (by simp) (by simp))
    refine ⟨[], c, .lookup ⟨hc, hs, hp, hi⟩, fun n => ?_, fun h0 => ?_, fun h0 => ?_⟩
    · have hno : n.flag c = false := by
        cases n
        · exact hcleared.sawBusRead
        · exact hcleared.sawBusReadX
        · exact hcleared.sawInvalidate
      rw [hflag n, hno]
      simp
    · rw [hb, hrest.awaitingBusRead] at h0; cases h0
    · rw [hw] at h0; cases h0
  have elsewhere {s : ControllerState} (h0 : c₁.currentState = s)
      (hne : s ≠ .issueReadState ∧ s ≠ .issueReadXState) :
      ∃ recs c₀, Episode a i c₀ (rec :: recs) (rec :: older) ∧ Listened a c₁ recs :=
    absurd hm (not_missing_of h0 hne.1 hne.2)
  cases hs with
  | wait hm _ =>
      obtain ⟨recs, c₀, hep, hl⟩ := ih hm
      have hne : c.currentState ≠ .idleState := by rcases hm with h0 | h0 <;> simp [h0]
      exact ⟨recs, c₀, .work ⟨c, hc, hne, h.busy hne, hi⟩ hep, hl⟩
  | loadMiss hs hp | storeMiss hs hp => exact new hs hp (fun n => by cases n <;> rfl) rfl rfl
  | rest hs => exact elsewhere hs (by simp)
  | retire => exact elsewhere (s := .idleState) rfl (by simp)
  | invalidateQueued | loadHit | storeHit | storeShared | loadDropped | loadFilled | storeDropped
  | storeFilled => exact elsewhere rfl (by simp)

/-- **Preserved by every cycle.** -/
theorem missesListened_cycle {h : List TickRecord} (hok : s.Ok ps Q) (hok' : s'.Ok ps Q)
    (hcycle : Cycle ps Q s mid req s') (ih : MissesListened h s.interconnect) :
    MissesListened (⟨s, req, s'⟩ :: h) s'.interconnect := by
  intro a c'' i hc'' hm hi
  obtain ⟨c', hc', hpassed⟩ := hcycle.event.passed hcycle.valid hok'.valid hc''
  obtain ⟨hstate, _, hinst⟩ := hpassed.sameState
  have hm' : c'.Missing := by rwa [Controller.Missing, ← hstate]
  have hmem : ∀ r, req = some r → r.sourceAddress = ps.numProcessors + 1 →
      r.commandCode.Delivers ∨ r.commandCode = .nullBurst := by
    rintro r rfl hsrc
    exact hcycle.event.code_of_memory hcycle.valid hsrc
  obtain ⟨c, hc, ht⟩ := hcycle.ticks.controllerBefore hok.valid hcycle.valid hc'
  have hinv := (hok.valid.controller hc).inv
  have hinv' := (hcycle.valid.controller hc').inv
  rw [hinst] at hi
  cases ht with
  | plain hs _ =>
      have hi₀ := hs.currentInstruction.symm.trans hi
      have hbefore : controllerAt (TickRecord.mk s req s').before.interconnect a = some c := hc
      obtain ⟨recs, c₀, hep, hl⟩ := hs.listened hinv hbefore hm' hi₀
        fun h0 => ih a c i hc h0 hi₀
      exact ⟨_, c₀, hep,
        hpassed.listened hinv' hm' (hs.awaitingDataLocal hm') hmem hl.settle⟩
  | @handed c₁ _ hs _ hp =>
      -- a controller with no instruction is idle
      have hne : c₁.currentState ≠ .idleState := by
        rcases (show c₁.Missing from hm') with h0 | h0 <;> simp [h0]
      have hp' := (hs.inv hinv).busy hne
      rw [hp] at hp'; cases hp'

theorem Run.missesListened {h : List TickRecord} {s : System} (hrun : Run ps h s) :
    MissesListened h s.interconnect := by
  refine Run.induct (P := fun h s => MissesListened h s.interconnect) ?_ ?_ ?_ hrun
  · intro s hs a c i hc hm
    rw [hs.controller a c hc] at hm
    rcases hm with h0 | h0 <;> cases h0
  · intro h s s' _ _ hins ih a c i hc
    exact ih a c i (by rw [← hins.controller]; exact hc)
  · exact fun h s mid req s' hok hok' hcycle ih => missesListened_cycle hok hok' hcycle ih

/-! ## The update -/

theorem mem_dropping {opcode : Opcode} {code : CommandCode} :
    code ∈ dropping opcode ↔ ∃ n : Note, n.Heeded opcode ∧ code ∈ n.codes := by
  constructor
  · intro hcode
    cases opcode with
    | store =>
        simp only [dropping, wanting, List.mem_cons, List.not_mem_nil, or_false] at hcode
        rcases hcode with rfl | rfl | rfl | rfl
        · exact ⟨.sawBusRead, Or.inl rfl, by simp [Note.codes]⟩
        · exact ⟨.sawBusReadX, Or.inl rfl, by simp [Note.codes]⟩
        · exact ⟨.sawInvalidate, Or.inl rfl, by simp [Note.codes]⟩
        · exact ⟨.sawBusRead, Or.inl rfl, by simp [Note.codes]⟩
    | load | nop =>
        simp only [dropping, List.mem_cons, List.not_mem_nil, or_false] at hcode
        rcases hcode with rfl | rfl
        · exact ⟨.sawBusReadX, Or.inr (by simp), by simp [Note.codes]⟩
        · exact ⟨.sawInvalidate, Or.inr (by simp), by simp [Note.codes]⟩
  · rintro ⟨n, hn, hcode⟩
    cases n <;> simp only [Note.codes, List.mem_cons, List.not_mem_nil, or_false] at hcode
    · obtain rfl := hn.resolve_right (by simp)
      rcases hcode with rfl | rfl <;> simp [dropping, wanting]
    · cases opcode <;> simp [hcode, dropping, wanting]
    · cases opcode <;> simp [hcode, dropping, wanting]

theorem Note.codes_subset {code : CommandCode} (hn : code ∈ n.codes) : code ∈ wanting :=
  (@mem_dropping .store code).mpr ⟨n, Or.inl rfl, hn⟩

/-- **A miss installs its line** unless a flag is set that its opcode heeds. -/
theorem Controller.Transitioned.installs {c₁ : Controller} (hs : Transitioned c c₁) (h : c.Inv)
    (h₁ : c₁.Inv) (hm : c.Missing) (hi : c.currentInstruction = some i)
    (hup : c₁.currentState = .updateCacheLdState ∨ c₁.currentState = .updateCacheStState) :
    c.awaitingDataLocal = false ∧ (c₁.cache.contains i.address = .ok true ↔
      ∀ n : Note, n.Heeded i.opcode → n.flag c = false) := by
  have idle (hs : c.currentState = .idleState) : False := by
    rcases hm with h0 | h0 <;> rw [hs] at h0 <;> cases h0
  have opcode {s : ControllerState} (hs : c.currentState = s) (hne : s ≠ .idleState) :
      s.Serves i.opcode := by
    obtain ⟨j, hj, hserve⟩ := h.serves (h.busy (hs ▸ hne))
    rw [hi] at hj; cases hj
    rwa [hs] at hserve
  have hkey : lineKey i.address = lineKey c.awaitingDataLocalAddress := by
    obtain ⟨_, hinst⟩ := (h.miss hm).line
    exact hinst.lineKey_eq hi h.cache
  -- the line is there afterwards exactly if it was filled
  have contains : c₁.cache.contains i.address = .ok true ↔
      (c₁.cache.get c.awaitingDataLocalAddress).isSome = true := by
    rw [h₁.cache.contains, Cache.get, hkey, ← Cache.get]
    exact ⟨fun h0 => Except.ok.inj h0, fun h0 => congrArg _ h0⟩
  have dropped (hcache : c₁.cache = c.cache)
      (hset : ∃ n : Note, n.Heeded i.opcode ∧ n.flag c = true) :
      c₁.cache.contains i.address = .ok true ↔
        ∀ n : Note, n.Heeded i.opcode → n.flag c = false := by
    obtain ⟨n, hn, hflag⟩ := hset
    rw [contains, hcache, (h.miss hm).absent]
    refine ⟨fun h0 => (by cases h0), fun h0 => ?_⟩
    rw [h0 n hn] at hflag; cases hflag
  have filled {m : MESI} (hget : c₁.cache.get c.awaitingDataLocalAddress = some m)
      (hclear : ∀ n : Note, n.Heeded i.opcode → n.flag c = false) :
      c₁.cache.contains i.address = .ok true ↔
        ∀ n : Note, n.Heeded i.opcode → n.flag c = false := by
    rw [contains, hget]
    exact ⟨fun _ => hclear, fun _ => rfl⟩
  cases hs with
  | rest hs | loadHit hs | storeHit hs | storeShared hs | loadMiss hs | storeMiss hs =>
      exact (idle hs).elim
  | wait => rcases hm with h0 | h0 <;> rcases hup with h1 | h1 <;> rw [h0] at h1 <;> cases h1
  | retire => rcases hup with h1 | h1 <;> cases h1
  | invalidateQueued => rcases hup with h1 | h1 <;> cases h1
  | loadDropped hs hw hsaw =>
      refine ⟨hw, dropped rfl ?_⟩
      rcases hsaw with h0 | h0
      · exact ⟨.sawBusReadX, Or.inr (by simp), h0⟩
      · exact ⟨.sawInvalidate, Or.inr (by simp), h0⟩
  | loadFilled hs hw hx hinv _ _ _ hfill =>
      have hload : i.opcode = .load := opcode hs (by simp)
      refine ⟨hw, filled hfill.get fun n hn => ?_⟩
      rw [hload] at hn
      cases n with
      | sawBusRead => rcases hn with h0 | h0 <;> simp at h0
      | sawBusReadX => exact hx
      | sawInvalidate => exact hinv
  | storeDropped hs hw hsaw =>
      have hstore : i.opcode = .store := opcode hs (by simp)
      refine ⟨hw, dropped rfl ?_⟩
      rcases hsaw with h0 | h0 | h0
      · exact ⟨.sawBusRead, Or.inl hstore, h0⟩
      · exact ⟨.sawBusReadX, Or.inl hstore, h0⟩
      · exact ⟨.sawInvalidate, Or.inl hstore, h0⟩
  | storeFilled hs hw hr hx hinv hfill =>
      refine ⟨hw, filled hfill.get fun n _ => ?_⟩
      cases n with
      | sawBusRead => exact hr
      | sawBusReadX => exact hx
      | sawInvalidate => exact hinv

/-- **When the last requester installs its line.** Every miss that comes to its `UpdateCache`
action was fetched; and if nobody else wanted the line while the read was out, the line is in the
cache afterwards exactly when nobody made the miss drop it while the read was still queued. -/
theorem last_installs (ps : Params) (h : List TickRecord) (s : System) (hrun : Run ps h s) :
    ∀ newer rec older, h = newer ++ rec :: older → ∀ a i c c', UpdatesMiss a i rec c c' →
      (∃ data late sent early,
        Fetched a (c.cache.getLineAlignedAddress i.address) i data late sent early older)
      ∧ ∀ data late sent early,
        Fetched a (c.cache.getLineAlignedAddress i.address) i data late sent early older →
        (∀ x ∈ late, ¬ Hears a (c.cache.getLineAlignedAddress i.address) wanting x) →
        (c'.cache.contains i.address = .ok true ↔ ∀ x ∈ early,
          ¬ Hears a (c.cache.getLineAlignedAddress i.address) (dropping i.opcode) x) := by
  intro newer rec older hsplit a i c c' hup
  obtain ⟨hrun', _⟩ := hrun.of_split newer rec older hsplit
  have hinv := (hrun'.ok.valid.controller hup.controller).inv
  obtain ⟨c₁, hs, ht⟩ := hinv.tick
  have heq := hup.tick
  rw [ht] at heq; cases heq
  obtain ⟨recs, c₀, hep, hl⟩ := hrun'.missesListened a c i hup.controller hup.missing hup.instruction
  obtain ⟨hw, hiff⟩ := hs.installs hinv (hs.inv hinv) hup.missing hup.instruction hup.updated
  have hadx : c.cache.getLineAlignedAddress i.address = c.awaitingDataLocalAddress := by
    obtain ⟨_, j, hj, _, hadx⟩ := (hinv.miss hup.missing).line
    rw [hup.instruction] at hj; cases hj
    exact hadx
  rw [hadx]
  obtain ⟨data, rest, rfl, hdata, sent, hmem, hsent⟩ := hl.answered hw
  refine ⟨?_, fun data' late sent' early hf hlate => ?_⟩
  · obtain ⟨late, early, rfl⟩ := List.append_of_mem hmem
    exact ⟨data, late, sent, early, ⟨c₀, hep⟩, hsent, hdata⟩
  · obtain ⟨c₀', hep'⟩ := hf.episode
    obtain ⟨hrecs, _⟩ := hep.unique hep'
    refine hiff.trans ⟨fun hclear x hx => ?_, fun hearly n hn => ?_⟩
    · rintro ⟨r, hr, hsrc, hpay, hcode⟩
      obtain ⟨n, hn, hcode⟩ := mem_dropping.mp hcode
      have hset := (hl.flag n).mpr ⟨x, by rw [← hrecs]; simp [hx], r, hr, hsrc, hpay, hcode⟩
      rw [hclear n hn] at hset; cases hset
    · by_contra hset
      obtain ⟨x, hx, hhears⟩ := (hl.flag n).mp (by simpa using hset)
      rw [← hrecs, List.cons_append, List.mem_cons, List.mem_append, List.mem_cons] at hx
      obtain ⟨r, hr, hsrc, hpay, hcode⟩ := hhears
      rcases hx with rfl | hx | rfl | hx
      · -- the data came instead
        obtain ⟨r', hr', _, hdel⟩ := hf.data
        rw [hr] at hr'; cases hr'
        exact Note.not_delivers hcode (Or.inl hdel)
      · exact hlate x hx ⟨r, hr, hsrc, hpay, Note.codes_subset hcode⟩
      · -- the read was the controller's own
        obtain ⟨r', hr', hown, _⟩ := hf.read
        rw [hr] at hr'; cases hr'
        exact hsrc hown
      · exact hearly x hx ⟨r, hr, hsrc, hpay, mem_dropping.mpr ⟨n, hn, hcode⟩⟩

/-- Two loads of one line, up to the tick in which the second requester has its data. -/
def twoLoads : List Event :=
  [.insert .load 64 0, .insert .load 64 1] ++ List.replicate 7 .tick

/-- The last ticks of such a run, as the second requester sees them: it looks the load up, waits,
reads and gets its data, and in the newest of them it drops the line. -/
def dropsLine (i : Instruction) : List TickRecord → Bool
  | [x, t₆, t₅, t₄, t₃, t₂, _] =>
      decide (WorksOn 1 i t₆ ∧ WorksOn 1 i t₅ ∧ WorksOn 1 i t₄ ∧ WorksOn 1 i t₃
        ∧ (∃ c, LooksUp 1 i t₂ c) ∧ SendsRead 1 64 t₅ ∧ Brings 64 t₆)
      && (controllerAt x.before.interconnect 1).any fun (c : Controller) =>
        c.tick.toOption.any fun (c' : Controller) =>
          decide (c.Missing ∧ c.currentInstruction = some i
            ∧ c.cache.getLineAlignedAddress 64 = 64
            ∧ c'.currentState = .updateCacheLdState ∧ c'.cache.contains 64 ≠ .ok true)
  | _ => false

/-- Its read went out last and nobody else wants the line, but the other read came while its own
was queued. -/
theorem run_twoLoads : ∃ rec older s i c c' data sent early,
    Run ⟨2, .mi, 1, 1⟩ (rec :: older) s ∧ UpdatesMiss 1 i rec c c'
      ∧ Fetched 1 (c.cache.getLineAlignedAddress i.address) i data [] sent early older
      ∧ c'.cache.contains i.address ≠ .ok true := by
  let i : Instruction := ⟨.load, 64, by decide⟩
  obtain ⟨h, s, hrun, hp⟩ := Run.of_run ⟨2, .mi, 1, 1⟩ twoLoads
    (fun h _ => dropsLine i h) (by decide +kernel)
  unfold dropsLine at hp
  split at hp
  · rename_i x t₆ t₅ t₄ t₃ t₂ t₁
    obtain ⟨hep, hup⟩ := Bool.and_eq_true_iff.mp hp
    obtain ⟨h₆, h₅, h₄, h₃, ⟨c₀, h₂⟩, hread, hdata⟩ := of_decide_eq_true hep
    obtain ⟨c, hc, hup⟩ := (Option.any_eq_true _ _).mp hup
    obtain ⟨c', ht, hup⟩ := Outcome.any_toOption.mp hup
    obtain ⟨hm, hi, hadx, hstate, hno⟩ := of_decide_eq_true hup
    refine ⟨x, _, s, i, c, c', t₆, t₅, [t₄, t₃, t₂], hrun, ⟨hc, hm, hi, ht, Or.inl hstate⟩,
      ⟨⟨c₀, .work h₆ (.work h₅ (.work h₄ (.work h₃ (.lookup h₂))))⟩, ?_, ?_⟩, hno⟩
    · rwa [show i.address = 64 from rfl, hadx]
    · rwa [show i.address = 64 from rfl, hadx]
  · cases hp

theorem not_lastInstalls : ¬ LastInstalls ⟨2, .mi, 1, 1⟩ := by
  intro hclaim
  obtain ⟨rec, older, s, i, c, c', data, sent, early, hrun, hup, hf, hno⟩ := run_twoLoads
  exact hno (hclaim _ s hrun [] rec older rfl 1 i c c' hup data [] sent early hf
    fun x hx => by cases hx)

/-- The read that came first was one that makes a load drop its line. -/
theorem last_installs_two_loads : ∃ rec older s i c c' data sent early,
    Run ⟨2, .mi, 1, 1⟩ (rec :: older) s ∧ UpdatesMiss 1 i rec c c'
      ∧ Fetched 1 (c.cache.getLineAlignedAddress i.address) i data [] sent early older
      ∧ ∃ x ∈ early, Hears 1 (c.cache.getLineAlignedAddress i.address) (dropping i.opcode) x := by
  obtain ⟨rec, older, s, i, c, c', data, sent, early, hrun, hup, hf, hno⟩ := run_twoLoads
  refine ⟨rec, older, s, i, c, c', data, sent, early, hrun, hup, hf, ?_⟩
  have hiff := (last_installs _ _ s hrun [] rec older rfl 1 i c c' hup).2 data [] sent early hf
    fun x hx => by cases hx
  by_contra hearly
  exact hno (hiff.mpr fun x hx h0 => hearly ⟨x, hx, h0⟩)

end CoherenceSim
