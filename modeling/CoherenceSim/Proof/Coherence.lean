import CoherenceSim.Proof.LineView
import CoherenceSim.Proof.SystemTick

/-!
# Coherence

From the point of view of any one line, a cycle of the system is a sequence of steps of the
protocol of `SnoopLine`: first all controllers act, then one command is on the bus, and
memory may take the bus or give it back. So what the protocol guarantees holds in every
reachable state.
-/

namespace CoherenceSim

open Interconnect SnoopLine

/-- What is at a bus address, as a line sees it. -/
def agentAt (ic : Interconnect Node) (adx a : Nat) : Agent :=
  match controllerAt ic a with
  | some c => c.view adx
  | none => .idle

/-- The system, as a line sees it. -/
def busView (ps : Params) (ic : Interconnect Node) (adx : Nat) : SnoopLine.Bus Nat where
  agent := agentAt ic adx
  locked := ic.nodeLocked && ic.lockedAddress == ps.numProcessors + 1

/-- The instructions that were taken up are about lines that the caches tell apart. -/
def CurrentIn (L : Lines) (ic : Interconnect Node) : Prop :=
  ∀ a c, controllerAt ic a = some c → ∀ i, c.currentInstruction = some i → i.In L

/-- So are the requests that wait. -/
structure LinesIn (L : Lines) (ic : Interconnect Node) : Prop where
  current : CurrentIn L ic
  queue : ∀ a c, controllerAt ic a = some c → ∀ r ∈ c.maxPriorityQueue, L.Has r.payload

variable {L : Lines} {ps : Params} {Q : Instruction → Prop} {ic mid ic' : Interconnect Node}
  {adx : Nat} {r : BusRequest}

/-- Instructions are taken up from among those that were given. -/
theorem Valid.currentIn (h : Valid ps (Instruction.In L) ic) : CurrentIn L ic :=
  fun _ _ hc => (h.controller hc).current

theorem agentAt_some {a : Nat} {c : Controller} (h : controllerAt ic a = some c) :
    agentAt ic adx a = c.view adx := by
  rw [agentAt, h]

theorem agentAt_none {a : Nat} (h : controllerAt ic a = none) : agentAt ic adx a = .idle := by
  rw [agentAt, h]

/-! ## The first half of a cycle -/

theorem Controller.Ticked.acts {c c' : Controller} (ht : Controller.Ticked c c') (h : c.Inv)
    (hadx : L.Has adx) (hline : ∀ i, c.currentInstruction = some i → i.In L) :
    Acts (c.view adx) (c'.view adx) := by
  cases ht with
  | plain hs => exact (hs.acts h hadx hline :)
  | handed hs => exact (hs.acts h hadx hline :)

theorem busView_ticks (hv : Valid ps Q ic) (hmid : Valid ps Q mid) (ht : Ticks ic mid)
    (hl : LinesIn L ic) (hadx : L.Has adx) : Step (busView ps ic adx) (busView ps mid adx) := by
  refine .acts (fun a => ?_) ?_
  · show Acts (agentAt ic adx a) (agentAt mid adx a)
    obtain ⟨c, c', hc, hc'⟩ | ⟨hc, hc'⟩ := hv.both hmid a
    · obtain ⟨c'', hs, hc''⟩ := ht.controller a c hc
      rw [hc'] at hc''; cases hc''
      rw [agentAt_some hc, agentAt_some hc']
      exact hs.acts (hv.controller hc).inv hadx (hl.current a c hc)
    · rw [agentAt_none hc, agentAt_none hc']
      exact Or.inl rfl
  · simp only [busView, ht.nodeLocked, ht.lockedAddress]

theorem linesIn_ticks (hv : Valid ps Q ic) (hmid : Valid ps Q mid) (ht : Ticks ic mid)
    (hl : LinesIn L ic) (hcur : CurrentIn L mid) : LinesIn L mid := by
  refine ⟨hcur, fun a c' hc' => ?_⟩
  obtain ⟨c, hc, hs⟩ := ht.controllerBefore hv hmid hc'
  have hinv := (hv.controller hc).inv
  cases hs with
  | plain hs => exact hs.inLines hinv (hl.current a c hc) (hl.queue a c hc)
  | handed hs => exact hs.inLines hinv (hl.current a c hc) (hl.queue a c hc)

/-! ## The second half -/

/-- What is on the bus is about one of these lines, unless it delivers data. -/
theorem BusEvent.asks (h : BusEvent ps mid (some r) ic') (hmid : Valid ps Q mid)
    (hl : LinesIn L mid) :
    r.commandCode.Delivers ∨ r.commandCode = .nullBurst ∨ L.Has r.payload := by
  cases h with
  | @controller a c _ _ _ hc _ _ _ _ hs =>
      have hinv := (hmid.controller hc).inv
      exact Or.inr (Or.inr (hs.inLines hinv.frame (hl.current a c hc) (hl.queue a c hc)).1)
  | memory hm _ _ _ _ hqm =>
      rcases (hmid.memoryOk hm).2.queue _ (by rw [hqm]; exact List.mem_cons_self) with h0 | h0
      · exact Or.inl (Or.inr (Or.inl h0.code))
      · exact Or.inr (Or.inl h0.code)

/-- Memory's turn comes when no urgent command waits, or memory has the bus already. -/
structure MemoryTurn (ps : Params) (ic : Interconnect Node) : Prop where
  locked : ic.nodeLocked = true → ic.lockedAddress = ps.numProcessors + 1
  free : ic.nodeLocked = false → NoUrgent ic

theorem MemoryTurn.out (h : MemoryTurn ps mid) (h0 : (busView ps mid adx).locked = false) (a : Nat) :
    ((busView ps mid adx).agent a).out = ∅ := by
  have hfree : mid.nodeLocked = false := by
    refine Bool.eq_false_iff.mpr fun h1 => ?_
    simp [busView, h1, h.locked h1] at h0
  show (agentAt mid adx a).out = ∅
  cases hc : controllerAt mid a with
  | none => rw [agentAt_none hc]; rfl
  | some c =>
      rw [agentAt_some hc]
      ext x
      refine ⟨fun ⟨r, hr, _⟩ => ?_, False.elim⟩
      rw [h.free hfree a c hc] at hr; cases hr

/-- Nothing changed for this line, except perhaps that memory has the bus, or has it no more. -/
theorem busView_same (h : ∀ a, agentAt ic' adx a = agentAt mid adx a)
    (hl : ic'.nodeLocked = true → ic'.lockedAddress = ps.numProcessors + 1 → MemoryTurn ps mid) :
    Steps (busView ps mid adx) (busView ps ic' adx) := by
  refine Steps.relock h fun h₁ h₀ => ?_
  obtain ⟨h₁, h₂⟩ : ic'.nodeLocked = true ∧ ic'.lockedAddress = ps.numProcessors + 1 := by
    simpa [busView] using h₁
  exact (hl h₁ h₂).out h₀

/-- A controller's turn. -/
theorem busView_controller (hmid : Valid ps Q mid)
    (hv' : Valid ps Q ic') (hf : AllFresh mid) (hl : LinesIn L mid)
    (hadx : L.Has adx) {a : Nat} {c c' : Controller} (hc : controllerAt mid a = some c)
    (hbus : OnBus ps r) (hlock : mid.nodeLocked = true → mid.lockedAddress = a)
    (hs : Controller.Sent c.polled r c') (hc' : controllerAt ic' a = some c')
    (hother : ∀ b d, b ≠ a → controllerAt mid b = some d →
      ∃ d', Controller.Snooped r d d' ∧ controllerAt ic' b = some d')
    (hlocked : ic'.nodeLocked = c.bursting) (haddr : c.bursting = true → ic'.lockedAddress = a) :
    Steps (busView ps mid adx) (busView ps ic' adx) := by
  have ok := hmid.controller hc
  have hinv : c.polled.Inv := ok.inv.frame
  have hline : L.Has r.payload := (hs.inLines hinv (hl.current a c hc) (hl.queue a c hc)).1
  have hal := hbus.receivable.payload
  have hself (x : Nat) : c.polled.view x = c.view x := Controller.view_eq rfl rfl rfl
  have free (b : Bool) (x : Nat) (h : b = true → x = a) :
      (b && x == ps.numProcessors + 1) = false := by
    have := ok.range
    cases b with
    | false => rfl
    | true => simp [h rfl]; omega
  have hfree : (busView ps mid adx).locked = false := free _ _ hlock
  have hfree' : (busView ps ic' adx).locked = false := free _ _ fun h0 => haddr (hlocked ▸ h0)
  -- nobody notices
  have same (h : c'.view adx = c.view adx)
      (h' : ∀ d d', Controller.Inv d → Controller.Snooped r d d' → d'.view adx = d.view adx) :
      Steps (busView ps mid adx) (busView ps ic' adx) := by
    refine Steps.relock (fun b => ?_) fun h0 => (by rw [hfree'] at h0; cases h0)
    show agentAt ic' adx b = agentAt mid adx b
    obtain ⟨d, d', hd, hd'⟩ | ⟨hd, hd'⟩ := hmid.both hv' b
    · rw [agentAt_some hd, agentAt_some hd']
      by_cases hba : b = a
      · subst hba
        rw [hc] at hd; cases hd
        rw [hc'] at hd'; cases hd'
        exact h
      · obtain ⟨d'', hsn, hd''⟩ := hother b d hba hd
        rw [hd'] at hd''; cases hd''
        exact h' d d' (hmid.controller hd).inv hsn
    · rw [agentAt_none hd, agentAt_none hd']
  by_cases hp : r.payload = adx
  · subst hp
    have snoops {cmd : Command} (hcmd : commandOf r.commandCode = some cmd) (b : Nat) (hba : b ≠ a) :
        Snoop cmd (agentAt mid r.payload b) (agentAt ic' r.payload b) := by
      obtain ⟨d, d', hd, hd'⟩ | ⟨hd, hd'⟩ := hmid.both hv' b
      · obtain ⟨d'', hsn, hd''⟩ := hother b d hba hd
        rw [hd'] at hd''; cases hd''
        rw [agentAt_some hd, agentAt_some hd']
        exact hsn.snoop (hmid.controller hd).inv hal hcmd
      · rw [agentAt_none hd, agentAt_none hd']
        exact .idle cmd
    have hat : (busView ps mid r.payload).agent a = c.view r.payload := agentAt_some hc
    have hat' : (busView ps ic' r.payload).agent a = c'.view r.payload := agentAt_some hc'
    have hview := hs.view hinv
    rw [hself] at hview
    cases hview with
    | nullBurst hcode heq => exact same heq fun d d' hd hsn => hsn.view_of_nullBurst hcode
    | urgent hcmd hne hmem hsub heq =>
        exact .single (.send a hfree hfree' (hat ▸ hmem) hne (hat ▸ hsub)
          (by rw [hat, hat', heq]) (snoops hcmd))
    | request hcmd hm hans hout heq =>
        refine .single (.request a hfree hfree' (by rw [hat]; exact hm) hans (hat ▸ hout) ?_
          (by rw [hat, hat', heq]) (snoops hcmd))
        -- every controller has ticked since the last answer came
        intro b n hn
        have hn : (agentAt mid r.payload b).miss = some n := hn
        cases hd : controllerAt mid b with
        | none => rw [agentAt_none hd] at hn; cases hn
        | some d =>
            rw [agentAt_some hd] at hn
            obtain ⟨⟨hmiss, _⟩, rfl⟩ := Controller.view_miss_eq hn
            exact Controller.missView_unanswered ((hf b d hd).waiting hmiss)
  · exact same ((hs.view_of_ne hp).trans (hself adx)) fun d d' hd hsn =>
      hsn.view_of_ne hd hadx hp hal (Or.inr (Or.inr hline))

/-- Memory's turn. -/
theorem busView_memory (hmid : Valid ps Q mid)
    (hv' : Valid ps Q ic') (hadx : L.Has adx) (hturn : MemoryTurn ps mid)
    (hr : Memory.IsAnswer ps.numProcessors r ∨ Memory.IsNullBurst ps.numProcessors r)
    (hother : ∀ b d, controllerAt mid b = some d → if Receives r b
      then ∃ d', Controller.Snooped r d d' ∧ controllerAt ic' b = some d'
      else controllerAt ic' b = some d) :
    Steps (busView ps mid adx) (busView ps ic' adx) := by
  have same (h' : ∀ d d', Controller.Inv d → Controller.Snooped r d d' → d'.view adx = d.view adx) :
      Steps (busView ps mid adx) (busView ps ic' adx) := by
    refine busView_same (fun b => ?_) fun _ _ => hturn
    obtain ⟨d, d', hd, hd'⟩ | ⟨hd, hd'⟩ := hmid.both hv' b
    · rw [agentAt_some hd, agentAt_some hd']
      have hb := hother b d hd
      split at hb
      · obtain ⟨d'', hsn, hd''⟩ := hb
        rw [hd'] at hd''; cases hd''
        exact h' d d' (hmid.controller hd).inv hsn
      · rw [hd'] at hb; cases hb
        rfl
    · rw [agentAt_none hd, agentAt_none hd']
  rcases hr with hr | hr
  · by_cases hp : r.payload = adx
    · subst hp
      have hcmd : commandOf r.commandCode = some .dataMemory := by rw [hr.code]; rfl
      have hrec (b : Nat) : Receives r b ↔ b = r.targetAddress := by
        have := hr.target.1
        rw [Receives, if_neg (by rw [BROADCAST_ADX]; omega)]
      obtain ⟨c, c', hc, hc'⟩ | ⟨hc, _⟩ := hmid.both hv' r.targetAddress
      · have hb := hother _ c hc
        rw [if_pos ((hrec _).mpr rfl)] at hb
        obtain ⟨c'', hsn, hc''⟩ := hb
        rw [hc'] at hc''; cases hc''
        have htarget : Snoop .dataMemory (agentAt mid r.payload r.targetAddress)
            (agentAt ic' r.payload r.targetAddress) := by
          rw [agentAt_some hc, agentAt_some hc']
          exact hsn.snoop (hmid.controller hc).inv hr.payload hcmd
        have hrest (b : Nat) (hb : b ≠ r.targetAddress) :
            agentAt ic' r.payload b = agentAt mid r.payload b := by
          obtain ⟨d, d', hd, hd'⟩ | ⟨hd, hd'⟩ := hmid.both hv' b
          · have h0 := hother b d hd
            rw [if_neg fun h1 => hb ((hrec b).mp h1)] at h0
            rw [agentAt_some hd, agentAt_some h0]
          · rw [agentAt_none hd, agentAt_none hd']
        cases hlocked' : (busView ps ic' r.payload).locked with
        | true =>
            -- first memory takes the bus, then it sends
            have htake : Steps (busView ps mid r.payload)
                { busView ps mid r.payload with locked := true } :=
              Steps.relock (fun _ => rfl) fun _ h0 => hturn.out h0
            exact htake.tail (.memory r.targetAddress (fun h0 => (by cases h0)) htarget hrest hlocked')
        | false =>
            have hsend : Step (busView ps mid r.payload)
                { busView ps ic' r.payload with locked := (busView ps mid r.payload).locked } :=
              .memory r.targetAddress hturn.out htarget hrest rfl
            refine Relation.ReflTransGen.head hsend (Steps.relock (fun _ => rfl) fun h0 => ?_)
            rw [hlocked'] at h0; cases h0
      · have hsome := (hmid.controllerAt_isSome (a := r.targetAddress)).mpr hr.target
        rw [hc] at hsome; cases hsome
    · exact same fun d d' hd hsn => hsn.view_of_ne hd hadx hp hr.payload
        (Or.inl (Or.inr (Or.inl hr.code)))
  · exact same fun d d' hd hsn => hsn.view_of_nullBurst hr.code

/-- **A cycle, as a line sees it.** -/
theorem Cycle.steps {s m s' : System} {req : Option BusRequest} (h : Cycle ps Q s m req s')
    (hok : s.Ok ps Q) (hok' : s'.Ok ps Q) (hl : LinesIn L s.interconnect)
    (hcur : CurrentIn L m.interconnect) (hadx : L.Has adx) :
    Steps (busView ps s.interconnect adx) (busView ps s'.interconnect adx) := by
  have hl' := linesIn_ticks hok.valid h.valid h.ticks hl hcur
  refine Relation.ReflTransGen.head (busView_ticks hok.valid h.valid h.ticks hl hadx) ?_
  have hev := h.event
  cases hev with
  | quiet hctrl _ hlock _ =>
      refine busView_same (fun a => ?_) fun h₁ _ => ⟨(hlock h₁).2.1, (hlock h₁).2.2⟩
      obtain ⟨c, c', hc, hc'⟩ | ⟨hc, hc'⟩ := h.valid.both hok'.valid a
      · obtain ⟨l, hl⟩ := hctrl a c hc
        rw [agentAt_some hc, agentAt_some hl]
        exact Controller.view_eq rfl rfl rfl
      · rw [agentAt_none hc, agentAt_none hc']
  | controller hc hsrc hbus hlock _ hs hc' hother _ hlocked haddr =>
      exact busView_controller h.valid hok'.valid h.fresh hl' hadx hc hbus hlock hs hc' hother
        hlocked haddr
  | memory hm _ _ hlock hfree hqm _ hother _ _ =>
      exact busView_memory h.valid hok'.valid hadx ⟨hlock, hfree⟩
        ((h.valid.memoryOk hm).2.queue _ (by rw [hqm]; exact List.mem_cons_self)) hother

/-- **Preserved by a cycle**, as long as what is taken up is about these lines. -/
theorem Cycle.linesIn {s m s' : System} {req : Option BusRequest} (h : Cycle ps Q s m req s')
    (hok : s.Ok ps Q) (hok' : s'.Ok ps Q) (hl : LinesIn L s.interconnect)
    (hcur : CurrentIn L m.interconnect) : LinesIn L s'.interconnect := by
  have hl' := linesIn_ticks hok.valid h.valid h.ticks hl hcur
  refine ⟨fun a c' hc' => ?_, fun a c' hc' => ?_⟩
  · obtain ⟨c, hc, hpassed⟩ := h.event.passed h.valid hok'.valid hc'
    obtain ⟨_, _, hcurrent⟩ := hpassed.sameState
    rw [hcurrent]
    exact hcur a c hc
  · obtain ⟨c, hc, hpassed⟩ := h.event.passed h.valid hok'.valid hc'
    have hinv := (h.valid.controller hc).inv
    have hqueue := hl'.queue a c hc
    cases hpassed with
    | quiet => exact hqueue
    | missed => exact hqueue
    | sent _ _ hs => exact (hs.inLines hinv.frame (hcur a c hc) hqueue).2
    | received _ hbus hs =>
        exact hs.inLines hinv hbus.receivable.payload (h.event.asks h.valid hl') hqueue

/-! ## Runs -/

variable {events : List Event} {h : List TickRecord} {s : System}

theorem linesIn_initial (hs : s.Initial ps) : LinesIn L s.interconnect := by
  refine ⟨fun a c hc i hi => ?_, fun a c hc r hr => ?_⟩
  · rw [hs.controller a c hc] at hi; cases hi
  · rw [hs.controller a c hc] at hr; cases hr

theorem busView_initial (hs : s.Initial ps) : SnoopLine.Initial (busView ps s.interconnect adx) := by
  intro a
  show (agentAt s.interconnect adx a).line = none ∧ (agentAt s.interconnect adx a).miss = none
    ∧ (agentAt s.interconnect adx a).out = ∅
  cases hc : controllerAt s.interconnect a with
  | none => rw [agentAt_none hc]; exact ⟨rfl, rfl, rfl⟩
  | some c =>
      rw [agentAt_some hc, hs.controller a c hc]
      refine ⟨Controller.view_line_none (Cache.stateAt_new _),
        Controller.view_miss_of_not fun h0 => ?_, ?_⟩
      · rcases h0.1 with h0 | h0 <;> cases h0
      · ext x
        exact ⟨fun ⟨r, hr, _⟩ => (by cases hr), False.elim⟩

theorem LinesIn.inserted {s' : System} (hl : LinesIn L s.interconnect) (hins : Inserted s s') :
    LinesIn L s'.interconnect :=
  ⟨fun a c hc => hl.current a c (by rw [← hins.controller]; exact hc),
    fun a c hc => hl.queue a c (by rw [← hins.controller]; exact hc)⟩

theorem busView_inserted {s' : System} (hins : Inserted s s') :
    busView ps s'.interconnect adx = busView ps s.interconnect adx := by
  have hagent : agentAt s'.interconnect adx = agentAt s.interconnect adx :=
    funext fun a => by rw [agentAt, agentAt, hins.controller]
  rw [busView, busView, hagent, hins.nodeLocked, hins.lockedAddress]

/-- **The protocol's invariant holds of every line in every reachable state.** -/
theorem busView_run (hev : ∀ e ∈ events, e.Inserts (Instruction.In L))
    (hrun : System.run ps events = .ok (h, s)) :
    s.Ok ps (Instruction.In L)
      ∧ ∀ adx, L.Has adx → SnoopLine.Inv (busView ps s.interconnect adx) := by
  have hboth := System.run_induct (P := fun _ s => LinesIn L s.interconnect
    ∧ ∀ adx, L.Has adx → SnoopLine.Inv (busView ps s.interconnect adx)) ?_ ?_ ?_ hev hrun
  · exact ⟨hboth.1, hboth.2.2⟩
  · exact fun _ s s' _ _ hins ⟨hl, hinv⟩ => ⟨hl.inserted hins, fun adx hadx => by
      rw [busView_inserted hins]; exact hinv adx hadx⟩
  · intro _ s m req s' hok hok' hcycle ⟨hl, hinv⟩
    have hcur := hcycle.valid.currentIn
    exact ⟨hcycle.linesIn hok hok' hl hcur,
      fun adx hadx => (hcycle.steps hok hok' hl hcur hadx).inv (hinv adx hadx)⟩
  · exact fun s hs => ⟨linesIn_initial hs, fun adx _ => (busView_initial hs).inv⟩

/-- **Single owner**, of a line for which the protocol's invariant holds. -/
theorem Valid.single_owner (hv : Valid ps Q ic)
    (hinv : SnoopLine.Inv (busView ps ic adx)) {a b : Nat} {c d : Controller} (hab : a ≠ b)
    (hc : controllerAt ic a = some c) (hd : controllerAt ic b = some d) {m : MESI}
    (hm : c.cache.get adx = some m) (how : m = .modified ∨ m = .exclusive) :
    d.cache.get adx = none := by
  have hline : (agentAt ic adx b).line = none := by
    refine hinv.exclusive hab ?_
    show (agentAt ic adx a).line = some .owned
    rw [agentAt_some hc]
    show (c.cache.get adx).bind copyOf = _
    rw [hm]
    exact copyOf_eq_owned.mpr how
  rw [agentAt_some hd] at hline
  by_contra hne
  obtain ⟨m', hm'⟩ := Option.ne_none_iff_exists'.mp hne
  exact (hv.controller hd).inv.view_line hm' hline

/-! ## Addresses below `2 ^ 47` -/

/-- Every address has the line of one that the caches tell apart. -/
theorem exists_plain (adx : Nat) : ∃ adx', Lines.plain.Has adx' ∧ lineKey adx' = lineKey adx :=
  ⟨32 * lineKey adx, ⟨by rw [lineKey]; omega, by omega⟩, by simp only [lineKey]; omega⟩

theorem Event.Inserts.mono {Q Q' : Instruction → Prop} (hQ : ∀ i, Q i → Q' i) {e : Event}
    (h : e.Inserts Q) : e.Inserts Q' := by
  cases e with
  | insertInstruction i n => exact hQ i h
  | tick => trivial

theorem plain_run (hev : ∀ e ∈ events, e.Inserts Instruction.Plain)
    (hrun : System.run ps events = .ok (h, s)) : s.Ok ps (Instruction.In .plain)
      ∧ ∀ adx, Lines.plain.Has adx → SnoopLine.Inv (busView ps s.interconnect adx) := by
  exact busView_run (L := .plain)
    (fun e he => (hev e he).mono fun _ => Instruction.Plain.in_plain) hrun

theorem single_owner (hev : ∀ e ∈ events, e.Inserts Instruction.Plain)
    (hrun : System.run ps events = .ok (h, s)) {a b : Nat} {c d : Controller} (hab : a ≠ b)
    (hc : controllerAt s.interconnect a = some c) (hd : controllerAt s.interconnect b = some d)
    {adx : Nat} {m : MESI} (hm : c.cache.get adx = some m) (how : m = .modified ∨ m = .exclusive) :
    d.cache.get adx = none := by
  obtain ⟨hok, hinv⟩ := plain_run hev hrun
  obtain ⟨adx', hadx', hkey⟩ := exists_plain adx
  have hget (k : Cache) : k.get adx' = k.get adx := by rw [Cache.get, hkey, ← Cache.get]
  rw [← hget]
  exact hok.valid.single_owner (hinv adx' hadx') hab hc hd ((hget _).trans hm) how

/-- **Exclusivity**, in MESI and the other protocols: a line that one cache holds in `MODIFIED`
or `EXCLUSIVE` is in no other cache. -/
theorem exclusivity (ps : Params) (events : List Event)
    (hev : ∀ e ∈ events, e.Inserts Instruction.Plain) (h : List TickRecord) (s : System)
    (hrun : System.run ps events = .ok (h, s)) : ∀ a b c d adx, a ≠ b →
      controllerAt s.interconnect a = some c → controllerAt s.interconnect b = some d →
      c.cache.isModified adx = .ok true ∨ c.cache.isExclusive adx = .ok true →
      d.cache.contains adx = .ok false := by
  intro a b c d adx hab hc hd hown
  obtain ⟨hok, _⟩ := plain_run hev hrun
  have okc := (hok.valid.controller hc).inv.cache
  have okd := (hok.valid.controller hd).inv.cache
  have hnone : d.cache.get adx = none := by
    rcases hown with h0 | h0
    · exact single_owner hev hrun hab hc hd (okc.isModified_iff.mp h0) (Or.inl rfl)
    · exact single_owner hev hrun hab hc hd (okc.isExclusive_iff.mp h0) (Or.inr rfl)
  rw [okd.contains, hnone]; rfl

/-- Two processors store to one line: the second while the first waits for it, and then the first
again, when the second has it. -/
def contendedStores : List Event :=
  [.insert .store 64 0, .tick, .tick, .insert .store 64 1] ++ List.replicate 12 .tick
    ++ [.insert .store 64 0] ++ List.replicate 12 .tick

theorem run_contendedStores (t : ControllerType) :
    ∃ h s, System.run ⟨2, t, 3, 2⟩ contendedStores = .ok (h, s)
      ∧ ∃ c d, controllerAt s.interconnect 1 = some c ∧ controllerAt s.interconnect 2 = some d
        ∧ c.storeMisses = 2 ∧ d.storeMisses = 1 ∧ c.cache.isModified 64 = .ok true := by
  obtain ⟨h, s, hrun, hp⟩ := System.exists_run ⟨2, t, 3, 2⟩ contendedStores
    (fun _ s => ((controllerAt s.interconnect 2).any fun (d : Controller) => d.storeMisses = 1)
      && (controllerAt s.interconnect 1).any fun (c : Controller) =>
        decide (c.storeMisses = 2 ∧ c.cache.isModified 64 = Except.ok true))
    (by cases t <;> decide +kernel)
  obtain ⟨hd, hc⟩ := Bool.and_eq_true_iff.mp hp
  obtain ⟨d, hd, hmissed⟩ := (Option.any_eq_true _ _).mp hd
  obtain ⟨c, hc, hmod⟩ := (Option.any_eq_true _ _).mp hc
  obtain ⟨hmisses, hmod⟩ := of_decide_eq_true hmod
  exact ⟨h, s, hrun, c, d, hc, hd, hmisses, of_decide_eq_true hmissed, hmod⟩

theorem exclusivity_contended_stores :
    ∃ h s, System.run ⟨2, .mesi, 3, 2⟩ contendedStores = .ok (h, s)
      ∧ ∃ c d, controllerAt s.interconnect 1 = some c ∧ controllerAt s.interconnect 2 = some d
        ∧ c.storeMisses = 2 ∧ d.storeMisses = 1
        ∧ c.cache.isModified 64 = .ok true ∧ d.cache.contains 64 = .ok false := by
  obtain ⟨h, s, hrun, c, d, hc, hd, hmisses, hmissed, hmod⟩ := run_contendedStores .mesi
  exact ⟨h, s, hrun, c, d, hc, hd, hmisses, hmissed, hmod,
    exclusivity _ _ (by decide) h s hrun 1 2 c d 64 (by decide) hc hd (Or.inl hmod)⟩

/-- **MSI has a single writer**, and no line is ever `EXCLUSIVE`. -/
theorem msi_single_writer (ps : Params) (hps : ps.controllerType = .msi) (events : List Event)
    (hev : ∀ e ∈ events, e.Inserts Instruction.Plain) (h : List TickRecord) (s : System)
    (hrun : System.run ps events = .ok (h, s)) :
    (∀ a c adx, controllerAt s.interconnect a = some c → c.cache.isExclusive adx ≠ .ok true)
      ∧ ∀ a b c d adx, a ≠ b → controllerAt s.interconnect a = some c →
        controllerAt s.interconnect b = some d → c.cache.isModified adx = .ok true →
        d.cache.contains adx = .ok false := by
  obtain ⟨hok, _⟩ := plain_run hev hrun
  refine ⟨fun a c adx hc h0 => ?_, fun a b c d adx hab hc hd hmod => ?_⟩
  · have ok := hok.valid.controller hc
    have hal := ok.inv.allows _ _ (ok.inv.cache.isExclusive_iff.mp h0)
    rw [ok.controllerType, hps] at hal
    rcases hal with h1 | h1 <;> cases h1
  · have okc := (hok.valid.controller hc).inv.cache
    have okd := (hok.valid.controller hd).inv.cache
    rw [okd.contains, single_owner hev hrun hab hc hd (okc.isModified_iff.mp hmod) (Or.inl rfl)]
    rfl

theorem msi_single_writer_contended_stores :
    ∃ h s, System.run ⟨2, .msi, 3, 2⟩ contendedStores = .ok (h, s)
      ∧ ∃ c d, controllerAt s.interconnect 1 = some c ∧ controllerAt s.interconnect 2 = some d
        ∧ c.storeMisses = 2 ∧ d.storeMisses = 1
        ∧ c.cache.isModified 64 = .ok true ∧ d.cache.contains 64 = .ok false := by
  obtain ⟨h, s, hrun, c, d, hc, hd, hmisses, hmissed, hmod⟩ := run_contendedStores .msi
  exact ⟨h, s, hrun, c, d, hc, hd, hmisses, hmissed, hmod,
    (msi_single_writer _ rfl _ (by decide) h s hrun).2 1 2 c d 64 (by decide) hc hd hmod⟩

/-- No controller has a `BUSREAD` in a queue. -/
def NoBusRead (ic : Interconnect Node) : Prop :=
  ∀ a c, controllerAt ic a = some c → ∀ r ∈ c.busReqQueue ++ c.maxPriorityQueue,
    r.commandCode ≠ .busRead

theorem Valid.noBusRead (hv : Valid ps Q ic)
    (hps : ps.controllerType = .mi) : NoBusRead ic := by
  intro a c hc r hr
  have ok := hv.controller hc
  have ht : c.controllerType = .mi := ok.controllerType.trans hps
  rcases List.mem_append.mp hr with hr | hr
  · rw [(ok.inv.mem_busReqQueue hr).1]
    show c.missCommand ≠ .busRead
    rcases c.missCommand_cases with h0 | ⟨_, h0⟩
    · simp [h0]
    · exact absurd ht h0
  · have hcode := (ok.inv.urgent r hr).code
    rw [ht] at hcode
    have hcode : r.commandCode = .busWrite := hcode
    simp [hcode]

/-- **MI has a single holder**: all lines are `MODIFIED`, nobody ever asks for a line to
share, and no line is in two caches. -/
theorem mi_single_holder (ps : Params) (hps : ps.controllerType = .mi) (events : List Event)
    (hev : ∀ e ∈ events, e.Inserts Instruction.Plain) (h : List TickRecord) (s : System)
    (hrun : System.run ps events = .ok (h, s)) :
    (∀ a c adx, controllerAt s.interconnect a = some c → c.cache.contains adx = .ok true →
        c.cache.isModified adx = .ok true)
      ∧ NoBusRead s.interconnect
      ∧ (∀ rec ∈ h, (∀ r, rec.sent = some r → r.commandCode ≠ .busRead)
        ∧ ∀ mid, rec.before.tickNodes = .ok mid → NoBusRead mid.interconnect)
      ∧ ∀ a b c d adx, a ≠ b → controllerAt s.interconnect a = some c →
        controllerAt s.interconnect b = some d → c.cache.contains adx = .ok true →
        d.cache.contains adx = .ok false := by
  obtain ⟨hok, _⟩ := plain_run hev hrun
  -- an MI cache allows no other state
  have held {a : Nat} {c : Controller} {adx : Nat} (hc : controllerAt s.interconnect a = some c)
      (hin : c.cache.contains adx = .ok true) : c.cache.get adx = some .modified := by
    have ok := hok.valid.controller hc
    rw [ok.inv.cache.contains, Except.ok.injEq] at hin
    obtain ⟨m, hm⟩ := Option.isSome_iff_exists.mp hin
    have hal := ok.inv.allows _ _ hm
    rw [ok.controllerType, hps] at hal
    have hal : m = .modified := hal
    rw [hm, hal]
  refine ⟨fun a c adx hc hin => ?_, hok.valid.noBusRead hps, fun rec hrec => ⟨fun r hr => ?_, ?_⟩,
    fun a b c d adx hab hc hd hin => ?_⟩
  · exact (hok.valid.controller hc).inv.cache.isModified_iff.mpr (held hc hin)
  · obtain ⟨m, hcycle⟩ := (Run.of_system_run hrun).cycle rec hrec
    have hev := hcycle.event
    rw [hr] at hev
    cases hev with
    | controller _ _ hbus => exact (hbus.receivable.mi hps).1
    | memory _ _ hbus => exact (hbus.receivable.mi hps).1
  · intro mid hmid
    obtain ⟨m, hcycle⟩ := (Run.of_system_run hrun).cycle rec hrec
    rw [hcycle.tickNodes] at hmid; cases hmid
    exact hcycle.valid.noBusRead hps
  · rw [(hok.valid.controller hd).inv.cache.contains,
      single_owner hev hrun hab hc hd (held hc hin) (Or.inl rfl)]
    rfl

theorem mi_single_holder_contended_stores :
    ∃ h s, System.run ⟨2, .mi, 3, 2⟩ contendedStores = .ok (h, s)
      ∧ ∃ c d, controllerAt s.interconnect 1 = some c ∧ controllerAt s.interconnect 2 = some d
        ∧ c.storeMisses = 2 ∧ d.storeMisses = 1
        ∧ c.cache.contains 64 = .ok true ∧ d.cache.contains 64 = .ok false := by
  obtain ⟨h, s, hrun, c, d, hc, hd, hmisses, hmissed, hmod⟩ := run_contendedStores .mi
  have okc := ((Run.of_system_run hrun).ok.valid.controller hc).inv.cache
  have hin : c.cache.contains 64 = .ok true := by
    rw [okc.contains, okc.isModified_iff.mp hmod]; rfl
  exact ⟨h, s, hrun, c, d, hc, hd, hmisses, hmissed, hin,
    (mi_single_holder _ rfl _ (by decide) h s hrun).2.2.2 1 2 c d 64 (by decide) hc hd hin⟩

end CoherenceSim
