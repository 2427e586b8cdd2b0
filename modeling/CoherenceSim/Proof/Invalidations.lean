import CoherenceSim.Proof.Coherence
import CoherenceSim.Proof.InstructionOrder

/-!
# What an `INVALIDATE` meets

A store that finds its line `SHARED` queues an `INVALIDATE`, and the comment in
`handleInvalidate` says that it can meet no modified copy. But it waits for the bus, and while it
waits another node's `BUSREADX` or `INVALIDATE` can take the line away. The `INVALIDATE` goes out
all the same, from a cache that does not have the line any more, to one that may have modified it.

Short of that, the comment is right: the line stays `SHARED` as long as the `INVALIDATE` waits,
and so nobody else owns it. Only two lines that are one line to the caches can still spoil it: a
controller that waits for the one does not notice what is asked for under the name of the other.
-/

namespace CoherenceSim

open SnoopLine

/-- An `INVALIDATE` for this line waits in the controller's queue. -/
def Controller.HasInvalidate (c : Controller) (adx : Nat) : Prop :=
  ∃ r ∈ c.maxPriorityQueue, r.commandCode = .invalidate ∧ r.payload = adx

/-- If this tick broadcasts an `INVALIDATE`, its sender holds the line `SHARED` and nobody else
holds it modified or exclusive. -/
def InvalidatesSafely (rec : TickRecord) : Prop :=
  ∀ r mid, rec.sent = some r → r.commandCode = .invalidate → rec.before.tickNodes = .ok mid →
    (∃ c, controllerAt mid.interconnect r.sourceAddress = some c
      ∧ c.cache.isShared r.payload = .ok true)
    ∧ ∀ b d, b ≠ r.sourceAddress → controllerAt mid.interconnect b = some d →
      d.cache.isModified r.payload ≠ .ok true ∧ d.cache.isExclusive r.payload ≠ .ok true

/-- Every `INVALIDATE` of every run is safe. -/
def InvalidationsSafe (ps : Params) : Prop :=
  ∀ h s, Run ps h s → ∀ rec ∈ h, InvalidatesSafely rec

/-- In this tick no controller is made to drop a line for which its own `INVALIDATE` waits. -/
def Undisturbed (rec : TickRecord) : Prop :=
  ∀ r mid, rec.sent = some r → r.commandCode = .busReadX ∨ r.commandCode = .invalidate →
    rec.before.tickNodes = .ok mid → ∀ b d, b ≠ r.sourceAddress →
      controllerAt mid.interconnect b = some d → ¬ d.HasInvalidate r.payload

/-- The cache tells the lines apart that the run accesses: those of the instructions that were
handed over. -/
def LinesApart (h : List TickRecord) : Prop :=
  ∀ a b, ∀ i ∈ handedOver a h, ∀ j ∈ handedOver b h, lineKey i.address = lineKey j.address →
    i.address - i.address % 32 = j.address - j.address % 32

/-- A line that was accessed. -/
def Accessed (h : List TickRecord) (adx : Nat) : Prop :=
  ∃ a, ∃ i ∈ handedOver a h, i.address - i.address % 32 = adx

section

variable {h : List TickRecord}

theorem aligned_of_accessed {adx : Nat} (ha : Accessed h adx) : Aligned adx := by
  obtain ⟨a, i, _, rfl⟩ := ha
  have := i.isLt
  exact ⟨by omega, by omega⟩

theorem LinesApart.apart (hapart : LinesApart h) {x y : Nat} (hx : Accessed h x)
    (hy : Accessed h y) (hkey : lineKey x = lineKey y) : x = y := by
  obtain ⟨a, i, hi, rfl⟩ := hx
  obtain ⟨b, j, hj, rfl⟩ := hy
  refine hapart a b i hi j hj ?_
  rw [lineKey, lineKey] at hkey ⊢
  omega

/-- The lines of a run. -/
def LinesApart.lines (hapart : LinesApart h) : Lines where
  Has := Accessed h
  aligned := aligned_of_accessed
  apart := hapart.apart

/-- Below `2 ^ 47` the cache tells all lines apart. -/
theorem linesApart_of_plain {ps : Params} {events : List Event} {s : System}
    (hev : ∀ e ∈ events, e.Inserts Instruction.Plain)
    (hrun : System.run ps events = .ok (h, s)) : LinesApart h := by
  intro a b i hi j hj hkey
  obtain ⟨n, hi⟩ := inserted_of_handedOver hrun hi
  obtain ⟨m, hj⟩ := inserted_of_handedOver hrun hj
  have hi : i.address < 2 ^ 47 := hev _ hi
  have hj : j.address < 2 ^ 47 := hev _ hj
  rw [lineKey, lineKey] at hkey
  omega

end

namespace Controller

variable {L : Lines} {c c' : Controller} {d : BusRequest} {adx a : Nat}

/-- Lines for which an `INVALIDATE` waits are shared. -/
def HoldsInvalidated (c : Controller) : Prop :=
  ∀ adx, c.HasInvalidate adx → c.cache.get adx = some .shared

/-- A request of another kind does not count. -/
theorem hasInvalidate_of_cons {r : BusRequest} (hr : r.commandCode ≠ .invalidate)
    (h : ∃ r' ∈ r :: c.maxPriorityQueue, r'.commandCode = .invalidate ∧ r'.payload = adx) :
    c.HasInvalidate adx := by
  obtain ⟨r', hr', hcode, hp⟩ := h
  rcases List.mem_cons.mp hr' with rfl | hr'
  · exact absurd hcode hr
  · exact ⟨r', hr', hcode, hp⟩

/-- A read that is out, or answered, leaves no `INVALIDATE` in the queue. -/
theorem Inv.not_hasInvalidate (h : c.Inv) (hm : c.Missing) (hw : c.awaitingDataLocal = false) :
    ¬ c.HasInvalidate adx := by
  rintro ⟨r, hr, hcode, _⟩
  exact (((h.miss hm).stage.busReqQueue_of hw).2 r hr).1 hcode

theorem get_put {m : MESI} {k : Cache} (hput : c.cache.Put a (some m) k)
    (h : c.cache.get adx = some .shared)
    (hm : lineKey adx = lineKey a → m = .shared) : k.get adx = some .shared := by
  by_cases hkey : lineKey adx = lineKey a
  · rw [Cache.get, hkey, ← Cache.get, hput.get_self, hm hkey]
  · rw [hput.get_of_ne hkey, h]

/-- **Preserved by a step of the state machine.** -/
theorem Transitioned.holdsInvalidated (hs : Transitioned c c') (h : c.Inv)
    (hold : c.HoldsInvalidated) : c'.HoldsInvalidated := by
  intro adx hi
  cases hs with
  | rest | retire | wait | invalidateQueued | loadMiss | storeMiss | loadDropped => exact hold adx hi
  | @loadHit a m k _ _ _ hm hput =>
      have hget : c.cache.get adx = some .shared := hold adx hi
      refine get_put hput hget fun hkey => ?_
      rw [Cache.get, hkey, ← Cache.get, hm] at hget
      exact Option.some.inj hget
  | @storeHit a m k _ _ _ hm hown hput =>
      have hget : c.cache.get adx = some .shared := hold adx hi
      refine get_put hput hget fun hkey => ?_
      rw [Cache.get, hkey, ← Cache.get, hm] at hget
      rcases hown with rfl | rfl <;> cases hget
  | @storeShared a _ _ hinst hm =>
      obtain ⟨r, hr, hcode, rfl⟩ := hi
      rcases List.mem_cons.mp hr with rfl | hr
      · show c.cache.get (c.cache.getLineAlignedAddress a) = _
        rw [h.cache.getLineAlignedAddress_of_aligned (hinst.aligned h.cache), hm]
      · exact hold _ ⟨r, hr, hcode, rfl⟩
  | loadFilled hs hw => exact absurd hi (h.not_hasInvalidate (Or.inl hs) hw)
  | storeDropped => exact hold adx (hasInvalidate_of_cons (by simp [makeRequest]) hi)
  | storeFilled hs hw => exact absurd hi (h.not_hasInvalidate (Or.inr hs) hw)

theorem Ticked.holdsInvalidated (ht : Ticked c c') (h : c.Inv) (hold : c.HoldsInvalidated) :
    c'.HoldsInvalidated := by
  cases ht with
  | plain hs => exact hs.holdsInvalidated h hold
  | handed hs => exact hs.holdsInvalidated h hold

/-- **Preserved by snooping**, unless the line is lost. -/
theorem Snooped.holdsInvalidated (hs : Snooped d c c') (hline : d.commandCode.Delivers
      ∨ d.commandCode = .nullBurst ∨ L.Has d.payload)
    (hq : ∀ r ∈ c.maxPriorityQueue, L.Has r.payload)
    (hund : d.commandCode = .busReadX ∨ d.commandCode = .invalidate →
      ¬ c.HasInvalidate d.payload) (hold : c.HoldsInvalidated) : c'.HoldsInvalidated := by
  intro adx hi
  have answer {m : MESI} {k : Cache}
      (hi : HasInvalidate
        { c.queueMaxPriorityBusCommand (answerCode m) d.payload with cache := k } adx) :
      c.HasInvalidate adx := hasInvalidate_of_cons (answerCode_ne_invalidate m) hi
  have keep {k : Cache} (hput : c.cache.Put d.payload (some .shared) k)
      (hi : c.HasInvalidate adx) : k.get adx = some .shared :=
    get_put hput (hold adx hi) fun _ => rfl
  -- another line than the one that is lost
  have lose {k : Cache} (hcode : d.commandCode = .busReadX ∨ d.commandCode = .invalidate)
      (hput : c.cache.Put d.payload none k) (hi : c.HasInvalidate adx) :
      k.get adx = some .shared := by
    have hd : L.Has d.payload := by
      rcases hline with h0 | h0 | h0
      · rcases hcode with h1 | h1 <;> simp [h1, CommandCode.Delivers] at h0
      · rcases hcode with h1 | h1 <;> rw [h1] at h0 <;> cases h0
      · exact h0
    have hne : lineKey adx ≠ lineKey d.payload := by
      intro hkey
      have heq : adx = d.payload := by
        obtain ⟨r, hr, _, hp⟩ := hi
        exact L.apart (hp ▸ hq r hr) hd hkey
      exact hund hcode (heq ▸ hi)
    rw [hput.get_of_ne hne, hold adx hi]
  have uncancel
      (hi : HasInvalidate { c with maxPriorityQueue := uncancelled d c.maxPriorityQueue } adx) :
      c.HasInvalidate adx := by
    obtain ⟨r, hr, h0⟩ := hi
    exact ⟨r, mem_uncancelled hr, h0⟩
  cases hs with
  | holdRead _ _ _ hput => exact keep hput (answer hi)
  | holdReadX hcode _ hput => exact lose (Or.inl hcode) hput (answer hi)
  | holdInvalidate hcode _ _ hput => exact lose (Or.inr hcode) hput hi
  | holdInvalidateModified hcode _ hput =>
      exact lose (Or.inr hcode) hput (hasInvalidate_of_cons (by simp [makeRequest]) hi)
  | holdShareMe _ _ _ hput => exact keep hput hi
  | waitRead => exact hold adx (hasInvalidate_of_cons (by simp [makeRequest]) hi)
  | waitReadX | waitInvalidate | waitShareMe => exact hold adx hi
  | data => exact hold adx (uncancel hi)
  | ignored => exact hold adx (uncancel hi)

/-- Sending leaves the cache alone and adds nothing to the queue. -/
theorem Sent.holdsInvalidated (hs : Sent c d c') (hold : c.HoldsInvalidated) :
    c'.HoldsInvalidated := by
  intro adx hi
  obtain ⟨r, hr, h0⟩ := hi
  obtain ⟨_, _, _, hcache⟩ := hs.sameState
  rw [hcache]
  exact hold adx ⟨r, hs.mem_queue hr, h0⟩

theorem Sent.hasInvalidate (hs : Sent c d c') (hd : d.commandCode = .invalidate) :
    c.HasInvalidate d.payload := by
  cases hs with
  | nullBurst => cases hd
  | transfer hr | command hr => exact ⟨d, List.mem_of_mem_getLast? hr, hd, rfl⟩
  | read =>
      have hd : c.missCommand = .invalidate := hd
      rcases c.missCommand_cases with h0 | ⟨h0, _⟩ <;> rw [h0] at hd <;> cases hd

end Controller

/-! ## Runs -/

/-- What a controller has at hand was handed to it. -/
def AllHanded (h : List TickRecord) (ic : Interconnect Node) : Prop :=
  ∀ a c, controllerAt ic a = some c → ∀ i, c.currentInstruction = some i → i ∈ handedOver a h

/-- Lines for which an `INVALIDATE` waits anywhere are shared there. -/
def AllHoldInvalidated (ic : Interconnect Node) : Prop :=
  ∀ a c, controllerAt ic a = some c → c.HoldsInvalidated

/-- What holds in every state of a run, as long as no `INVALIDATE` is overtaken. -/
structure Undisputed (L : Lines) (ps : Params) (h : List TickRecord) (s : System) : Prop where
  handed : AllHanded h s.interconnect
  lines : LinesIn L s.interconnect
  protocol : ∀ adx, L.Has adx → SnoopLine.Inv (busView ps s.interconnect adx)
  shared : AllHoldInvalidated s.interconnect

variable {L : Lines} {ps : Params} {Q : Instruction → Prop} {h : List TickRecord}
  {s mid s' : System} {req : Option BusRequest}

theorem Processor.Turn.taken {p p' : Processor} {c : Controller} {o : Option Instruction}
    (ht : p.Turn c o p') {i : Instruction}
    (hi : p'.cacheController.currentInstruction = some i) :
    c.currentInstruction = some i ∨ o = some i := by
  cases ht with
  | rests | waits => exact Or.inl hi
  | handsOver => exact Or.inr hi

theorem allHanded_ticks (hok : s.Ok ps Q) (hok' : s'.Ok ps Q) (hcycle : Cycle ps Q s mid req s')
    (hold : AllHanded h s.interconnect) :
    AllHanded (⟨s, req, s'⟩ :: h) mid.interconnect := by
  intro a c' hc' i hi
  obtain ⟨p', hp', rfl⟩ := nodeAt_of_controllerAt hc'
  obtain ⟨p, p₁, _, hc⟩ := hcycle.processor hok hok' (hcycle.valid.controller hc').range
  rw [hc.between] at hp'; cases hp'
  obtain ⟨c₁, -, hs, hturn⟩ := hc.inv.turn hc.tick
  rw [handedOver_cons hc.before]
  rcases hturn.taken hi with h0 | h0
  · have h0 : p.cacheController.currentInstruction = some i := hs.currentInstruction ▸ h0
    exact List.mem_append_left _ (hold a _ (controllerAt_of_nodeAt hc.before) i h0)
  · exact List.mem_append_right _ (by rw [h0]; exact List.mem_cons_self)

theorem AllHanded.currentIn {ic : Interconnect Node} (ha : AllHanded h ic)
    (hin : ∀ a, ∀ i ∈ handedOver a h, i.In L) : CurrentIn L ic :=
  fun a c hc i hi => hin a i (ha a c hc i hi)

theorem allHoldInvalidated_ticks {ic mid : Interconnect Node}
    (hv : Valid ps Q ic) (hmid : Valid ps Q mid) (ht : Ticks ic mid) (hold : AllHoldInvalidated ic) :
    AllHoldInvalidated mid := by
  intro a c' hc'
  obtain ⟨c, hc, hs⟩ := ht.controllerBefore hv hmid hc'
  exact hs.holdsInvalidated (hv.controller hc).inv (hold a c hc)

/-- **Preserved by an undisturbed cycle.** -/
theorem allHoldInvalidated_cycle (hok : s.Ok ps Q) (hok' : s'.Ok ps Q)
    (hcycle : Cycle ps Q s mid req s') (hund : Undisturbed ⟨s, req, s'⟩)
    (hl : LinesIn L mid.interconnect) (hold : AllHoldInvalidated s.interconnect) :
    AllHoldInvalidated s'.interconnect := by
  have hold' := allHoldInvalidated_ticks hok.valid hcycle.valid hcycle.ticks hold
  have hev := hcycle.event
  intro a c' hc'
  obtain ⟨c, hc, hpassed⟩ := hev.passed hcycle.valid hok'.valid hc'
  cases hpassed with
  | quiet => exact hold' a c hc
  | missed => exact hold' a c' hc
  | sent _ _ hs => exact hs.holdsInvalidated (hold' a c hc)
  | received hsrc _ hs =>
      exact hs.holdsInvalidated (hev.asks hcycle.valid hl) (hl.queue a c hc)
        (fun hcode => hund _ mid rfl hcode hcycle.tickNodes a c (Ne.symm hsrc) hc) (hold' a c hc)

namespace Undisputed

theorem initial (hs : s.Initial ps) : Undisputed L ps [] s := by
  refine ⟨fun a c hc i hi => ?_, linesIn_initial hs, fun adx _ => (busView_initial hs).inv,
    fun a c hc adx hi => ?_⟩
  · rw [hs.controller a c hc] at hi; cases hi
  · rw [hs.controller a c hc] at hi
    obtain ⟨r, hr, _⟩ := hi
    cases hr

theorem inserted (hu : Undisputed L ps h s) (hins : Inserted s s') : Undisputed L ps h s' where
  handed a c hc := hu.handed a c (by rw [← hins.controller]; exact hc)
  lines := hu.lines.inserted hins
  protocol adx hadx := by rw [busView_inserted hins]; exact hu.protocol adx hadx
  shared a c hc := hu.shared a c (by rw [← hins.controller]; exact hc)

/-- **Preserved by an undisturbed cycle** in which only these lines are taken up. -/
theorem cycle (hu : Undisputed L ps h s) (hok : s.Ok ps Q) (hok' : s'.Ok ps Q)
    (hcycle : Cycle ps Q s mid req s') (hund : Undisturbed ⟨s, req, s'⟩)
    (hin : ∀ a, ∀ i ∈ handedOver a (⟨s, req, s'⟩ :: h), i.In L) :
    Undisputed L ps (⟨s, req, s'⟩ :: h) s' := by
  have hhanded := allHanded_ticks hok hok' hcycle hu.handed
  have hcur : CurrentIn L mid.interconnect := hhanded.currentIn hin
  have hl := linesIn_ticks hok.valid hcycle.valid hcycle.ticks hu.lines hcur
  refine ⟨fun a c' hc' i hi => ?_, hcycle.linesIn hok hok' hu.lines hcur,
    fun adx hadx => (hcycle.steps hok hok' hu.lines hcur hadx).inv (hu.protocol adx hadx),
    allHoldInvalidated_cycle hok hok' hcycle hund hl hu.shared⟩
  obtain ⟨c, hc, hpassed⟩ := hcycle.event.passed hcycle.valid hok'.valid hc'
  exact hhanded a c hc i (hpassed.sameState.2.2 ▸ hi)

end Undisputed

/-- An `INVALIDATE` finds its line as its sender left it. -/
theorem Undisputed.invalidatesSafely (hu : Undisputed L ps h s) (hok : s.Ok ps Q)
    (hcycle : Cycle ps Q s mid req s') (hcur : CurrentIn L mid.interconnect) :
    InvalidatesSafely ⟨s, req, s'⟩ := by
  have hl := linesIn_ticks hok.valid hcycle.valid hcycle.ticks hu.lines hcur
  have hold' := allHoldInvalidated_ticks hok.valid hcycle.valid hcycle.ticks hu.shared
  intro r mid' hreq hcode hmid'
  rw [hcycle.tickNodes] at hmid'; cases hmid'
  have hev := hcycle.event
  obtain rfl : req = some r := hreq
  cases hev with
  | @controller a c c' _ _ hc hsrc _ _ _ hs =>
      have hi : c.HasInvalidate r.payload := hs.hasInvalidate hcode
      have hshared := hold' a c hc r.payload hi
      obtain ⟨r', hr', _, hp⟩ := hi
      have hline : L.Has r.payload := hp ▸ hl.queue a c hc r' hr'
      have hmid := (busView_ticks hok.valid hcycle.valid hcycle.ticks hu.lines hline).inv
        (hu.protocol _ hline)
      have okc := hcycle.valid.controller hc
      refine ⟨⟨c, hsrc ▸ hc, okc.inv.cache.isShared_iff.mpr hshared⟩, fun b d hb hd => ?_⟩
      have okd := hcycle.valid.controller hd
      have owns {m : MESI} (hm : d.cache.get r.payload = some m)
          (how : m = .modified ∨ m = .exclusive) : False := by
        have hnone := hcycle.valid.single_owner hmid (hsrc ▸ hb) hd hc hm how
        rw [hshared] at hnone; cases hnone
      exact ⟨fun h0 => owns (okd.inv.cache.isModified_iff.mp h0) (Or.inl rfl),
        fun h0 => owns (okd.inv.cache.isExclusive_iff.mp h0) (Or.inr rfl)⟩
  | memory hm _ _ _ _ hqm =>
      rcases (hcycle.valid.memoryOk hm).2.queue r (by rw [hqm]; exact List.mem_cons_self) with h0 | h0
      · rw [h0.code] at hcode; cases hcode
      · rw [h0.code] at hcode; cases hcode

/-- The lines of a longer run are more. -/
theorem handedOver_subset {rec : TickRecord} {a : Nat} {i : Instruction} (hi : i ∈ handedOver a h) :
    i ∈ handedOver a (rec :: h) :=
  List.mem_append_left _ hi

theorem Undisputed.of_run (hrun : Run ps h s) (hin : ∀ a, ∀ i ∈ handedOver a h, i.In L)
    (hund : ∀ rec ∈ h, Undisturbed rec) :
    Undisputed L ps h s ∧ ∀ rec ∈ h, InvalidatesSafely rec := by
  refine Run.induct (P := fun h s => (∀ a, ∀ i ∈ handedOver a h, i.In L) →
    (∀ rec ∈ h, Undisturbed rec) → Undisputed L ps h s ∧ ∀ rec ∈ h, InvalidatesSafely rec)
    ?_ ?_ ?_ hrun hin hund
  · exact fun s hs _ _ => ⟨.initial hs, fun rec hrec => (by cases hrec)⟩
  · intro h s s' _ _ hins ih hin hund
    obtain ⟨hu, hsafe⟩ := ih hin hund
    exact ⟨hu.inserted hins, hsafe⟩
  · intro h s mid req s' hok hok' hcycle ih hin hund
    obtain ⟨hu, hsafe⟩ := ih (fun a i hi => hin a i (handedOver_subset hi))
      fun rec hrec => hund rec (List.mem_cons_of_mem _ hrec)
    refine ⟨hu.cycle hok hok' hcycle (hund _ List.mem_cons_self) hin, fun rec hrec => ?_⟩
    rcases List.mem_cons.mp hrec with rfl | hrec
    · exact hu.invalidatesSafely hok hcycle ((allHanded_ticks hok hok' hcycle hu.handed).currentIn hin)
    · exact hsafe rec hrec

/-- **An `INVALIDATE` meets no modified copy**, and leaves a shared one behind, as long as the
cache tells the lines apart that the run accesses and no controller loses a line while its own
`INVALIDATE` waits. -/
theorem invalidations_safe (ps : Params) (h : List TickRecord) (s : System) (hrun : Run ps h s)
    (hapart : LinesApart h) (hund : ∀ rec ∈ h, Undisturbed rec) :
    ∀ rec ∈ h, InvalidatesSafely rec :=
  (Undisputed.of_run (L := hapart.lines) hrun (fun a i hi => ⟨a, i, hi, rfl⟩) hund).2

/-- Processors 0 and 1 load a line, and then both store to it, while processor 2 has a line of its
own. -/
def sharedStores : List Event :=
  [.insert .load 64 0, .insert .load 64 1, .insert .load 128 2] ++ List.replicate 14 .tick
    ++ [.insert .store 64 0, .insert .store 128 2] ++ List.replicate 4 .tick
    ++ [.insert .store 64 1] ++ List.replicate 8 .tick

/-- Is `Undisturbed` met, as far as these controllers go? -/
def undisturbed (addresses : List Nat) (rec : TickRecord) : Bool :=
  rec.sent.all fun r => rec.before.tickNodes.toOption.all fun mid => addresses.all fun b =>
    (controllerAt mid.interconnect b).all fun d => b = r.sourceAddress
      ∨ ∀ r' ∈ d.maxPriorityQueue, ¬ (r'.commandCode = .invalidate ∧ r'.payload = r.payload)

theorem Undisturbed.of_check (hrun : Run ps h s) {rec : TickRecord} (hrec : rec ∈ h)
    (hcheck : undisturbed ((List.range ps.numProcessors).map (· + 1)) rec = true) :
    Undisturbed rec := by
  rintro r mid hsent hcode hmid b d hb hd ⟨r', hr', hinv⟩
  obtain ⟨mid', hcycle⟩ := hrun.cycle rec hrec
  have hrange := (hcycle.valid.controller (a := b) (c := d) (by
    rw [hcycle.tickNodes] at hmid; cases hmid; exact hd)).range
  have hmem : b ∈ (List.range ps.numProcessors).map (· + 1) :=
    List.mem_map.mpr ⟨b - 1, List.mem_range.mpr (by omega), by omega⟩
  rw [undisturbed, hsent, hmid] at hcheck
  have hall := List.all_eq_true.mp hcheck b hmem
  rw [hd] at hall
  rcases of_decide_eq_true hall with h0 | h0
  · exact hb h0
  · exact h0 r' hr' hinv

/-- The `INVALIDATE` of processor 0 meets the other copy and leaves it as it was shared. -/
theorem invalidations_safe_shared_stores : ∃ h s, Run ⟨3, .msi, 1, 2⟩ h s
    ∧ (∃ rec ∈ h, ∃ r mid d, rec.sent = some r ∧ r.commandCode = .invalidate
      ∧ r.sourceAddress = 1 ∧ rec.before.tickNodes = .ok mid
      ∧ controllerAt mid.interconnect 2 = some d ∧ d.cache.isShared r.payload = .ok true)
    ∧ ∀ rec ∈ h, InvalidatesSafely rec := by
  obtain ⟨h, s, hrun, hp⟩ := System.exists_run ⟨3, .msi, 1, 2⟩ sharedStores
    (fun h _ => (h.any fun (rec : TickRecord) => rec.sent.any fun (r : BusRequest) =>
        decide (r.commandCode = .invalidate ∧ r.sourceAddress = 1)
          && rec.before.tickNodes.toOption.any fun (mid : System) =>
            (controllerAt mid.interconnect 2).any fun (d : Controller) =>
              decide (d.cache.isShared r.payload = Except.ok true))
      && h.all (undisturbed [1, 2, 3]))
    (by decide +kernel)
  obtain ⟨hany, hall⟩ := Bool.and_eq_true_iff.mp hp
  have hrun' := Run.of_system_run hrun
  refine ⟨h, s, hrun', ?_, invalidations_safe _ h s hrun'
    (linesApart_of_plain (show ∀ e ∈ sharedStores, e.Inserts Instruction.Plain by decide) hrun)
    fun rec hrec => Undisturbed.of_check hrun' hrec (List.all_eq_true.mp hall rec hrec)⟩
  obtain ⟨rec, hrec, hp⟩ := List.any_eq_true.mp hany
  obtain ⟨r, hsent, hp⟩ := (Option.any_eq_true _ _).mp hp
  obtain ⟨hcode, hp⟩ := Bool.and_eq_true_iff.mp hp
  obtain ⟨hcode, hsource⟩ := of_decide_eq_true hcode
  obtain ⟨mid, hmid, hp⟩ := Outcome.any_toOption.mp hp
  obtain ⟨d, hd, hshared⟩ := (Option.any_eq_true _ _).mp hp
  exact ⟨rec, hrec, r, mid, d, hsent, hcode, hsource, hmid, hd, of_decide_eq_true hshared⟩

/-- Processors 1 and 2 share a line and processor 2 stores to it, but before its `INVALIDATE` is
on the bus, the `BUSREADX` of processor 0 is. -/
def invalidateRace : List Event :=
  [.insert .store 64 1, .insert .load 128 0] ++ List.replicate 7 .tick
    ++ [.insert .load 64 2, .tick, .tick, .insert .store 64 2, .tick, .insert .load 128 1,
      .insert .store 64 0] ++ List.replicate 9 .tick

theorem not_invalidationsSafe : ¬ InvalidationsSafe ⟨3, .msi, 1, 2⟩ := by
  intro hclaim
  obtain ⟨h, s, hrun, hp⟩ := Run.of_run ⟨3, .msi, 1, 2⟩ invalidateRace
    (fun h _ => h.any fun (rec : TickRecord) => rec.sent.any fun (r : BusRequest) =>
      decide (r.commandCode = .invalidate) && decide (1 ≠ r.sourceAddress)
        && rec.before.tickNodes.toOption.any fun (mid : System) =>
          (controllerAt mid.interconnect 1).any fun (c : Controller) =>
            decide (c.cache.isModified r.payload = Except.ok true))
    (by decide +kernel)
  obtain ⟨rec, hrec, hp⟩ := List.any_eq_true.mp hp
  obtain ⟨r, hsent, hp⟩ := (Option.any_eq_true _ _).mp hp
  obtain ⟨hp, hmod⟩ := Bool.and_eq_true_iff.mp hp
  obtain ⟨hcode, hne⟩ := Bool.and_eq_true_iff.mp hp
  obtain ⟨mid, hmid, hmod⟩ := Outcome.any_toOption.mp hmod
  obtain ⟨c, hc, hmod⟩ := (Option.any_eq_true _ _).mp hmod
  exact ((hclaim h s hrun rec hrec r mid hsent (of_decide_eq_true hcode) hmid).2 1 c
    (of_decide_eq_true hne) hc).1 (of_decide_eq_true hmod)

end CoherenceSim
