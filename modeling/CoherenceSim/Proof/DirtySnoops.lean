import CoherenceSim.Proof.Geometry
import CoherenceSim.Proof.SystemTick

/-!
# Snooping and dirty data

What a command of another node does to a controller in any state, with anything in its cache. A
command works on the line that the cache finds for its payload and on no other slot, and takes
its `MODIFIED` state away only with a write-back.

There are two exceptions. `SHAREME` has no write-back, unlike its siblings. And from `2 ^ 47` on
the line that is found need not be the line of the payload, since tags are cut to 32 bits.
-/

namespace CoherenceSim

/-! ## Slots and what they hold -/

namespace CacheSet

variable {s s' : CacheSet} {i j : Nat} {l : CacheLine}

/-- The tag and the state of the valid line in a slot. -/
def heldAt (s : CacheSet) (j : Nat) : Option (Nat × MESI) :=
  (s.lineArry[j]?).bind fun l => if l.isValid then some (l.getTag, l.getMESI) else none

theorem heldAt_eq (hl : s.lineArry[j]? = some l) :
    s.heldAt j = if l.isValid then some (l.getTag, l.getMESI) else none := by
  rw [heldAt, hl, Option.bind_some]

/-- LRU values are no part of what a slot holds. -/
theorem SameLines.heldAt (hs : SameLines s s') (j : Nat) : s'.heldAt j = s.heldAt j := by
  have held (s : CacheSet) : s.heldAt j = ((s.lineArry.map CacheLine.eraseLRU)[j]?).bind
      fun l => if l.isValid then some (l.getTag, l.getMESI) else none := by
    rw [List.getElem?_map, CacheSet.heldAt]
    cases s.lineArry[j]? <;> rfl
  rw [held s', held s, hs]

theorem heldAt_modifyLine (hl : s.lineArry[i]? = some l) (f : CacheLine → CacheLine) (j : Nat) :
    (s.modifyLine i f).heldAt j = if j = i
      then (if (f l).isValid then some ((f l).getTag, (f l).getMESI) else none) else s.heldAt j := by
  split
  · rename_i hj
    subst hj
    refine heldAt_eq ?_
    show (s.lineArry.modify j f)[j]? = _
    rw [List.getElem?_modify, hl]
    simp
  · rename_i hj
    rw [heldAt, heldAt]
    congr 1
    exact List.getElem?_modify_ne f s.lineArry (Ne.symm hj)

theorem heldAt_setMESI (hl : s.lineArry[i]? = some l) (value : MESI) (j : Nat) :
    (s.modifyLine i (·.setMESI value)).heldAt j = if j = i
      then (if l.isValid then some (l.getTag, value) else none) else s.heldAt j :=
  heldAt_modifyLine hl _ j

theorem heldAt_invalidateAt (hl : s.lineArry[i]? = some l) (j : Nat) :
    (s.invalidateAt i).heldAt j = if j = i then none else s.heldAt j := by
  rw [invalidateAt, (sameLines_checkAndFixLRU _).heldAt, heldAt_modifyLine hl]
  rfl

end CacheSet

namespace Cache

variable {c : Cache} {adx : Nat} {set set' : CacheSet} {i : Nat} {l : CacheLine}

/-- The address that the number of the set and the stored tag of a valid line stand for, and its
state. -/
def heldAt (c : Cache) (k j : Nat) : Option (Nat × MESI) :=
  (c.setArry[k]?).bind fun set => (set.heldAt j).map fun p => (c.getAddress k p.1, p.2)

/-- The cache of a controller, with anything in its lines. The masks are what the constructor
made them. -/
structure AnyContent (c : Cache) : Prop where
  built : Built ADX_LEN NUM_SETS LINES_PER_SET BYTES_PER_LINE c
  tagMask : ∀ set ∈ c.setArry, ∀ l ∈ set.lineArry, l.tagMask = 2 ^ 32 - 1

instance (c : Cache) : Decidable c.AnyContent :=
  decidable_of_iff
    (c = { Cache.new ADX_LEN NUM_SETS LINES_PER_SET BYTES_PER_LINE with setArry := c.setArry }
      ∧ ∀ set ∈ c.setArry, ∀ l ∈ set.lineArry, l.tagMask = 2 ^ 32 - 1)
    ⟨fun h => ⟨⟨_, h.1⟩, h.2⟩, fun h => ⟨by obtain ⟨sets, hc⟩ := h.built; rw [hc], h.tagMask⟩⟩

/-- The slot that the cache finds for an address: the first with a matching tag, valid or not. -/
structure Finds (c : Cache) (adx : Nat) (set : CacheSet) (i : Nat) (l : CacheLine) : Prop where
  get : c.setArry[c.getAdxSetNum adx]? = some set
  getLine : set.getLine (c.getTag adx) = .ok i
  slot : set.lineArry[i]? = some l

/-- The line in that slot. -/
def found (c : Cache) (adx : Nat) : Option CacheLine := do
  let set ← c.setArry[c.getAdxSetNum adx]?
  let i ← (set.getLine (c.getTag adx)).toOption
  set.lineArry[i]?

theorem Finds.found_eq (hf : Finds c adx set i l) : c.found adx = some l := by
  simp [found, hf.get, hf.getLine, Except.toOption, hf.slot]

theorem Finds.setOf (hf : Finds c adx set i l) : c.setOf adx = .ok set :=
  setOf_of_getElem? hf.get

theorem Finds.contains (hf : Finds c adx set i l) : c.contains adx = .ok true := by
  obtain ⟨_, hcontains, _⟩ := Outcome.bind_eq_ok.mp hf.getLine
  rw [Cache.contains, hf.setOf]
  show Except.ok (set.contains (c.getTag adx % 2 ^ 32)) = _
  rw [contains_mod, assertThat_eq_ok.mp hcontains]

/-- A cache that contains an address finds a slot for it. -/
theorem exists_finds (hc : c.contains adx = .ok true) : ∃ set i l, Finds c adx set i l := by
  obtain ⟨set, hset, hcontains⟩ := Outcome.bind_eq_ok.mp hc
  have hcontains : set.contains (c.getTag adx) = true := setContains hset hc
  obtain ⟨l₀, hl₀, hmatch⟩ := List.any_eq_true.mp hcontains
  have hfind : (set.lineArry.findIdx? (·.tagMatches (c.getTag adx))).isSome = true := by
    rw [List.findIdx?_isSome, List.any_eq_true]
    exact ⟨l₀, hl₀, (Bool.and_eq_true_iff.mp hmatch).2⟩
  obtain ⟨i, hi⟩ := Option.isSome_iff_exists.mp hfind
  have hlt := (List.findIdx?_eq_some_iff_getElem.mp hi).1
  refine ⟨set, i, set.lineArry[i], getElem?_of_setOf hset, ?_, List.getElem?_eq_getElem hlt⟩
  simp [CacheSet.getLine, hcontains, hi]

theorem found_eq_none (hc : c.contains adx = .ok false) : c.found adx = none := by
  obtain ⟨set, hset, hcontains⟩ := Outcome.bind_eq_ok.mp hc
  have hcontains : set.contains (c.getTag adx) = false := setContains hset hc
  have hline : set.getLine (c.getTag adx) = .error .notContained := by
    simp [CacheSet.getLine, hcontains]
  simp [found, getElem?_of_setOf hset, hline, Except.toOption]

/-! ## The operations on the slot that is found -/

theorem Finds.getMESI (hf : Finds c adx set i l) :
    set.getMESI (c.getTag adx) = .ok l.getMESI := by
  simp [CacheSet.getMESI, hf.getLine, hf.slot]

theorem Finds.isModified (hf : Finds c adx set i l) :
    c.isModified adx = .ok (decide (l.getMESI = .modified)) := by
  simp [Cache.isModified, assertContains, hf.contains, hf.setOf, CacheSet.isModified, hf.getMESI]

theorem Finds.isShared (hf : Finds c adx set i l) :
    c.isShared adx = .ok (decide (l.getMESI = .shared)) := by
  simp [Cache.isShared, assertContains, hf.contains, hf.setOf, CacheSet.isShared, hf.getMESI]

theorem Finds.isExclusive (hf : Finds c adx set i l) :
    c.isExclusive adx = .ok (decide (l.getMESI = .exclusive)) := by
  simp [Cache.isExclusive, assertContains, hf.contains, hf.setOf, CacheSet.isExclusive, hf.getMESI]

theorem Finds.setShared (hf : Finds c adx set i l) :
    c.setShared adx = .ok (c.putSet adx (set.modifyLine i (·.setMESI .shared))) := by
  simp [Cache.setShared, assertContains, hf.contains, hf.setOf, CacheSet.setShared,
    CacheSet.setMESI, hf.getLine]

theorem Finds.invalidate (hf : Finds c adx set i l) :
    c.invalidate adx = .ok (c.putSet adx (set.invalidateAt i)) := by
  simp [Cache.invalidate, assertContains, hf.contains, hf.setOf, CacheSet.invalidate, hf.getLine]

/-- What the slot holds, under the address that its tag and its set stand for. -/
theorem Finds.heldAt (hf : Finds c adx set i l) (hv : l.isValid = true) :
    c.heldAt (c.getAdxSetNum adx) i
      = some (c.getAddress (c.getAdxSetNum adx) l.getTag, l.getMESI) := by
  rw [Cache.heldAt, hf.get, Option.bind_some, CacheSet.heldAt_eq hf.slot, if_pos hv]
  rfl

theorem heldAt_putSet (hget : c.setArry[c.getAdxSetNum adx]? = some set) (k j : Nat) :
    (c.putSet adx set').heldAt k j = if k = c.getAdxSetNum adx
      then (set'.heldAt j).map fun p => (c.getAddress k p.1, p.2) else c.heldAt k j := by
  rw [Cache.heldAt, getElem?_putSet hget]
  split <;> rfl

/-- **The line that is found** is that of the address exactly below `2 ^ 47`, where no bit of the
tag is cut off. -/
theorem Finds.address (hf : Finds c adx set i l) (hany : AnyContent c) (hlt : adx < 2 ^ 64) :
    c.getAddress (c.getAdxSetNum adx) l.getTag = c.getLineAlignedAddress adx ↔ adx < 2 ^ 47 := by
  have hs : Splits 10 5 c := Built.splits (s := 10) (p := 5)
    (show Built ADX_LEN (2 ^ 10) LINES_PER_SET (2 ^ 5) c from hany.built)
    (by decide) (by decide) (by decide)
  -- the tag of the line is what the comparison leaves of that of the address
  have htag : l.getTag = AddressSplit.rest 5 10 adx % 2 ^ 32 := by
    obtain ⟨_, _, hline⟩ := Outcome.bind_eq_ok.mp hf.getLine
    split at hline
    · rename_i j hfind
      cases hline
      obtain ⟨hj, hmatch, _⟩ := List.findIdx?_eq_some_iff_getElem.mp hfind
      obtain ⟨_, hl⟩ := List.getElem?_eq_some_iff.mp hf.slot
      rw [hl, CacheLine.tagMatches, decide_eq_true_eq] at hmatch
      rw [← hmatch, hany.tagMask set (List.mem_of_getElem? hf.get) l (List.mem_of_getElem? hf.slot),
        Nat.and_two_pow_sub_one_eq_mod, Nat.mod_mod, hs.getTag]
    · cases hline
  have hnum := AddressSplit.field_lt 5 10 adx
  have hrest := hs.rest_lt hlt
  have hcut : AddressSplit.rest 5 10 adx < 2 ^ 32 ↔ adx < 2 ^ 47 := by
    rw [AddressSplit.rest]
    omega
  rw [Cache.getLineAlignedAddress, hs.getAdxSetNum, hs.getTag, hs.getAddress hnum (by omega),
    hs.getAddress hnum hrest, ← hcut]
  constructor
  · intro heq
    have htags := congrArg (AddressSplit.rest 5 10) heq
    rw [AddressSplit.rest_join hnum, AddressSplit.rest_join hnum] at htags
    omega
  · intro h0
    rw [htag, Nat.mod_eq_of_lt h0]

end Cache

/-! ## What a command does -/

/-- The command changes the state of the line that is found, if that line is in this state. -/
def CommandCode.Alters (t : ControllerType) : CommandCode → MESI → Prop
  | .busReadX, _ => True
  | .invalidate, _ => t ≠ .mi
  | .busRead, m | .shareMe, m => t ≠ .mi ∧ m ≠ .shared
  | _, _ => False

instance (t : ControllerType) (code : CommandCode) (m : MESI) : Decidable (code.Alters t m) := by
  unfold CommandCode.Alters; split <;> infer_instance

namespace Controller

/-- A `BUSWRITE` of this line was added to the maximum-priority queue. -/
def AddsWriteBack (c c' : Controller) (adx : Nat) : Prop :=
  ∃ r, c'.maxPriorityQueue = r :: c.maxPriorityQueue ∧ r.commandCode = .busWrite ∧ r.payload = adx

/-- Modified lines are written back when they lose that state, and lines other than the
command's keep theirs. -/
structure KeepsDirty (c : Controller) (d : BusRequest) (c' : Controller) : Prop where
  modified : ∀ k j adx, c.cache.heldAt k j = some (adx, .modified) →
    c'.cache.heldAt k j ≠ some (adx, .modified) → AddsWriteBack c c' adx
  others : ∀ k j adx m, adx ≠ c.cache.getLineAlignedAddress d.payload →
    (c'.cache.heldAt k j = some (adx, m) ↔ c.cache.heldAt k j = some (adx, m))

/-- A command that goes through takes no `MODIFIED` line away without a write-back, and leaves the
lines of other addresses as they are. -/
def SnoopsKeepDirty : Prop := ∀ c d c', c.cache.AnyContent → d.payload < 2 ^ 64 →
  c.acceptBusTransaction d = .ok c' → KeepsDirty c d c'

/-- A line that is found and changed is the command's own, and not a modified one that is only
to be shared. -/
def SnoopsSafely (c : Controller) (d : BusRequest) : Prop :=
  ∀ l ∈ c.cache.found d.payload, l.isValid = true →
    d.commandCode.Alters c.controllerType l.getMESI →
    d.payload < 2 ^ 47 ∧ ¬ (d.commandCode = .shareMe ∧ l.getMESI = .modified)

instance (c : Controller) (d : BusRequest) : Decidable (c.SnoopsSafely d) := by
  unfold SnoopsSafely; infer_instance

/-- The line that is found is a valid one, and goes into another state or out of the cache. -/
structure Altered (c : Controller) (d : BusRequest) (set : CacheSet) (i : Nat) (l : CacheLine)
    (v : Option MESI) (c' : Controller) : Prop where
  finds : c.cache.Finds d.payload set i l
  valid : l.isValid = true
  alters : d.commandCode.Alters c.controllerType l.getMESI
  changes : v ≠ some l.getMESI ∧ v ≠ some .modified
  slots : ∀ k j, c'.cache.heldAt k j = if k = c.cache.getAdxSetNum d.payload ∧ j = i
    then v.map (c.cache.getAddress (c.cache.getAdxSetNum d.payload) l.getTag, ·)
    else c.cache.heldAt k j
  queue : l.getMESI = .modified → if d.commandCode = .shareMe
    then c'.maxPriorityQueue = c.maxPriorityQueue
    else AddsWriteBack c c' (c.cache.getLineAlignedAddress d.payload)

/-- What `acceptBusTransaction` makes of a controller in any state. -/
inductive Reacted (c : Controller) (d : BusRequest) (c' : Controller) : Prop
  | kept : (∀ k j, c'.cache.heldAt k j = c.cache.heldAt k j) →
      (∀ l ∈ c.cache.found d.payload, l.isValid = true →
        ¬ d.commandCode.Alters c.controllerType l.getMESI) → Reacted c d c'
  | altered {set : CacheSet} {i : Nat} {l : CacheLine} {v : Option MESI} :
      Altered c d set i l v c' → Reacted c d c'

variable {c c' : Controller} {d : BusRequest} {set set' : CacheSet} {i : Nat} {l : CacheLine}
  {v : Option MESI}

/-- A command that leaves the cache alone. -/
theorem Reacted.of_cache (hcache : c'.cache = c.cache)
    (hno : ∀ m, ¬ d.commandCode.Alters c.controllerType m) : Reacted c d c' :=
  .kept (fun k j => by rw [hcache]) fun l _ _ => hno l.getMESI

/-- A command that finds no slot. -/
theorem Reacted.of_absent (hcache : c'.cache = c.cache)
    (hc : c.cache.contains d.payload = .ok false) : Reacted c d c' := by
  refine .kept (fun k j => by rw [hcache]) fun l hl => ?_
  rw [Cache.found_eq_none hc] at hl
  cases hl

/-- A command that works on the slot that it finds. -/
theorem Reacted.of_found (hf : c.cache.Finds d.payload set i l)
    (hcache : c'.cache = c.cache.putSet d.payload set')
    (hset : ∀ j, set'.heldAt j = if j = i then (if l.isValid then v.map (l.getTag, ·) else none)
      else set.heldAt j)
    (halters : d.commandCode.Alters c.controllerType l.getMESI ↔ v ≠ some l.getMESI)
    (hdown : v ≠ some .modified)
    (hqueue : l.getMESI = .modified → if d.commandCode = .shareMe
      then c'.maxPriorityQueue = c.maxPriorityQueue
      else AddsWriteBack c c' (c.cache.getLineAlignedAddress d.payload)) : Reacted c d c' := by
  have hslots (k j : Nat) : c'.cache.heldAt k j
      = if k = c.cache.getAdxSetNum d.payload ∧ j = i
        then (if l.isValid
          then v.map (c.cache.getAddress (c.cache.getAdxSetNum d.payload) l.getTag, ·) else none)
        else c.cache.heldAt k j := by
    rw [hcache, Cache.heldAt_putSet hf.get, hset]
    by_cases hk : k = c.cache.getAdxSetNum d.payload
    · by_cases hj : j = i
      · rw [if_pos hk, if_pos hj, if_pos (And.intro hk hj), hk]
        cases l.isValid <;> cases v <;> rfl
      · rw [if_pos hk, if_neg hj, if_neg fun h0 => hj h0.2, Cache.heldAt, hk, hf.get]
        rfl
    · rw [if_neg hk, if_neg fun h0 => hk h0.1]
  have hbefore : c.cache.heldAt (c.cache.getAdxSetNum d.payload) i = if l.isValid
      then some (c.cache.getAddress (c.cache.getAdxSetNum d.payload) l.getTag, l.getMESI)
      else none := by
    rw [Cache.heldAt, hf.get, Option.bind_some, CacheSet.heldAt_eq hf.slot]
    cases l.isValid <;> rfl
  by_cases hsame : l.isValid = false ∨ v = some l.getMESI
  · -- an invalid line has no state to lose
    refine .kept (fun k j => ?_) fun l' hl' hv => ?_
    · rw [hslots]
      split
      · rename_i hkj
        obtain ⟨rfl, rfl⟩ := hkj
        rw [hbefore]
        rcases hsame with hv | rfl
        · rw [hv]
          rfl
        · rfl
      · rfl
    · rw [hf.found_eq] at hl'; cases hl'
      rw [halters]
      rcases hsame with h0 | h0
      · rw [hv] at h0; cases h0
      · exact fun hne => hne h0
  · obtain ⟨hv, hne⟩ := not_or.mp hsame
    have hv : l.isValid = true := by simpa using hv
    refine .altered ⟨hf, hv, halters.mpr hne, ⟨hne, hdown⟩, fun k j => ?_, hqueue⟩
    rw [hslots, if_pos hv]

/-! ## The handlers -/

theorem addsWriteBack_queue (c : Controller) (payload : Nat) :
    AddsWriteBack c (c.queueMaxPriorityBusCommand .busWrite payload)
      (c.cache.getLineAlignedAddress payload) := ⟨_, rfl, rfl, rfl⟩

/-- The answer to a read, whatever the state of the line. -/
theorem answerRead_spec {adx : Nat} (hf : c.cache.Finds adx set i l) : ∃ c₁,
    c.answerRead adx = .ok c₁ ∧ c₁.cache = c.cache ∧ c₁.controllerType = c.controllerType
      ∧ (l.getMESI = .modified →
        AddsWriteBack c c₁ (c.cache.getLineAlignedAddress adx)) := by
  cases hm : l.getMESI with
  | modified =>
      exact ⟨c.queueMaxPriorityBusCommand .busWrite adx,
        by simp [answerRead, hf.isExclusive, hf.isShared, hf.isModified, hm], rfl, rfl,
        fun _ => addsWriteBack_queue c adx⟩
  | exclusive =>
      exact ⟨c.queueMaxPriorityBusCommand .dataReturnProcessor adx,
        by simp [answerRead, hf.isExclusive, hf.isShared, hm], rfl, rfl, by simp⟩
  | shared =>
      exact ⟨c.queueMaxPriorityBusCommand .dataReturnProcessor adx,
        by simp [answerRead, hf.isExclusive, hf.isShared, hm], rfl, rfl, by simp⟩
  | invalid =>
      exact ⟨c, by simp [answerRead, hf.isExclusive, hf.isShared, hf.isModified, hm], rfl, rfl,
        by simp⟩

theorem handleBusReadX_reacted (hd : d.commandCode = .busReadX)
    (heq : c.handleBusReadX d = .ok c') : Reacted c d c' := by
  obtain ⟨held, hc, heq⟩ := Outcome.bind_eq_ok.mp heq
  cases held with
  | true =>
      obtain ⟨set, i, l, hf⟩ := Cache.exists_finds hc
      obtain ⟨c₁, hc₁, hcache, _, hqueue⟩ := answerRead_spec hf
      have hinv : c₁.cache.invalidate d.payload
          = .ok (c.cache.putSet d.payload (set.invalidateAt i)) := by
        rw [hcache]; exact hf.invalidate
      simp only [if_true, hc₁, Outcome.ok_bind, hinv] at heq
      obtain ⟨_, _, heq⟩ := Outcome.bind_eq_ok.mp heq
      obtain ⟨_, _, heq⟩ := Outcome.bind_eq_ok.mp heq
      cases heq
      refine .of_found (v := none) hf rfl (fun j => ?_) (by simp [hd, CommandCode.Alters]) (by simp)
        fun hm => ?_
      · rw [CacheSet.heldAt_invalidateAt hf.slot]
        cases l.isValid <;> rfl
      · rw [if_neg (by simp [hd])]
        exact hqueue hm
  | false =>
      simp only [Bool.false_eq_true, if_false] at heq
      split at heq <;> cases heq <;> exact .of_absent rfl hc

section Sharing

open SharingController

variable (ht : c.controllerType ≠ .mi)

include ht

theorem handleBusRead_reacted (hd : d.commandCode = .busRead)
    (heq : handleBusRead c d = .ok c') : Reacted c d c' := by
  obtain ⟨held, hc, heq⟩ := Outcome.bind_eq_ok.mp heq
  cases held with
  | true =>
      obtain ⟨set, i, l, hf⟩ := Cache.exists_finds hc
      obtain ⟨c₁, hc₁, hcache, _, hqueue⟩ := answerRead_spec hf
      have hset : c₁.cache.setShared d.payload
          = .ok (c.cache.putSet d.payload (set.modifyLine i (·.setMESI .shared))) := by
        rw [hcache]; exact hf.setShared
      simp only [if_true, hc₁, Outcome.ok_bind, hset] at heq
      cases heq
      refine .of_found (v := some .shared) hf rfl (CacheSet.heldAt_setMESI hf.slot _)
        (by simp [hd, CommandCode.Alters, ht, eq_comm]) (by simp) fun hm => ?_
      rw [if_neg (by simp [hd])]
      exact hqueue hm
  | false =>
      simp only [Bool.false_eq_true, if_false] at heq
      split at heq <;> cases heq <;> exact .of_absent rfl hc

theorem handleInvalidate_reacted (hd : d.commandCode = .invalidate)
    (heq : handleInvalidate c d = .ok c') : Reacted c d c' := by
  obtain ⟨held, hc, heq⟩ := Outcome.bind_eq_ok.mp heq
  cases held with
  | true =>
      obtain ⟨set, i, l, hf⟩ := Cache.exists_finds hc
      have held_none (j : Nat) : (set.invalidateAt i).heldAt j
          = if j = i then (if l.isValid then (none : Option MESI).map (l.getTag, ·) else none)
            else set.heldAt j := by
        rw [CacheSet.heldAt_invalidateAt hf.slot]
        cases l.isValid <;> rfl
      have halters : d.commandCode.Alters c.controllerType l.getMESI
          ↔ (none : Option MESI) ≠ some l.getMESI := by simp [hd, CommandCode.Alters, ht]
      by_cases hm : l.getMESI = .modified
      · have hinv : (c.queueMaxPriorityBusCommand .busWrite d.payload).cache.invalidate d.payload
            = .ok (c.cache.putSet d.payload (set.invalidateAt i)) := hf.invalidate
        simp only [if_true, hf.isModified, hm, decide_true, Outcome.ok_bind, hinv] at heq
        cases heq
        refine .of_found (v := none) hf rfl held_none halters (by simp) fun _ => ?_
        rw [if_neg (by simp [hd])]
        exact addsWriteBack_queue c d.payload
      · simp only [if_true, hf.isModified, hm, decide_false, Bool.false_eq_true, if_false,
          Outcome.ok_bind, hf.invalidate] at heq
        cases heq
        exact .of_found (v := none) hf rfl held_none halters (by simp) fun h0 => absurd h0 hm
  | false =>
      simp only [Bool.false_eq_true, if_false] at heq
      split at heq <;> cases heq <;> exact .of_absent rfl hc

theorem handleShareMe_reacted (hd : d.commandCode = .shareMe)
    (heq : handleShareMe c d = .ok c') : Reacted c d c' := by
  obtain ⟨held, hc, heq⟩ := Outcome.bind_eq_ok.mp heq
  cases held with
  | true =>
      obtain ⟨set, i, l, hf⟩ := Cache.exists_finds hc
      by_cases hm : l.getMESI = .shared
      · simp only [if_true, hf.isShared, hm, decide_true, Outcome.ok_bind, Bool.not_true,
          Bool.false_eq_true, if_false] at heq
        cases heq
        refine .kept (fun _ _ => rfl) fun l' hl' _ => ?_
        rw [hf.found_eq] at hl'; cases hl'
        simp [hd, CommandCode.Alters, hm]
      · simp only [if_true, hf.isShared, hm, decide_false, Outcome.ok_bind, Bool.not_false,
          hf.setShared] at heq
        cases heq
        refine .of_found (v := some .shared) hf rfl (CacheSet.heldAt_setMESI hf.slot _)
          (by simp [hd, CommandCode.Alters, ht, eq_comm]) (by simp) fun _ => ?_
        rw [if_pos hd]
  | false =>
      simp only [Bool.false_eq_true, if_false] at heq
      split at heq <;> cases heq <;> exact .of_absent rfl hc

end Sharing

/-- Data and `NULL_BURST`s leave the cache alone. -/
theorem handleBusWrite_cache (heq : c.handleBusWrite d = .ok c') : c'.cache = c.cache := by
  obtain ⟨awaited, _, heq⟩ := Outcome.bind_eq_ok.mp heq
  cases awaited <;> cases heq <;> rfl

theorem cancelBusRequest_cache (c : Controller) (code : CommandCode) (payload : Nat) :
    (c.cancelBusRequest code payload).cache = c.cache := by
  unfold cancelBusRequest
  split
  · rfl
  · split <;> rfl

theorem handleDataReturnMemory_cache (heq : c.handleDataReturnMemory d = .ok c') :
    c'.cache = c.cache := by
  obtain ⟨awaited, _, heq⟩ := Outcome.bind_eq_ok.mp heq
  cases heq
  rw [cancelBusRequest_cache]
  cases awaited <;> rfl

theorem handleDataReturnProcessor_cache (heq : c.handleDataReturnProcessor d = .ok c') :
    c'.cache = c.cache := by
  obtain ⟨awaited, _, heq⟩ := Outcome.bind_eq_ok.mp heq
  cases heq
  rw [cancelBusRequest_cache]
  cases awaited <;> rfl

theorem acceptBusTransaction_reacted (heq : c.acceptBusTransaction d = .ok c') :
    Reacted c d c' := by
  have idle (hcode : ∀ t m, ¬ d.commandCode.Alters t m) (hcache : c'.cache = c.cache) :
      Reacted c d c' := .of_cache hcache fun m => hcode _ m
  by_cases ht : c.controllerType = .mi
  · have heq : MIController.acceptBusTransaction c d = .ok c' := by
      rwa [Controller.acceptBusTransaction, ht] at heq
    unfold MIController.acceptBusTransaction at heq
    cases hd : d.commandCode <;> simp only [hd] at heq
    case busRead => cases heq
    case busReadX => exact handleBusReadX_reacted hd heq
    case busWrite => exact idle (by simp [hd, CommandCode.Alters]) (handleBusWrite_cache heq)
    case dataReturnMemory =>
      exact idle (by simp [hd, CommandCode.Alters]) (handleDataReturnMemory_cache heq)
    case dataReturnProcessor =>
      exact idle (by simp [hd, CommandCode.Alters]) (handleDataReturnProcessor_cache heq)
    -- there is no handler for the others
    all_goals
      cases heq
      exact .of_cache rfl (by simp [hd, CommandCode.Alters, ht])
  · have heq : SharingController.acceptBusTransaction c d = .ok c' := by
      cases h0 : c.controllerType with
      | mi => exact absurd h0 ht
      | msi => rwa [Controller.acceptBusTransaction, h0] at heq
      | mesi => rwa [Controller.acceptBusTransaction, h0] at heq
    unfold SharingController.acceptBusTransaction at heq
    cases hd : d.commandCode <;> simp only [hd] at heq
    case busRead => exact handleBusRead_reacted ht hd heq
    case busReadX => exact handleBusReadX_reacted hd heq
    case invalidate => exact handleInvalidate_reacted ht hd heq
    case shareMe => exact handleShareMe_reacted ht hd heq
    case busWrite => exact idle (by simp [hd, CommandCode.Alters]) (handleBusWrite_cache heq)
    case dataReturnMemory =>
      exact idle (by simp [hd, CommandCode.Alters]) (handleDataReturnMemory_cache heq)
    case dataReturnProcessor =>
      exact idle (by simp [hd, CommandCode.Alters]) (handleDataReturnProcessor_cache heq)
    case nullBurst =>
      cases heq
      exact idle (by simp [hd, CommandCode.Alters]) rfl

/-! ## Dirty data -/

/-- **When an altered line is dealt with as it should be.** -/
theorem Altered.keepsDirty_iff (ha : Altered c d set i l v c') (hany : c.cache.AnyContent)
    (hlt : d.payload < 2 ^ 64) : KeepsDirty c d c'
      ↔ d.payload < 2 ^ 47 ∧ ¬ (d.commandCode = .shareMe ∧ l.getMESI = .modified) := by
  have hheld := ha.finds.heldAt ha.valid
  have hafter := ha.slots (c.cache.getAdxSetNum d.payload) i
  have haddress := ha.finds.address hany hlt
  rw [if_pos ⟨rfl, rfl⟩] at hafter
  constructor
  · intro hkeeps
    refine ⟨?_, fun ⟨hcode, hm⟩ => ?_⟩
    · by_contra hbig
      -- the line is another than the payload's, and yet changed
      have hsame := (hkeeps.others _ _ _ _ fun h0 => hbig (haddress.mp h0)).mpr hheld
      rw [hafter] at hsame
      obtain ⟨m, hm, hpair⟩ := Option.map_eq_some_iff.mp hsame
      exact ha.changes.1 (hm.trans (congrArg some (Prod.mk.inj hpair).2))
    · have hqueue := ha.queue hm
      rw [if_pos hcode] at hqueue
      rw [hm] at hheld
      obtain ⟨r, hr, _⟩ := hkeeps.modified _ _ _ hheld fun h0 => by
        rw [hafter] at h0
        obtain ⟨m, hv, hpair⟩ := Option.map_eq_some_iff.mp h0
        exact ha.changes.2 (hv.trans (congrArg some (Prod.mk.inj hpair).2))
      rw [hqueue] at hr
      exact List.cons_ne_self r _ hr.symm
  · intro ⟨hsmall, hshare⟩
    have hown := haddress.mpr hsmall
    refine ⟨fun k j adx hbefore hlost => ?_, fun k j adx m hne => ?_⟩
    · by_cases hkj : k = c.cache.getAdxSetNum d.payload ∧ j = i
      · obtain ⟨rfl, rfl⟩ := hkj
        rw [hheld] at hbefore
        obtain ⟨rfl, hm⟩ := Prod.mk.inj (Option.some.inj hbefore)
        have hqueue := ha.queue hm
        rw [if_neg fun h0 => hshare ⟨h0, hm⟩] at hqueue
        rw [hown]
        exact hqueue
      · rw [ha.slots, if_neg hkj] at hlost
        exact absurd hbefore hlost
    · by_cases hkj : k = c.cache.getAdxSetNum d.payload ∧ j = i
      · obtain ⟨rfl, rfl⟩ := hkj
        rw [hafter, hheld]
        refine iff_of_false (fun h0 => ?_) fun h0 => ?_
        · obtain ⟨_, _, hpair⟩ := Option.map_eq_some_iff.mp h0
          exact hne (by rw [← hown, ← (Prod.mk.inj hpair).1])
        · exact hne (by rw [← hown, ← (Prod.mk.inj (Option.some.inj h0)).1])
      · rw [ha.slots, if_neg hkj]

/-- **When snooping keeps dirty data**, for a controller in any state: exactly when a line that
the command finds and changes is the payload's own, and a `SHAREME` finds it unmodified. The line of
a slot is the one that the number of its set and the 32 stored bits of its tag stand for. -/
theorem snoops_keep_dirty (c : Controller) (d : BusRequest) (c' : Controller)
    (hany : c.cache.AnyContent) (hlt : d.payload < 2 ^ 64)
    (heq : c.acceptBusTransaction d = .ok c') : KeepsDirty c d c' ↔ c.SnoopsSafely d := by
  cases acceptBusTransaction_reacted heq with
  | kept hslots hno =>
      refine iff_of_true ⟨fun k j adx hbefore hlost => ?_, fun k j adx m _ => ?_⟩ fun l hl hv ha => ?_
      · rw [hslots] at hlost
        exact absurd hbefore hlost
      · rw [hslots]
      · exact absurd ha (hno l hl hv)
  | @altered set i l v ha =>
      rw [ha.keepsDirty_iff hany hlt]
      constructor
      · intro hsafe l' hl' _ _
        rw [ha.finds.found_eq] at hl'; cases hl'
        exact hsafe
      · intro hall
        exact hall l (by rw [ha.finds.found_eq]; rfl) ha.valid ha.alters

open Interconnect in
/-- A run in which the controller of the first processor accepts a command. -/
theorem exists_snoop (ps : Params) (events : List Event)
    (p : Controller → BusRequest → Controller → Bool)
    (hp : ((System.run ps events).toOption.any fun hs => hs.1.any fun (x : TickRecord) =>
      x.sent.any fun (d : BusRequest) => x.before.tickNodes.toOption.any fun (mid : System) =>
        (controllerAt mid.interconnect 1).any fun (c : Controller) =>
          (c.acceptBusTransaction d).toOption.any fun (c' : Controller) => p c d c') = true) :
    ∃ c d c', c.acceptBusTransaction d = .ok c' ∧ p c d c' = true := by
  obtain ⟨hs, _, hp⟩ := Outcome.any_toOption.mp hp
  obtain ⟨x, _, hp⟩ := List.any_eq_true.mp hp
  obtain ⟨d, _, hp⟩ := (Option.any_eq_true _ _).mp hp
  obtain ⟨mid, _, hp⟩ := Outcome.any_toOption.mp hp
  obtain ⟨c, _, hp⟩ := (Option.any_eq_true _ _).mp hp
  obtain ⟨c', heq, hp⟩ := Outcome.any_toOption.mp hp
  exact ⟨c, d, c', heq, hp⟩

/-- A line is stored, and then read by another processor: the read finds it `MODIFIED`. -/
theorem snoops_keep_dirty_read : ∃ c d c', c.acceptBusTransaction d = .ok c'
    ∧ c.cache.heldAt 2 0 = some (64, .modified) ∧ c'.cache.heldAt 2 0 = some (64, .shared)
    ∧ KeepsDirty c d c' := by
  obtain ⟨c, d, c', heq, hp⟩ := exists_snoop ⟨2, .msi, 1, 2⟩
    (.insert .store 64 0 :: List.replicate 8 .tick ++ .insert .load 64 1 :: List.replicate 3 .tick)
    (fun c d c' => decide (c.cache.heldAt 2 0 = some (64, .modified)
      ∧ c'.cache.heldAt 2 0 = some (64, .shared) ∧ d.payload < 2 ^ 64 ∧ c.SnoopsSafely d
      ∧ c.cache.AnyContent))
    (by decide +kernel)
  obtain ⟨hheld, hshared, hlt, hsafe, hany⟩ := of_decide_eq_true hp
  exact ⟨c, d, c', heq, hheld, hshared, (snoops_keep_dirty c d c' hany hlt heq).mpr hsafe⟩

/-- A processor that waits for a line hears a read of it and queues a `SHAREME`. Before that goes
out, another has stored to the line. -/
def sharedAway : List Event :=
  List.replicate 4 .tick ++ [.insert .load 64 1, .insert .store 64 0] ++ List.replicate 3 .tick
    ++ [.insert .load 64 2] ++ List.replicate 8 .tick
    ++ [.insert .load 64 2, .tick, .insert .load 64 1, .insert .store 64 0]
    ++ List.replicate 11 .tick

/-- The last tick of that run downgrades the stored line without a write-back. -/
theorem not_snoopsKeepDirty : ¬ SnoopsKeepDirty := by
  intro hclaim
  obtain ⟨c, d, c', heq, hp⟩ := exists_snoop ⟨3, .mesi, 1, 2⟩ sharedAway
    (fun c d c' => decide (c.cache.heldAt 2 0 = some (64, .modified)
      ∧ c'.cache.heldAt 2 0 ≠ some (64, .modified) ∧ c'.maxPriorityQueue = []
      ∧ d.payload < 2 ^ 64 ∧ c.cache.AnyContent))
    (by decide +kernel)
  obtain ⟨hheld, hlost, hqueue, hlt, hany⟩ := of_decide_eq_true hp
  obtain ⟨r, hr, _⟩ := (hclaim c d c' hany hlt heq).modified 2 0 64 hheld hlost
  rw [hqueue] at hr
  cases hr

end Controller

end CoherenceSim
