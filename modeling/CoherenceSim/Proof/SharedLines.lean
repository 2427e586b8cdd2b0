import CoherenceSim.Lib.Lockstep
import CoherenceSim.Lib.Outcome
import CoherenceSim.Model.Cache

/-!
# Reading `EXCLUSIVE` as `SHARED`

No operation of a cache but those that read or write MESI bits looks at them, so a cache with all
its exclusive lines shared does the same in everything else.
-/

namespace CoherenceSim

/-- The state with `EXCLUSIVE` read as `SHARED`. -/
def MESI.share : MESI → MESI
  | .exclusive => .shared
  | m => m

namespace CacheLine

def share (l : CacheLine) : CacheLine := { l with mesiBits := l.mesiBits.share }

@[simp] theorem share_getTag (l : CacheLine) : l.share.getTag = l.getTag := rfl

@[simp] theorem share_getLRU (l : CacheLine) : l.share.getLRU = l.getLRU := rfl

@[simp] theorem share_isValid (l : CacheLine) : l.share.isValid = l.isValid := rfl

@[simp] theorem share_isDirty (l : CacheLine) : l.share.isDirty = l.isDirty := rfl

@[simp] theorem share_tagMatches (l : CacheLine) (tag : Nat) :
    l.share.tagMatches tag = l.tagMatches tag := rfl

@[simp] theorem share_getMESI (l : CacheLine) : l.share.getMESI = l.getMESI.share := rfl

@[simp] theorem share_setLRU (l : CacheLine) (n : Nat) :
    l.share.setLRU n = (l.setLRU n).share := rfl

@[simp] theorem share_setMESI (l : CacheLine) (value : MESI) :
    l.share.setMESI value.share = (l.setMESI value).share := rfl

@[simp] theorem share_isModified (l : CacheLine) : l.share.isModified = l.isModified := by
  cases h : l.mesiBits <;> simp [CacheLine.isModified, getMESI, share, h, MESI.share]

end CacheLine

theorem map_modify_comm {α β : Type} {p : α → β} {f : α → α} {f' : β → β}
    (h : ∀ a, f' (p a) = p (f a)) (l : List α) (i : Nat) :
    (l.map p).modify i f' = (l.modify i f).map p := by
  refine List.ext_getElem? fun j => ?_
  rw [List.getElem?_modify, List.getElem?_map, List.getElem?_map, List.getElem?_modify]
  split
  · cases l[j]? <;> simp [h]
  · simp

theorem getElem?_map_of_comp {α β : Type} {p : α → α} {g : α → β} (h : ∀ a, g (p a) = g a)
    (l : List α) (i : Nat) : (l.map p)[i]?.map g = l[i]?.map g := by
  rw [List.getElem?_map, Option.map_map]
  exact congrArg (fun f => l[i]?.map f) (funext h)

/-! ## Sets -/

namespace CacheSet

def share (s : CacheSet) : CacheSet := { s with lineArry := s.lineArry.map CacheLine.share }

variable (s : CacheSet)

theorem share_modifyLine (line : Nat) {f f' : CacheLine → CacheLine}
    (h : ∀ l, f' l.share = (f l).share) :
    s.share.modifyLine line f' = (s.modifyLine line f).share := by
  rw [modifyLine, modifyLine, share, share, map_modify_comm h]

@[simp] theorem share_contains (tag : Nat) : s.share.contains tag = s.contains tag := by
  simp [contains, share, List.any_map, Function.comp_def]

@[simp] theorem share_getLine (tag : Nat) : s.share.getLine tag = s.getLine tag := by
  rw [getLine, getLine, share_contains, share, List.findIdx?_map]
  rfl

@[simp] theorem share_getEmptyLine : s.share.getEmptyLine = s.getEmptyLine := by
  rw [getEmptyLine, getEmptyLine, share, List.findIdx?_map]
  rfl

@[simp] theorem share_isFull : s.share.isFull = s.isFull := by
  rw [isFull, isFull, share, List.all_map]
  rfl

theorem share_lruOf (line : Nat) :
    s.share.lineArry[line]?.map CacheLine.getLRU = s.lineArry[line]?.map CacheLine.getLRU :=
  getElem?_map_of_comp CacheLine.share_getLRU _ _

theorem share_updateLRULoop (line oldLRU : Nat) (l : List CacheLine) : ∀ i lastLRU : Nat,
    updateLRULoop line oldLRU i lastLRU (l.map CacheLine.share)
      = (updateLRULoop line oldLRU i lastLRU l).map CacheLine.share := by
  induction l with
  | nil => intro i lastLRU; rfl
  | cons a l ih =>
      intro i lastLRU
      simp only [List.map_cons, updateLRULoop, CacheLine.share_isValid, CacheLine.share_getLRU,
        CacheLine.share_setLRU, ih]
      split <;> rfl

theorem share_updateLRUAt (line : Nat) :
    s.share.updateLRUAt line = (s.updateLRUAt line).share := by
  rw [updateLRUAt, updateLRUAt, share_lruOf,
    s.share_modifyLine line fun l => CacheLine.share_setLRU l 0]
  simp only [share, share_updateLRULoop]

theorem share_streamIn (line tag : Nat) :
    s.share.streamIn line tag = (s.streamIn line tag).share := by
  rw [streamIn, streamIn, ← share_updateLRUAt]
  exact congrArg (updateLRUAt · line) (s.share_modifyLine line fun _ => rfl)

theorem share_insertLine (tag : Nat) :
    Lockstep share (s.insertLine tag) (s.share.insertLine tag) := by
  rw [insertLine, insertLine, share_getEmptyLine]
  cases s.getEmptyLine with
  | none => exact .error _
  | some line => exact .ok_of_eq (s.share_streamIn line tag)

theorem share_updateLRU (tag : Nat) :
    Lockstep share (s.updateLRU tag) (s.share.updateLRU tag) := by
  rw [updateLRU, updateLRU, share_getLine]
  exact .bind_same fun line _ => .ok_of_eq (s.share_updateLRUAt line)

theorem share_lruMap (l : List CacheLine) : ∀ (i : Nat) (m : OrdMap Nat),
    lruMap i (l.map CacheLine.share) m = lruMap i l m := by
  induction l with
  | nil => intro i m; rfl
  | cons a l ih =>
      intro i m
      simp only [List.map_cons, lruMap, CacheLine.share_isValid, CacheLine.share_getLRU]
      exact ih _ _

theorem share_renumberLRU (lines : List Nat) : ∀ (s : CacheSet) (lruValue : Nat),
    s.share.renumberLRU lruValue lines = (s.renumberLRU lruValue lines).share := by
  induction lines with
  | nil => intro s lruValue; rfl
  | cons line rest ih =>
      intro s lruValue
      rw [renumberLRU, renumberLRU,
        s.share_modifyLine line fun l => CacheLine.share_setLRU l lruValue, ih]

theorem share_checkAndFixLRU : s.share.checkAndFixLRU = s.checkAndFixLRU.share := by
  rw [checkAndFixLRU, checkAndFixLRU, share_renumberLRU]
  rw [show lruMap 0 s.share.lineArry [] = _ from share_lruMap s.lineArry 0 []]

theorem share_invalidateAt (line : Nat) :
    s.share.invalidateAt line = (s.invalidateAt line).share := by
  rw [invalidateAt, invalidateAt, ← share_checkAndFixLRU]
  exact congrArg checkAndFixLRU (s.share_modifyLine line fun _ => rfl)

theorem share_invalidate (tag : Nat) :
    Lockstep share (s.invalidate tag) (s.share.invalidate tag) := by
  rw [invalidate, invalidate, share_getLine]
  exact .bind_same fun line _ => .ok_of_eq (s.share_invalidateAt line)

theorem share_findLRU (candidates : List Nat) :
    s.share.findLRU candidates = s.findLRU candidates := by
  simp only [findLRU, share_lruOf]

theorem share_selectLineForEviction :
    s.share.selectLineForEviction = s.selectLineForEviction := by
  have hany : (s.share.lineArry.any fun line => !line.isValid)
      = s.lineArry.any fun line => !line.isValid := by
    rw [share, List.any_map]; rfl
  have hdirty (line : Nat) :
      s.share.lineArry[line]?.map CacheLine.isDirty = s.lineArry[line]?.map CacheLine.isDirty :=
    getElem?_map_of_comp CacheLine.share_isDirty _ _
  have hlen : s.share.lineArry.length = s.lineArry.length := List.length_map _
  simp only [selectLineForEviction, hany, hdirty, hlen, share_findLRU]

theorem share_evict : Lockstep (Prod.map (Option.map CacheLine.share) share) s.evict s.share.evict := by
  rw [evict, evict, share_selectLineForEviction]
  refine .bind_same fun victim _ => ?_
  cases victim with
  | none => exact .ok _
  | some line =>
      refine .ok_of_eq ?_
      rw [share_invalidateAt, share, List.getElem?_map]
      rfl

theorem share_getMESI (tag : Nat) :
    Lockstep MESI.share (s.getMESI tag) (s.share.getMESI tag) := by
  rw [getMESI, getMESI, share_getLine]
  refine .bind_same fun line _ => ?_
  rw [share, List.getElem?_map]
  cases s.lineArry[line]? with
  | none => exact .error _
  | some l => exact .ok _

theorem share_setMESI (tag : Nat) (value : MESI) :
    Lockstep share (s.setMESI tag value) (s.share.setMESI tag value.share) := by
  rw [setMESI, setMESI, share_getLine]
  exact .bind_same fun line _ =>
    .ok_of_eq (s.share_modifyLine line fun l => CacheLine.share_setMESI l value)

variable {s}

/-- Writing the state that is there already. -/
theorem setMESI_of_getMESI {tag : Nat} {value : MESI} (h : s.getMESI tag = .ok value) :
    s.setMESI tag value = .ok s := by
  obtain ⟨line, hline, h⟩ := Outcome.bind_eq_ok.mp h
  rw [setMESI, hline, Outcome.ok_bind, modifyLine]
  split at h
  · rename_i l hl
    cases h
    have hmodify : s.lineArry.modify line (·.setMESI l.getMESI) = s.lineArry := by
      refine List.ext_getElem? fun j => ?_
      rw [List.getElem?_modify]
      split
      · subst j; rw [hl]; rfl
      · exact id_map _
    rw [hmodify]
    rfl
  · cases h

end CacheSet

/-! ## Caches -/

namespace Cache

def share (c : Cache) : Cache := { c with setArry := c.setArry.map CacheSet.share }

/-- The pattern of `invalidate`, `updateLRU` and the three setters. -/
def onSet (c : Cache) (adx : Nat) (f : CacheSet → Outcome CacheSet) : Outcome Cache := do
  c.assertContains adx
  pure (c.putSet adx (← f (← c.setOf adx)))

/-- The state that the four tests compare. -/
def mesiOf (c : Cache) (adx : Nat) : Outcome MESI := do
  c.assertContains adx
  (← c.setOf adx).getMESI (c.getTag adx)

variable (c : Cache) (adx : Nat)

/-- The pattern of `isExclusive`, `isModified`, `isShared` and `isInvalid`. -/
theorem test_eq (f : MESI → Bool) : (do
      c.assertContains adx
      let set ← c.setOf adx
      pure (f (← set.getMESI (c.getTag adx)))) = (c.mesiOf adx).map f := by
  rw [mesiOf]
  cases c.assertContains adx with
  | error e => rfl
  | ok => cases c.setOf adx <;> rfl

theorem isExclusive_eq : c.isExclusive adx = (c.mesiOf adx).map fun m => decide (m = .exclusive) :=
  c.test_eq adx _

theorem isModified_eq : c.isModified adx = (c.mesiOf adx).map fun m => decide (m = .modified) :=
  c.test_eq adx _

theorem isShared_eq : c.isShared adx = (c.mesiOf adx).map fun m => decide (m = .shared) :=
  c.test_eq adx _

theorem isInvalid_eq : c.isInvalid adx = (c.mesiOf adx).map fun m => decide (m = .invalid) :=
  c.test_eq adx _

/-! The shared cache -/

theorem share_setOf : Lockstep CacheSet.share (c.setOf adx) (c.share.setOf adx) := by
  have hget : c.share.setArry[c.share.getAdxSetNum adx]?
      = c.setArry[c.getAdxSetNum adx]?.map CacheSet.share := List.getElem?_map
  rw [setOf, setOf, hget]
  cases c.setArry[c.getAdxSetNum adx]? with
  | none => exact .error _
  | some set => exact .ok _

theorem share_putSet (set : CacheSet) : c.share.putSet adx set.share = (c.putSet adx set).share := by
  simp only [putSet, share, List.map_set]
  rfl

theorem share_isFull : Lockstep id (c.isFull adx) (c.share.isFull adx) := by
  rw [isFull, isFull]
  exact .bind (c.share_setOf adx) fun set _ => .ok_of_eq set.share_isFull

theorem share_contains : Lockstep id (c.contains adx) (c.share.contains adx) := by
  rw [contains, contains]
  exact .bind (c.share_setOf adx) fun set _ => .ok_of_eq (set.share_contains _)

theorem share_assertContains : c.share.assertContains adx = c.assertContains adx := by
  rw [assertContains, assertContains, (c.share_contains adx).eq]

theorem share_onSet {f f' : CacheSet → Outcome CacheSet}
    (h : ∀ set, Lockstep CacheSet.share (f set) (f' set.share)) :
    Lockstep share (c.onSet adx f) (c.share.onSet adx f') := by
  rw [onSet, onSet, share_assertContains]
  refine .bind_same fun _ _ => .bind (c.share_setOf adx) fun set _ => ?_
  exact .bind (h set) fun set' _ => .ok_of_eq (c.share_putSet adx set')

theorem share_invalidate : Lockstep share (c.invalidate adx) (c.share.invalidate adx) :=
  c.share_onSet adx fun set => set.share_invalidate _

theorem share_updateLRU : Lockstep share (c.updateLRU adx) (c.share.updateLRU adx) :=
  c.share_onSet adx fun set => set.share_updateLRU _

theorem share_setModified : Lockstep share (c.setModified adx) (c.share.setModified adx) :=
  c.share_onSet adx fun set => set.share_setMESI _ .modified

theorem share_setShared : Lockstep share (c.setShared adx) (c.share.setShared adx) :=
  c.share_onSet adx fun set => set.share_setMESI _ .shared

/-- Where one controller sets `EXCLUSIVE`, the other sets `SHARED`. -/
theorem share_setExclusive : Lockstep share (c.setExclusive adx) (c.share.setShared adx) :=
  c.share_onSet adx fun set => set.share_setMESI _ .exclusive

theorem share_mesiOf : Lockstep MESI.share (c.mesiOf adx) (c.share.mesiOf adx) := by
  rw [mesiOf, mesiOf, share_assertContains]
  exact .bind_same fun _ _ => .bind (c.share_setOf adx) fun set _ => set.share_getMESI _

theorem share_isModified : Lockstep id (c.isModified adx) (c.share.isModified adx) := by
  rw [isModified_eq, isModified_eq, c.share_mesiOf adx]
  cases c.mesiOf adx with
  | error e => exact .error e
  | ok m => cases m <;> exact .ok _

theorem share_insertLine : Lockstep share (c.insertLine adx) (c.share.insertLine adx) := by
  rw [insertLine, insertLine, (c.share_isFull adx).eq]
  refine .bind_same fun _ _ => .bind_same fun _ _ => .bind (c.share_setOf adx) fun set _ => ?_
  exact .bind (set.share_insertLine _) fun set' _ => .ok_of_eq (c.share_putSet adx set')

theorem share_evictLineInSet : Lockstep (Prod.map (Option.map CacheLine.share) share)
    (c.evictLineInSet adx) (c.share.evictLineInSet adx) := by
  rw [evictLineInSet, evictLineInSet]
  refine .bind (c.share_setOf adx) fun set _ => .bind set.share_evict fun ⟨line, set'⟩ _ => ?_
  exact .ok_of_eq (congrArg (Prod.mk _) (c.share_putSet adx set'))

/-- Setting a shared line `SHARED` writes what is there. -/
theorem setShared_of_shared (h : c.mesiOf adx = .ok .shared) : c.setShared adx = .ok c := by
  obtain ⟨_, hcontains, h⟩ := Outcome.bind_eq_ok.mp h
  obtain ⟨set, hset, h⟩ := Outcome.bind_eq_ok.mp h
  have hput : c.putSet adx set = c := by
    unfold setOf at hset
    split at hset
    · rename_i set' hget
      cases hset
      obtain ⟨hlt, rfl⟩ := List.getElem?_eq_some_iff.mp hget
      rw [putSet, List.set_getElem_self]
    · cases hset
  rw [setShared, hcontains, Outcome.ok_bind, hset, Outcome.ok_bind, CacheSet.setShared,
    CacheSet.setMESI_of_getMESI h, Outcome.ok_bind, hput]
  rfl

/-- Sharing an exclusive line shows in the one cache and not in the other. -/
theorem share_setShared_of_exclusive (h : c.mesiOf adx = .ok .exclusive) :
    Lockstep share (c.setShared adx) (.ok c.share) := by
  have hmesi : c.share.mesiOf adx = .ok .shared := (c.share_mesiOf adx).of_eq_ok h
  rw [← c.share.setShared_of_shared adx hmesi]
  exact c.share_setShared adx

/-- A new cache has no exclusive line. -/
theorem share_new (adxLength numSets lps bpl : Nat) :
    (new adxLength numSets lps bpl).share = new adxLength numSets lps bpl := by
  have hset (i tagSize : Nat) : (CacheSet.new i lps tagSize).share = CacheSet.new i lps tagSize := by
    simp only [CacheSet.share, CacheSet.new, List.map_map]
    rfl
  simp only [share, new, List.map_map, Function.comp_def, hset]

end Cache

end CoherenceSim
