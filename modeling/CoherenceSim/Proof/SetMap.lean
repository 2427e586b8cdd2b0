import CoherenceSim.Lib.Outcome
import CoherenceSim.Lib.SlotStore
import CoherenceSim.Model.CacheSet
import Mathlib.Data.Nat.Bitwise

/-!
# A cache set is a map from tags to MESI states

`getLine` compares tags only, and an invalidated line keeps its tag. What makes the
search sound is that `insertLine` always takes the first free line: `CacheSet` is a slot
store in the sense of `CoherenceSim.Lib.SlotStore`, with the valid bit for the live bit.

LRU counters take no part in this. They are rewritten by almost every operation, so the
first section shows that an operation which rewrites nothing else is invisible here.
-/

namespace CoherenceSim

/-- The fixed parameters of a set: how many lines, which tag bits are compared, and how
wide the LRU counters are. -/
structure SetShape where
  lines : Nat
  tagMask : Nat
  lruLen : Nat
  tagMask_lt : tagMask < 2 ^ 32
  fits : lines ≤ 2 ^ lruLen

/-- What a line keeps of a tag, and what a comparison looks at. -/
def SetShape.key (g : SetShape) (tag : Nat) : Nat := (tag % 2 ^ 32) &&& g.tagMask

namespace CacheLine

/-- The line without its LRU counter. -/
def eraseLRU (l : CacheLine) : CacheLine := { l with lruBits := 0 }

@[simp] theorem eraseLRU_setLRU (l : CacheLine) (n : Nat) : (l.setLRU n).eraseLRU = l.eraseLRU := rfl

@[simp] theorem eraseLRU_isValid (l : CacheLine) : l.eraseLRU.isValid = l.isValid := rfl

@[simp] theorem eraseLRU_getTag (l : CacheLine) : l.eraseLRU.getTag = l.getTag := rfl

@[simp] theorem eraseLRU_getMESI (l : CacheLine) : l.eraseLRU.getMESI = l.getMESI := rfl

end CacheLine

namespace CacheSet

variable {g : SetShape} {s : CacheSet}

/-- The MESI bits of the valid line with this key. -/
def stateOf (s : CacheSet) (k : Nat) : Option MESI :=
  (SlotStore.lookup CacheLine.isValid CacheLine.getTag k s.lineArry).map CacheLine.getMESI

/-- The tag half of a set's invariant. -/
structure TagsOk (g : SetShape) (s : CacheSet) : Prop where
  length : s.lineArry.length = g.lines
  masked : ∀ l ∈ s.lineArry, l.tagMask = g.tagMask
  ordered : SlotStore.Ordered CacheLine.isValid CacheLine.getTag s.lineArry
  /-- A free line is `INVALID`. -/
  blank : ∀ l ∈ s.lineArry, l.isValid = false → l.getMESI = .invalid
  /-- The dirty bit is never set. -/
  clean : ∀ l ∈ s.lineArry, l.isDirty = false

/-! ## LRU counters do not matter -/

/-- Equal but for the LRU counters. -/
def SameLines (s s' : CacheSet) : Prop :=
  s'.lineArry.map CacheLine.eraseLRU = s.lineArry.map CacheLine.eraseLRU

theorem SameLines.rfl : SameLines s s := Eq.refl _

theorem SameLines.symm {s' : CacheSet} (h : SameLines s s') : SameLines s' s := Eq.symm h

theorem SameLines.trans {s₁ s₂ s₃ : CacheSet} (h : SameLines s₁ s₂) (h' : SameLines s₂ s₃) :
    SameLines s₁ s₃ := Eq.trans h' h

theorem SameLines.stateOf {s' : CacheSet} (h : SameLines s s') (k : Nat) :
    s'.stateOf k = s.stateOf k := by
  have key : ∀ t : CacheSet, t.stateOf k = (SlotStore.lookup CacheLine.isValid CacheLine.getTag k
      (t.lineArry.map CacheLine.eraseLRU)).map CacheLine.getMESI := by
    intro t
    rw [SlotStore.lookup_map CacheLine.eraseLRU_isValid CacheLine.eraseLRU_getTag, Option.map_map]
    rfl
  rw [key, key, h]

/-- A property of lines that does not read the counter passes from one set to the other. -/
theorem SameLines.forall_mem {s' : CacheSet} (h : SameLines s s') {P : CacheLine → Prop}
    (hP : ∀ l, P l.eraseLRU ↔ P l) (hs : ∀ l ∈ s.lineArry, P l) : ∀ l ∈ s'.lineArry, P l := by
  intro l hl
  have hm : l.eraseLRU ∈ s.lineArry.map CacheLine.eraseLRU := by
    rw [← h]; exact List.mem_map_of_mem hl
  obtain ⟨l', hl', he⟩ := List.mem_map.mp hm
  rw [← hP, ← he, hP]
  exact hs l' hl'

theorem SameLines.tagsOk {s' : CacheSet} (h : SameLines s s') (ok : TagsOk g s) : TagsOk g s' where
  length := by
    have := congrArg List.length h
    rw [List.length_map, List.length_map] at this
    rw [this, ok.length]
  masked := h.forall_mem (P := fun l => l.tagMask = g.tagMask) (fun _ => Iff.rfl) ok.masked
  ordered := by
    rw [← SlotStore.ordered_map CacheLine.eraseLRU_isValid CacheLine.eraseLRU_getTag, h,
      SlotStore.ordered_map CacheLine.eraseLRU_isValid CacheLine.eraseLRU_getTag]
    exact ok.ordered
  blank := h.forall_mem (P := fun l => l.isValid = false → l.getMESI = .invalid)
    (fun _ => Iff.rfl) ok.blank
  clean := h.forall_mem (P := fun l => l.isDirty = false) (fun _ => Iff.rfl) ok.clean

theorem map_modify_of_comp {α β : Type} {p : α → β} {f : α → α} (h : ∀ a, p (f a) = p a)
    (l : List α) (i : Nat) : (l.modify i f).map p = l.map p := by
  refine List.ext_getElem? fun j => ?_
  rw [List.getElem?_map, List.getElem?_map, List.getElem?_modify]
  split
  · cases l[j]? <;> simp [h]
  · simp

theorem sameLines_modifyLine_setLRU (s : CacheSet) (line n : Nat) :
    SameLines s (s.modifyLine line (·.setLRU n)) :=
  map_modify_of_comp (fun l => CacheLine.eraseLRU_setLRU l n) _ _

theorem updateLRULoop_eraseLRU (line oldLRU : Nat) (l : List CacheLine) : ∀ (i lastLRU : Nat),
    (updateLRULoop line oldLRU i lastLRU l).map CacheLine.eraseLRU = l.map CacheLine.eraseLRU := by
  induction l with
  | nil => intro i lastLRU; rfl
  | cons a l ih =>
      intro i lastLRU
      unfold updateLRULoop
      split <;> simp [ih]

theorem sameLines_updateLRUAt (s : CacheSet) (line : Nat) : SameLines s (s.updateLRUAt line) :=
  (sameLines_modifyLine_setLRU s line 0).trans (updateLRULoop_eraseLRU _ _ _ _ _)

theorem sameLines_renumberLRU (lines : List Nat) : ∀ (s : CacheSet) (lruValue : Nat),
    SameLines s (s.renumberLRU lruValue lines) := by
  induction lines with
  | nil => intro s lruValue; exact SameLines.rfl
  | cons line rest ih =>
      intro s lruValue
      exact (sameLines_modifyLine_setLRU s line lruValue).trans (ih _ _)

theorem sameLines_checkAndFixLRU (s : CacheSet) : SameLines s s.checkAndFixLRU :=
  sameLines_renumberLRU _ _ _

/-! ## Looking a tag up -/

theorem and_tagMask (g : SetShape) (tag : Nat) : g.tagMask &&& tag = g.key tag := by
  have hm : g.tagMask % 2 ^ 32 = g.tagMask := Nat.mod_eq_of_lt g.tagMask_lt
  have hlt : g.tagMask &&& tag < 2 ^ 32 := Nat.lt_of_le_of_lt Nat.and_le_left g.tagMask_lt
  rw [SetShape.key, Nat.and_comm (tag % 2 ^ 32), ← Nat.mod_eq_of_lt hlt, Nat.and_mod_two_pow, hm]

theorem tagMatches_iff (ok : TagsOk g s) {l : CacheLine} (hl : l ∈ s.lineArry) (tag : Nat) :
    l.tagMatches tag = decide (l.getTag = g.key tag) := by
  rw [CacheLine.tagMatches, ok.masked l hl, SetShape.key]
  exact decide_eq_decide.mpr eq_comm

theorem stateOf_eq_some (ok : TagsOk g s) {k : Nat} {m : MESI} :
    s.stateOf k = some m ↔
      ∃ (i : Nat) (l : CacheLine), s.lineArry[i]? = some l ∧ l.isValid = true ∧ l.getTag = k
        ∧ l.getMESI = m := by
  simp only [stateOf, Option.map_eq_some_iff, ok.ordered.lookup_iff]
  constructor
  · rintro ⟨l, ⟨i, hi, hv, hk⟩, hm⟩
    exact ⟨i, l, hi, hv, hk, hm⟩
  · rintro ⟨i, l, hi, hv, hk, hm⟩
    exact ⟨l, ⟨i, hi, hv, hk⟩, hm⟩

theorem contains_eq (ok : TagsOk g s) (tag : Nat) :
    s.contains tag = (s.stateOf (g.key tag)).isSome := by
  rw [Bool.eq_iff_iff, CacheSet.contains, List.any_eq_true, stateOf, Option.isSome_map,
    SlotStore.lookup, List.find?_isSome]
  refine exists_congr fun l => and_congr_right fun hl => ?_
  rw [tagMatches_iff ok hl]

theorem findIdx?_congr {α : Type} {p q : α → Bool} :
    ∀ {l : List α}, (∀ a ∈ l, p a = q a) → l.findIdx? p = l.findIdx? q
  | [], _ => rfl
  | a :: l, h => by
      rw [List.findIdx?_cons, List.findIdx?_cons, h a List.mem_cons_self,
        findIdx?_congr fun b hb => h b (List.mem_cons_of_mem _ hb)]

/-- `getLine` on a contained tag returns the valid line that carries it. -/
theorem getLine_spec (ok : TagsOk g s) {tag : Nat} {m : MESI} (h : s.stateOf (g.key tag) = some m) :
    ∃ (i : Nat) (l : CacheLine), s.getLine tag = .ok i ∧ s.lineArry[i]? = some l
      ∧ l.isValid = true ∧ l.getTag = g.key tag ∧ l.getMESI = m := by
  obtain ⟨l, hl, hm⟩ := Option.map_eq_some_iff.mp h
  obtain ⟨i, hidx, hi⟩ := ok.ordered.findIdx?_key hl
  obtain ⟨_, _, hv, hk⟩ := SlotStore.lookup_some hl
  refine ⟨i, l, ?_, hi, hv, hk, hm⟩
  have hsame : s.lineArry.findIdx? (·.tagMatches tag)
      = s.lineArry.findIdx? (fun b => decide (b.getTag = g.key tag)) :=
    findIdx?_congr fun b hb => tagMatches_iff ok hb tag
  simp [getLine, contains_eq ok, h, hsame, hidx]

theorem getMESI_spec (ok : TagsOk g s) {tag : Nat} {m : MESI} (h : s.stateOf (g.key tag) = some m) :
    s.getMESI tag = .ok m := by
  obtain ⟨i, l, hg, hi, _, _, hm⟩ := getLine_spec ok h
  simp [getMESI, hg, hi, hm]

/-! ## Changing one line -/

theorem forall_mem_modify {P : CacheLine → Prop} {l : List CacheLine} {i : Nat}
    {f : CacheLine → CacheLine} (hl : ∀ a ∈ l, P a) (hf : ∀ a, P a → P (f a)) :
    ∀ a ∈ l.modify i f, P a := by
  intro a ha
  obtain ⟨j, hj⟩ := List.mem_iff_getElem?.mp ha
  rw [List.getElem?_modify] at hj
  obtain ⟨b, hb, he⟩ := Option.map_eq_some_iff.mp hj
  have hPb := hl b (List.mem_of_getElem? hb)
  split at he
  · rw [← he]; exact hf b hPb
  · rw [← he]; exact hPb

/-- Writing MESI bits changes the map at one key. -/
theorem modifyLine_setMESI (ok : TagsOk g s) {i : Nat} {l : CacheLine} (hi : s.lineArry[i]? = some l)
    (hv : l.isValid = true) (value : MESI) :
    TagsOk g (s.modifyLine i (·.setMESI value)) ∧ ∀ k,
      (s.modifyLine i (·.setMESI value)).stateOf k
        = if k = l.getTag then some value else s.stateOf k := by
  have hlook := ok.ordered.lookup_update (f := (·.setMESI value)) hi hv rfl hv
  refine ⟨⟨?_, ?_, ?_, ?_, ?_⟩, ?_⟩
  · rw [← ok.length]; exact List.length_modify _ _ _
  · exact forall_mem_modify ok.masked fun _ h => h
  · exact ok.ordered.modify (f := (·.setMESI value)) hi rfl fun h => h
  · intro a ha hva
    obtain ⟨j, hj⟩ := List.mem_iff_getElem?.mp ha
    rcases SlotStore.getElem?_modify_cases hi hj with ⟨rfl, rfl⟩ | ⟨_, hold⟩
    · have : l.isValid = false := hva
      rw [hv] at this; cases this
    · exact ok.blank a (List.mem_of_getElem? hold) hva
  · exact forall_mem_modify ok.clean fun _ h => h
  · intro k
    show (SlotStore.lookup _ _ k (s.lineArry.modify i _)).map _ = _
    rw [hlook k]
    split <;> rfl

theorem setMESI_spec (ok : TagsOk g s) {tag : Nat} {m : MESI} (h : s.stateOf (g.key tag) = some m)
    (value : MESI) :
    ∃ i, s.setMESI tag value = .ok (s.modifyLine i (·.setMESI value))
      ∧ TagsOk g (s.modifyLine i (·.setMESI value)) ∧ ∀ k,
        (s.modifyLine i (·.setMESI value)).stateOf k
          = if k = g.key tag then some value else s.stateOf k := by
  obtain ⟨i, l, hg, hi, hv, hk, _⟩ := getLine_spec ok h
  obtain ⟨hok, hst⟩ := modifyLine_setMESI ok hi hv value
  exact ⟨i, by simp [setMESI, hg], hok, by rw [← hk]; exact hst⟩

theorem invalidateAt_spec (ok : TagsOk g s) {i : Nat} {l : CacheLine} (hi : s.lineArry[i]? = some l)
    (hv : l.isValid = true) :
    TagsOk g (s.invalidateAt i) ∧ ∀ k,
      (s.invalidateAt i).stateOf k = if k = l.getTag then none else s.stateOf k := by
  have hlook := ok.ordered.lookup_kill (f := fun l => (l.setValid false).setMESI .invalid)
    hi hv rfl rfl
  have hkilled : TagsOk g (s.modifyLine i fun l => (l.setValid false).setMESI .invalid) := by
    refine ⟨?_, ?_, ?_, ?_, ?_⟩
    · rw [← ok.length]; exact List.length_modify _ _ _
    · exact forall_mem_modify ok.masked fun _ h => h
    · exact ok.ordered.modify (f := fun l => (l.setValid false).setMESI .invalid) hi rfl
        fun h => nomatch h
    · intro a ha hva
      obtain ⟨j, hj⟩ := List.mem_iff_getElem?.mp ha
      rcases SlotStore.getElem?_modify_cases hi hj with ⟨rfl, rfl⟩ | ⟨_, hold⟩
      · rfl
      · exact ok.blank a (List.mem_of_getElem? hold) hva
    · exact forall_mem_modify ok.clean fun _ h => h
  refine ⟨(sameLines_checkAndFixLRU _).tagsOk hkilled, fun k => ?_⟩
  rw [invalidateAt, (sameLines_checkAndFixLRU _).stateOf]
  show (SlotStore.lookup _ _ k (s.lineArry.modify i _)).map _ = _
  rw [hlook k]
  split <;> rfl

theorem invalidate_spec (ok : TagsOk g s) {tag : Nat} {m : MESI}
    (h : s.stateOf (g.key tag) = some m) :
    ∃ (i : Nat) (l : CacheLine), s.lineArry[i]? = some l ∧ l.isValid = true
      ∧ s.invalidate tag = .ok (s.invalidateAt i) ∧ TagsOk g (s.invalidateAt i) ∧ ∀ k,
        (s.invalidateAt i).stateOf k = if k = g.key tag then none else s.stateOf k := by
  obtain ⟨i, l, hg, hi, hv, hk, _⟩ := getLine_spec ok h
  obtain ⟨hok, hst⟩ := invalidateAt_spec ok hi hv
  exact ⟨i, l, hi, hv, by simp [invalidate, hg], hok, by rw [← hk]; exact hst⟩

/-- Streaming a new tag into the first free line adds it to the map. Until its state is
set the line counts as `INVALID`. -/
theorem streamIn_spec (ok : TagsOk g s) {i tag : Nat} (hfree : s.getEmptyLine = some i)
    (hnew : s.stateOf (g.key tag) = none) :
    TagsOk g (s.streamIn i tag) ∧ ∀ k,
      (s.streamIn i tag).stateOf k
        = if k = g.key tag then some .invalid else s.stateOf k := by
  obtain ⟨hlt, _, _⟩ := List.findIdx?_eq_some_iff_getElem.mp hfree
  have hi : s.lineArry[i]? = some s.lineArry[i] := List.getElem?_eq_getElem hlt
  have hmem := List.mem_of_getElem? hi
  have hdead := SlotStore.dead_of_findIdx? hfree hi
  have hkey : (((s.lineArry[i].setValid true).setDirty false).setTag tag).getTag = g.key tag := by
    show s.lineArry[i].tagMask &&& tag = _
    rw [ok.masked _ hmem, and_tagMask]
  have hnone := Option.map_eq_none_iff.mp hnew
  have hlook := ok.ordered.lookup_fill hfree hnone
    (f := fun l => ((l.setValid true).setDirty false).setTag tag) hkey hi rfl
  have hfilled : TagsOk g
      (s.modifyLine i fun l => ((l.setValid true).setDirty false).setTag tag) := by
    refine ⟨?_, ?_, ?_, ?_, ?_⟩
    · rw [← ok.length]; exact List.length_modify _ _ _
    · exact forall_mem_modify ok.masked fun _ h => h
    · exact ok.ordered.fill hfree hnone
        (f := fun l => ((l.setValid true).setDirty false).setTag tag) hkey hi
    · intro a ha hva
      obtain ⟨j, hj⟩ := List.mem_iff_getElem?.mp ha
      rcases SlotStore.getElem?_modify_cases hi hj with ⟨rfl, rfl⟩ | ⟨_, hold⟩
      · cases hva
      · exact ok.blank a (List.mem_of_getElem? hold) hva
    · exact forall_mem_modify ok.clean fun _ _ => rfl
  refine ⟨(sameLines_updateLRUAt _ _).tagsOk hfilled, fun k => ?_⟩
  rw [streamIn, (sameLines_updateLRUAt _ _).stateOf]
  show (SlotStore.lookup _ _ k (s.lineArry.modify i _)).map _ = _
  rw [hlook k]
  split
  · have hb : s.lineArry[i].getMESI = .invalid := ok.blank _ hmem hdead
    exact congrArg some hb
  · rfl

theorem isFull_eq (s : CacheSet) : s.isFull = !s.getEmptyLine.isSome := by
  rw [Bool.eq_iff_iff, isFull, getEmptyLine, List.findIdx?_isSome]
  simp

end CacheSet

end CoherenceSim
