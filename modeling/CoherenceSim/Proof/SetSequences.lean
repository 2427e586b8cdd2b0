import CoherenceSim.Proof.Recency

/-!
# The line touched last stays

A touch leaves one line at LRU value 0, and this line only. It is still at 0 when the next line
is touched, since an invalidation renumbers from the smallest value on. The search for a victim
takes a line with a value above 0.

Nothing of this depends on the tags: two tags that a line cannot tell apart are one to the set.
-/

namespace CoherenceSim

namespace CacheSet

/-- What a set may be asked for. A call that finds no line of its tag does not go through. -/
def Op.Permitted (s : CacheSet) : Op → Prop
  | .insertLine tag => s.isFull = false ∧ s.contains tag = false
  | .invalidate tag => s.contains tag = true
  | _ => True

instance (s : CacheSet) (op : Op) : Decidable (op.Permitted s) :=
  match op with
  | .insertLine tag => inferInstanceAs (Decidable (s.isFull = false ∧ s.contains tag = false))
  | .invalidate tag => inferInstanceAs (Decidable (s.contains tag = true))
  | .setExclusive _ | .setModified _ | .setShared _ | .updateLRU _ | .evict => .isTrue trivial

/-- A new set and a sequence of calls on it with any tags, the latest first. -/
inductive Sequence (setNum linesPerSet tagSize : Nat) : List CallRecord → CacheSet → Prop
  | new : Sequence setNum linesPerSet tagSize [] (CacheSet.new setNum linesPerSet tagSize)
  | call {h : List CallRecord} {s s' : CacheSet} {line : Option CacheLine} (op : Op) :
      Sequence setNum linesPerSet tagSize h s → op.Permitted s →
      s.perform op = .ok (line, s') →
      Sequence setNum linesPerSet tagSize (⟨s, op, line, s'⟩ :: h) s'

/-- The slot that `insertLine` filled or `updateLRU` touched last. -/
def lastTouched : List CallRecord → Option Nat
  | [] => none
  | x :: older =>
      match x.op with
      | .insertLine _ => x.before.getEmptyLine
      | .updateLRU tag => (x.before.getLine tag).toOption
      | _ => lastTouched older

/-- Some line has a value above 0, and `evict` takes a valid line, but not the one touched last. -/
structure KeepsLatest (h : List CallRecord) (s : CacheSet) : Prop where
  nonzero : ∃ l ∈ s.lineArry, l.isValid = true ∧ l.getLRU ≠ 0
  victim : ∃ v a l s', s.selectLineForEviction = .ok (some v) ∧ s.lineArry[v]? = some a
    ∧ a.isValid = true ∧ s.evict = .ok (some l, s') ∧ s'.lineArry[v]? = some l
    ∧ l.getTag = a.getTag ∧ lastTouched h ≠ some v

variable {g : SetShape} {setNum linesPerSet tagSize : Nat} {h : List CallRecord} {s s' : CacheSet}
  {op : Op} {line : Option CacheLine}

/-! ## A call with any tag -/

theorem stateOf_of_contains (tags : TagsOk g s) {tag : Nat} (hc : s.contains tag = true) :
    ∃ m, s.stateOf (g.key tag) = some m := by
  rw [contains_eq tags] at hc
  exact Option.isSome_iff_exists.mp hc

theorem stateOf_of_getLine (tags : TagsOk g s) {tag i : Nat} (hi : s.getLine tag = .ok i) :
    ∃ m, s.stateOf (g.key tag) = some m := by
  obtain ⟨_, hc, _⟩ := Outcome.bind_eq_ok.mp hi
  exact stateOf_of_contains tags (assertThat_eq_ok.mp hc)

/-- **Preserved by every call.** -/
theorem Ok.call (ok : Ok g s) (htwo : 2 ≤ g.lines) (hpermitted : op.Permitted s)
    (heq : s.perform op = .ok (line, s')) : Ok g s' := by
  have state {tag : Nat} {value : MESI} {s₁ : CacheSet} (hs : s.setMESI tag value = .ok s₁) :
      Ok g s₁ := by
    obtain ⟨i, hi, _⟩ := Outcome.bind_eq_ok.mp hs
    obtain ⟨m, hm⟩ := stateOf_of_getLine ok.tags hi
    obtain ⟨s₂, hs₂, hok, _⟩ := ok.setMESI_spec hm value
    rw [hs] at hs₂; cases hs₂
    exact hok
  cases op with
  | insertLine tag =>
      obtain ⟨hroom, hc⟩ := hpermitted
      rw [contains_eq ok.tags] at hc
      obtain ⟨s₁, hs₁, hok, _⟩ := ok.insertLine_spec hroom (Option.not_isSome_iff_eq_none.mp
        (by rw [hc]; simp))
      rw [CacheSet.perform, hs₁] at heq; cases heq
      exact hok
  | invalidate tag =>
      obtain ⟨m, hm⟩ := stateOf_of_contains ok.tags hpermitted
      obtain ⟨s₁, hs₁, hok, _⟩ := ok.invalidate_spec hm
      rw [CacheSet.perform, hs₁] at heq; cases heq
      exact hok
  | setExclusive tag | setModified tag | setShared tag =>
      obtain ⟨s₁, hs₁, heq⟩ := Outcome.bind_eq_ok.mp heq
      cases heq
      exact state hs₁
  | updateLRU tag =>
      obtain ⟨s₁, hs₁, heq⟩ := Outcome.bind_eq_ok.mp heq
      cases heq
      obtain ⟨i, hi, _⟩ := Outcome.bind_eq_ok.mp hs₁
      obtain ⟨m, hm⟩ := stateOf_of_getLine ok.tags hi
      obtain ⟨s₂, hs₂, hok, _⟩ := ok.updateLRU_spec hm
      rw [hs₁] at hs₂; cases hs₂
      exact hok
  | evict =>
      have heq : s.evict = .ok (line, s') := heq
      cases hfull : s.isFull with
      | true =>
          obtain ⟨l, s₁, _, _, hs₁, hok, _⟩ := ok.evict_spec htwo hfull
          rw [heq] at hs₁; cases hs₁
          exact hok
      | false =>
          rw [evict_of_not_full hfull] at heq; cases heq
          exact ok

theorem Sequence.ok (hlines : 2 ≤ linesPerSet) (hlines' : linesPerSet < 2 ^ 32)
    (hseq : Sequence setNum linesPerSet tagSize h s) : Ok (shapeOf linesPerSet tagSize) s := by
  induction hseq with
  | new => exact ok_new setNum hlines' tagSize
  | call op _ hpermitted heq ih => exact ih.call hlines hpermitted heq

/-! ## The line at 0 -/

/-- **Renumbering starts with the line at 0**, and so leaves it there. -/
theorem LruOk.checkAndFixLRU_zero (lru : LruOk g s) {k : Nat} {a b : CacheLine}
    (ha : s.lineArry[k]? = some a) (hva : a.isValid = true) (hz : a.getLRU = 0)
    (hb : s.checkAndFixLRU.lineArry[k]? = some b) : b.getLRU = 0 := by
  obtain ⟨m, hm, hkeys, hrun, hnd, _⟩ := checkAndFixLRU_walk s
  rw [hrun] at hb
  -- the entry for the value 0 is that of this line, and no key is smaller
  obtain ⟨q, hq, hq0⟩ := List.mem_map.mp (hz ▸ hkeys a (List.mem_of_getElem? ha) hva)
  obtain ⟨d, hd, hvd, hkd⟩ := hm.entry q hq
  have hk := lru.zeroOnce q.2 k d a hd ha hvd hva (hkd.trans hq0) hz
  obtain ⟨i, hi, hqi⟩ := List.mem_iff_getElem.mp hq
  have hfirst : i = 0 := by
    by_contra hne
    have hlt := List.pairwise_iff_getElem.mp hm.sorted 0 i (by omega) hi (by omega)
    rw [hqi, hq0] at hlt
    exact absurd hlt (Nat.not_lt_zero _)
  have hplace : (m.map Prod.snd)[0]? = some k := by
    rw [List.getElem?_map, ← hfirst, List.getElem?_eq_getElem hi, hqi, ← hk]
    rfl
  obtain ⟨a', ha', ⟨hnot, _⟩ | ⟨p, hp, rfl⟩⟩ := renumberLRU_getElem? hnd hb
  · exact absurd (List.mem_of_getElem? hplace) hnot
  · have hplt := (List.getElem?_eq_some_iff.mp hp).1
    obtain rfl : p = 0 := (List.getElem?_inj hplt hnd).mp (hp.trans hplace.symm)
    exact Nat.and_zero _

/-- The line touched last is at 0, as long as it is in use. -/
def LatestAtZero (h : List CallRecord) (s : CacheSet) : Prop :=
  ∀ k a, lastTouched h = some k → s.lineArry[k]? = some a → a.isValid = true → a.getLRU = 0

theorem lastTouched_of_not_uses (hno : ∀ tag, ¬ op.Uses tag) :
    lastTouched (⟨s, op, line, s'⟩ :: h) = lastTouched h := by
  cases op with
  | insertLine tag => exact absurd (Or.inl rfl) (hno tag)
  | updateLRU tag => exact absurd (Or.inr rfl) (hno tag)
  | _ => rfl

/-- **Preserved by every call.** -/
theorem LatestAtZero.call (hz : LatestAtZero h s) (ok : Ok g s) (hp : Performed s op line s') :
    LatestAtZero (⟨s, op, line, s'⟩ :: h) s' := by
  intro k b hk hb hv
  cases hp with
  | @inserted i tag hfree =>
      have hk : s.getEmptyLine = some k := hk
      rw [hfree] at hk; cases hk
      obtain ⟨hlt, _, _⟩ := List.findIdx?_eq_some_iff_getElem.mp hfree
      obtain ⟨hlen, hwidth⟩ := ok.modifyLine_shape k
        (f := fun l => ((l.setValid true).setDirty false).setTag tag) fun _ => rfl
      exact updateLRUAt_zero hlen hwidth (ok.tags.length ▸ hlt) hb
  | @touched i tag hline =>
      have hk : (s.getLine tag).toOption = some k := hk
      rw [hline] at hk; cases hk
      exact updateLRUAt_zero ok.tags.length ok.lru.width (ok.tags.length ▸ getLine_lt hline) hb
  | @set _ i value hno =>
      rw [lastTouched_of_not_uses hno] at hk
      by_cases hki : k = i
      · subst hki
        obtain ⟨a, ha, rfl⟩ := modifyLine_self hb
        exact hz k a hk ha hv
      · exact hz k b hk (modifyLine_of_ne hki hb) hv
  | @invalidated _ i _ hno =>
      rw [lastTouched_of_not_uses hno] at hk
      by_cases hki : k = i
      · subst hki
        rw [invalidateAt_self hb] at hv
        cases hv
      · obtain ⟨a, ha, hva, _⟩ := (sameLines_checkAndFixLRU _).getElem? hb
        have hva := hva.trans hv
        have hzero := hz k a hk (modifyLine_of_ne hki ha) hva
        exact (withoutLine_lruOk ok.lru i).checkAndFixLRU_zero ha hva hzero hb
  | kept hno =>
      rw [lastTouched_of_not_uses hno] at hk
      exact hz k b hk hb hv

theorem Sequence.latestAtZero (hlines : 2 ≤ linesPerSet) (hlines' : linesPerSet < 2 ^ 32)
    (hseq : Sequence setNum linesPerSet tagSize h s) : LatestAtZero h s := by
  induction hseq with
  | new => intro k a hk; cases hk
  | call op hseq _ heq ih => exact ih.call (hseq.ok hlines hlines') (performed heq)

/-- **The line touched last is never evicted**, whatever sequence of calls was made on the set.
In a full set some line has a value above 0, so that the search finds a victim. -/
theorem latest_line_kept (setNum linesPerSet tagSize : Nat) (hlines : 2 ≤ linesPerSet)
    (hlines' : linesPerSet < 2 ^ 32) (h : List CallRecord) (s : CacheSet)
    (hseq : Sequence setNum linesPerSet tagSize h s) (hfull : s.isFull = true) :
    KeepsLatest h s := by
  have ok := hseq.ok hlines hlines'
  obtain ⟨i, c, hc, hne⟩ := ok.lru.exists_pos (ok.tags.length ▸ hlines) hfull
  obtain ⟨v, a, hsel, ha, hgreatest⟩ := ok.greatest hlines hfull
  obtain ⟨l, hev, hl, htag, _⟩ := evict_of_select hsel ha
  have hva := getElem?_of_isFull hfull ha
  refine ⟨⟨c, List.mem_of_getElem? hc, getElem?_of_isFull hfull hc, hne⟩,
    v, a, l, _, hsel, ha, hva, hev, hl, htag, fun hlast => ?_⟩
  have hzero := hseq.latestAtZero hlines hlines' v a hlast ha hva
  have hle := hgreatest i c hc
  omega

/-- Three lines are inserted, and the first is used again. -/
theorem latest_line_kept_three_lines : ∃ h s, Sequence 0 3 32 h s ∧ s.isFull = true
    ∧ lastTouched h = some 0 ∧ KeepsLatest h s := by
  have hseq : Sequence 0 3 32 _ _ :=
    .call (.updateLRU 1) (.call (.insertLine 3) (.call (.insertLine 2) (.call (.insertLine 1) .new
      (by decide) rfl) (by decide) rfl) (by decide) rfl) (by decide) rfl
  exact ⟨_, _, hseq, rfl, rfl, latest_line_kept 0 3 32 (by decide) (by decide) _ _ hseq rfl⟩

end CacheSet

end CoherenceSim
