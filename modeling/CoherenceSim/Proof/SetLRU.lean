import CoherenceSim.Proof.SetMap

/-!
# Eviction always finds a victim

`findLRU` starts from a greatest value of 0 and only ever takes a line with a larger
one, so on candidates that all carry 0 its result is never assigned. That cannot happen
in a full set of two or more lines: *at most one valid line has LRU value 0*.

Ranks would be too strong an invariant. A line streamed into a fresh slot inherits the
slot's old counter, so two lines may well share a value; they just do not share 0.
-/

namespace CoherenceSim

namespace CacheSet

variable {g : SetShape} {s : CacheSet}

/-- At most one valid line has LRU value 0. -/
def ZeroOnce (l : List CacheLine) : Prop :=
  ∀ (i j : Nat) (a b : CacheLine), l[i]? = some a → l[j]? = some b → a.isValid = true →
    b.isValid = true → a.getLRU = 0 → b.getLRU = 0 → i = j

/-- The LRU half of a set's invariant. -/
structure LruOk (g : SetShape) (s : CacheSet) : Prop where
  width : ∀ l ∈ s.lineArry, l.lruMask = 2 ^ g.lruLen - 1
  zeroOnce : ZeroOnce s.lineArry

theorem setLRU_getLRU {l : CacheLine} {k n : Nat} (hmask : l.lruMask = 2 ^ k - 1) (hn : n < 2 ^ k) :
    (l.setLRU n).getLRU = n := by
  show l.lruMask &&& n = n
  rw [hmask, Nat.and_comm, Nat.and_two_pow_sub_one_of_lt_two_pow hn]

/-- The LRU value in a slot, as `updateLRU` and the search for a victim read it. -/
def lruAt (s : CacheSet) (i : Nat) : Nat := (s.lineArry[i]?.map CacheLine.getLRU).getD 0

theorem lruAt_eq {i : Nat} {a : CacheLine} (hi : s.lineArry[i]? = some a) :
    s.lruAt i = a.getLRU := by
  rw [lruAt, hi]; rfl

/-! ## Touching a line -/

/-- The loop of `updateLRU` gives this line a number. -/
def Numbered (line oldLRU i : Nat) (l : CacheLine) : Prop :=
  i ≠ line ∧ l.isValid = true ∧ l.getLRU ≤ oldLRU

instance (line oldLRU i : Nat) (l : CacheLine) : Decidable (Numbered line oldLRU i l) := by
  unfold Numbered; infer_instance

/-- How many lines the loop numbers before it comes to position `j` of its list. -/
def numberedBefore (line oldLRU : Nat) : Nat → List CacheLine → Nat → Nat
  | _, [], _ => 0
  | _, _ :: _, 0 => 0
  | i, line0 :: rest, j + 1 =>
      (if Numbered line oldLRU i line0 then 1 else 0) + numberedBefore line oldLRU (i + 1) rest j

variable {line oldLRU : Nat}

/-- **What the loop does** to the line at position `j` of its list. -/
theorem updateLRULoop_getElem? {l : List CacheLine} : ∀ {i lastLRU j : Nat} {b : CacheLine},
    (updateLRULoop line oldLRU i lastLRU l)[j]? = some b → ∃ a, l[j]? = some a
      ∧ b = if Numbered line oldLRU (i + j) a then
          a.setLRU (lastLRU + numberedBefore line oldLRU i l j) else a := by
  induction l with
  | nil => intro i lastLRU j b hb; cases hb
  | cons a l ih =>
      intro i lastLRU j b hb
      have hunfold : updateLRULoop line oldLRU i lastLRU (a :: l)
          = if Numbered line oldLRU i a then
              a.setLRU lastLRU :: updateLRULoop line oldLRU (i + 1) (lastLRU + 1) l
            else a :: updateLRULoop line oldLRU (i + 1) lastLRU l := rfl
      rw [hunfold] at hb
      cases j with
      | zero =>
          refine ⟨a, rfl, ?_⟩
          split at hb <;> cases hb
          · exact (if_pos ‹_›).symm
          · exact (if_neg ‹_›).symm
      | succ j =>
          -- what was numbered here counts for the rest
          have hpos : i + (j + 1) = i + 1 + j := by omega
          rw [numberedBefore, hpos]
          split at hb <;> rw [List.getElem?_cons_succ] at hb
          · obtain ⟨a', ha', he⟩ := ih hb
            exact ⟨a', ha', by rw [he, if_pos ‹Numbered line oldLRU i a›, Nat.add_assoc lastLRU]⟩
          · obtain ⟨a', ha', he⟩ := ih hb
            exact ⟨a', ha', by rw [he, if_neg ‹¬ Numbered line oldLRU i a›, Nat.zero_add]⟩

theorem numberedBefore_le {l : List CacheLine} : ∀ {i j : Nat},
    numberedBefore line oldLRU i l j ≤ j := by
  induction l with
  | nil => intro i j; rw [numberedBefore]; exact Nat.zero_le _
  | cons a l ih =>
      intro i j
      cases j with
      | zero => exact Nat.le_refl _
      | succ j =>
          have hrest := @ih (i + 1) j
          rw [numberedBefore]
          split <;> omega

/-- The touched line gets no number. -/
theorem numberedBefore_lt {l : List CacheLine} : ∀ {i j : Nat}, i ≤ line → line < i + j →
    numberedBefore line oldLRU i l j < j := by
  induction l with
  | nil => intro i j hi hj; rw [numberedBefore]; omega
  | cons a l ih =>
      intro i j hi hj
      cases j with
      | zero => omega
      | succ j =>
          rw [numberedBefore]
          by_cases hil : i = line
          · have hrest := @numberedBefore_le line oldLRU l (i + 1) j
            rw [if_neg fun h0 => h0.1 hil]
            omega
          · have hrest := @ih (i + 1) j (by omega) (by omega)
            split <;> omega

/-- What a touch does to the line in one slot. -/
theorem updateLRUAt_getElem? (hlen : s.lineArry.length = g.lines)
    (hwidth : ∀ l ∈ s.lineArry, l.lruMask = 2 ^ g.lruLen - 1) (hline : line < g.lines)
    {j : Nat} {b : CacheLine} (hb : (s.updateLRUAt line).lineArry[j]? = some b) :
    ∃ a, (s.lineArry.modify line (·.setLRU 0))[j]? = some a ∧ b.isValid = a.isValid
      ∧ b.lruMask = a.lruMask ∧ (j = line → b = a)
      ∧ (j ≠ line → b.getLRU = if Numbered line (s.lruAt line) j a then
          1 + numberedBefore line (s.lruAt line) 0 (s.lineArry.modify line (·.setLRU 0)) j
        else a.getLRU) := by
  have hwidth' := forall_mem_modify (i := line) (f := (·.setLRU 0)) hwidth fun _ h => h
  obtain ⟨a, ha, he⟩ := updateLRULoop_getElem?
    (show (updateLRULoop line (s.lruAt line) 0 1 _)[j]? = _ from hb)
  rw [Nat.zero_add] at he
  refine ⟨a, ha, ?_, ?_, fun hj => ?_, fun hj => ?_⟩
  · rw [he]; split <;> rfl
  · rw [he]; split <;> rfl
  · rw [he, if_neg fun h0 => h0.1 hj]
  · rw [he]
    split
    · -- the numbers handed out stay below the number of lines
      have hjlt : j < g.lines := by
        rw [← hlen, ← List.length_modify]
        exact (List.getElem?_eq_some_iff.mp ha).1
      refine setLRU_getLRU (hwidth' a (List.mem_of_getElem? ha)) (Nat.lt_of_lt_of_le ?_ g.fits)
      rcases Nat.lt_or_gt_of_ne hj with hlt | hgt
      · exact Nat.lt_of_le_of_lt (Nat.add_le_add_left numberedBefore_le 1) (by omega)
      · rw [Nat.add_comm]
        exact Nat.lt_of_le_of_lt (numberedBefore_lt (Nat.zero_le _) (by omega)) hjlt
    · rfl

/-- After a touch the touched line is the only one at 0. -/
theorem updateLRUAt_lruOk (hlen : s.lineArry.length = g.lines)
    (hwidth : ∀ l ∈ s.lineArry, l.lruMask = 2 ^ g.lruLen - 1) (hline : line < g.lines) :
    LruOk g (s.updateLRUAt line) := by
  have hwidth' := forall_mem_modify (i := line) (f := (·.setLRU 0)) hwidth fun _ h => h
  refine ⟨?_, ?_⟩
  · intro b hb
    obtain ⟨j, hj⟩ := List.mem_iff_getElem?.mp hb
    obtain ⟨a, ha, _, hm, _⟩ := updateLRUAt_getElem? hlen hwidth hline hj
    rw [hm]; exact hwidth' a (List.mem_of_getElem? ha)
  · have key : ∀ (j : Nat) (b : CacheLine), (s.updateLRUAt line).lineArry[j]? = some b →
        b.isValid = true → b.getLRU = 0 → j = line := by
      intro j b hb hv hz
      obtain ⟨a, _, hva, _, _, hval⟩ := updateLRUAt_getElem? hlen hwidth hline hb
      by_contra hne
      rw [hval hne] at hz
      split at hz
      · omega
      · -- a line at 0 is always numbered
        exact absurd ⟨hne, hva ▸ hv, hz ▸ Nat.zero_le _⟩ ‹¬ Numbered line (s.lruAt line) j a›
    intro i j a b hi hj ha hb hza hzb
    rw [key i a hi ha hza, key j b hj hb hzb]

theorem updateLRUAt_zero (hlen : s.lineArry.length = g.lines)
    (hwidth : ∀ l ∈ s.lineArry, l.lruMask = 2 ^ g.lruLen - 1) (hline : line < g.lines)
    {b : CacheLine} (hb : (s.updateLRUAt line).lineArry[line]? = some b) : b.getLRU = 0 := by
  obtain ⟨a, ha, _, _, hsame, _⟩ := updateLRUAt_getElem? hlen hwidth hline hb
  obtain rfl := hsame rfl
  rw [List.getElem?_modify] at ha
  obtain ⟨a₀, _, he⟩ := Option.map_eq_some_iff.mp ha
  have he : a₀.setLRU 0 = b := by simpa using he
  rw [← he]
  exact Nat.and_zero _

/-! ## Renumbering after an invalidation -/

/-- What `checkAndFixLRU` knows about its map: each entry is a valid line under its LRU
value, and every LRU value of a valid line has an entry. -/
structure LruMapOk (l : List CacheLine) (m : OrdMap Nat) : Prop where
  sorted : OrdMap.Sorted m
  entry : ∀ p ∈ m, ∃ a, l[p.2]? = some a ∧ a.isValid = true ∧ a.getLRU = p.1

theorem lruMap_ok {full : List CacheLine} : ∀ {l : List CacheLine} {i : Nat} {m : OrdMap Nat},
    full.drop i = l → LruMapOk full m → LruMapOk full (lruMap i l m) ∧
      ∀ k, (k ∈ OrdMap.keys m ∨ ∃ a ∈ l, a.isValid = true ∧ a.getLRU = k) →
        k ∈ OrdMap.keys (lruMap i l m)
  | [], i, m, _, hm => ⟨hm, fun k hk => by
      rcases hk with hk | ⟨a, ha, _⟩
      · exact hk
      · simp at ha⟩
  | line :: rest, i, m, hdrop, hm => by
      have hi : full[i]? = some line := by
        have := congrArg (·[0]?) hdrop
        simpa using this
      have hdrop' : full.drop (i + 1) = rest := by
        rw [← List.drop_drop, hdrop]; rfl
      unfold lruMap
      split
      · rename_i hv
        have hm' : LruMapOk full (m.assign line.getLRU i) := by
          refine ⟨OrdMap.sorted_assign hm.sorted, fun p hp => ?_⟩
          rcases OrdMap.mem_assign hp with rfl | hp
          · exact ⟨line, hi, hv, rfl⟩
          · exact hm.entry p hp
        obtain ⟨hok, hkeys⟩ := lruMap_ok hdrop' hm'
        refine ⟨hok, fun k hk => hkeys k ?_⟩
        rw [← OrdMap.find?_isSome, OrdMap.find?_assign]
        rcases hk with hk | ⟨a, ha, hva, hka⟩
        · left
          split
          · rfl
          · rw [OrdMap.find?_isSome]; exact hk
        · rcases List.mem_cons.mp ha with rfl | ha
          · left; rw [if_pos hka.symm]; rfl
          · exact Or.inr ⟨a, ha, hva, hka⟩
      · rename_i hv
        obtain ⟨hok, hkeys⟩ := lruMap_ok hdrop' hm
        refine ⟨hok, fun k hk => hkeys k ?_⟩
        rcases hk with hk | ⟨a, ha, hva, hka⟩
        · exact Or.inl hk
        · rcases List.mem_cons.mp ha with rfl | ha
          · exact absurd hva (by simpa using hv)
          · exact Or.inr ⟨a, ha, hva, hka⟩

/-- The later of two lines with one value replaces the other in the map. -/
theorem lruMap_last {full : List CacheLine} : ∀ {l : List CacheLine} {i : Nat} {m : OrdMap Nat},
    full.drop i = l → OrdMap.Sorted m →
    (∀ p ∈ m, ∀ n < i, ∀ a, full[n]? = some a → a.isValid = true → a.getLRU = p.1 → n ≤ p.2) →
    ∀ p ∈ lruMap i l m, ∀ (n : Nat) (a : CacheLine), full[n]? = some a → a.isValid = true →
      a.getLRU = p.1 → n ≤ p.2
  | [], i, m, hdrop, _, hlast => by
      intro p hp n a hn
      have hlong := List.drop_eq_nil_iff.mp hdrop
      have hlt := (List.getElem?_eq_some_iff.mp hn).1
      exact hlast p hp n (by omega) a hn
  | line :: rest, i, m, hdrop, hsorted, hlast => by
      have hi : full[i]? = some line := by
        have := congrArg (·[0]?) hdrop
        simpa using this
      have hdrop' : full.drop (i + 1) = rest := by
        rw [← List.drop_drop, hdrop]; rfl
      have below {n : Nat} {a : CacheLine} (hlt : n < i + 1) (hn : full[n]? = some a)
          (hne : n ≠ i ∨ a ≠ line) : n < i := by
        rcases Nat.lt_or_eq_of_le (Nat.le_of_lt_succ hlt) with h0 | rfl
        · exact h0
        · rw [hi] at hn
          exact absurd (Option.some.inj hn).symm (hne.resolve_left fun h0 => h0 rfl)
      unfold lruMap
      split
      · rename_i hv
        refine lruMap_last hdrop' (OrdMap.sorted_assign hsorted) fun p hp n hlt a hn hva hka => ?_
        rcases hsorted.mem_assign hp with rfl | ⟨hp, hne⟩
        · exact Nat.le_of_lt_succ hlt
        · refine hlast p hp n (below hlt hn (Or.inr ?_)) a hn hva hka
          rintro rfl
          exact hne hka.symm
      · rename_i hv
        refine lruMap_last hdrop' hsorted fun p hp n hlt a hn hva hka => ?_
        refine hlast p hp n (below hlt hn (Or.inr ?_)) a hn hva hka
        rintro rfl
        exact hv hva

/-- What the renumbering does to the line at position `j`: the line at place `p` of the
walk gets `lruValue + p`, a line outside the walk keeps its counter. -/
theorem renumberLRU_getElem? : ∀ {lines : List Nat} {s : CacheSet} {lruValue j : Nat}
    {b : CacheLine}, lines.Nodup → (s.renumberLRU lruValue lines).lineArry[j]? = some b →
    ∃ a, s.lineArry[j]? = some a ∧
      ((j ∉ lines ∧ b = a) ∨ ∃ p, lines[p]? = some j ∧ b = a.setLRU (lruValue + p))
  | [], s, lruValue, j, b, _, hb => ⟨b, hb, Or.inl ⟨by simp, rfl⟩⟩
  | line :: rest, s, lruValue, j, b, hnd, hb => by
      obtain ⟨hnot, hnd'⟩ := List.nodup_cons.mp hnd
      obtain ⟨a, ha, hcase⟩ := renumberLRU_getElem? hnd' hb
      have hmod : (s.lineArry.modify line (·.setLRU lruValue))[j]? = some a := ha
      rw [List.getElem?_modify] at hmod
      obtain ⟨a₀, ha₀, he⟩ := Option.map_eq_some_iff.mp hmod
      refine ⟨a₀, ha₀, ?_⟩
      by_cases hj : line = j
      · subst hj
        rw [if_pos rfl] at he
        rcases hcase with ⟨_, rfl⟩ | ⟨p, hp, _⟩
        · exact Or.inr ⟨0, by simp, by rw [← he]; rfl⟩
        · exact absurd (List.mem_of_getElem? hp) hnot
      · rw [if_neg hj] at he
        have he : a₀ = a := he
        subst he
        rcases hcase with ⟨hmem, rfl⟩ | ⟨p, hp, rfl⟩
        · exact Or.inl ⟨by simp [Ne.symm hj, hmem], rfl⟩
        · exact Or.inr ⟨p + 1, by simpa using hp, by congr 1; omega⟩

/-- The walk of `checkAndFixLRU`: through the entries of a map with every LRU value in use, and the
last line of each value. -/
structure LruWalk (s : CacheSet) (m : OrdMap Nat) : Prop where
  ok : LruMapOk s.lineArry m
  keys : ∀ a ∈ s.lineArry, a.isValid = true → a.getLRU ∈ OrdMap.keys m
  run : s.checkAndFixLRU = s.renumberLRU 0 (m.map Prod.snd)
  nodup : (m.map Prod.snd).Nodup
  short : (m.map Prod.snd).length ≤ s.lineArry.length
  last : ∀ p ∈ m, ∀ (n : Nat) (a : CacheLine), s.lineArry[n]? = some a → a.isValid = true →
    a.getLRU = p.1 → n ≤ p.2

theorem checkAndFixLRU_walk (s : CacheSet) : ∃ m : OrdMap Nat, LruWalk s m := by
  have hempty : LruMapOk s.lineArry [] := ⟨List.Pairwise.nil, by simp⟩
  obtain ⟨hm, hkeys⟩ := lruMap_ok (l := s.lineArry) (i := 0) (m := []) (List.drop_zero) hempty
  -- distinct keys sit on distinct lines
  have hnd : ((lruMap 0 s.lineArry []).map Prod.snd).Nodup := by
    rw [List.nodup_iff_pairwise_ne, List.pairwise_map]
    refine hm.sorted.imp_of_mem fun {p q} hp hq hlt he => ?_
    obtain ⟨a, ha, _, hka⟩ := hm.entry p hp
    obtain ⟨b, hb, _, hkb⟩ := hm.entry q hq
    rw [he, hb] at ha
    cases ha
    omega
  have hsub : (lruMap 0 s.lineArry []).map Prod.snd ⊆ List.range s.lineArry.length := by
    intro j hj
    obtain ⟨p, hp, rfl⟩ := List.mem_map.mp hj
    obtain ⟨a, ha, _⟩ := hm.entry p hp
    exact List.mem_range.mpr (List.getElem?_eq_some_iff.mp ha).1
  exact ⟨_, hm, fun a ha hv => hkeys _ (Or.inr ⟨a, ha, hv, rfl⟩), rfl, hnd,
    by simpa using hnd.length_le_of_subset hsub,
    lruMap_last List.drop_zero List.Pairwise.nil fun p hp => (by cases hp)⟩

/-- The line at place `p` of the walk gets the value `p`. -/
theorem renumbered_getLRU {m : OrdMap Nat} (hlen : s.lineArry.length = g.lines)
    (hwidth : ∀ l ∈ s.lineArry, l.lruMask = 2 ^ g.lruLen - 1)
    (hlong : (m.map Prod.snd).length ≤ s.lineArry.length) {j p : Nat} {a : CacheLine}
    (ha : s.lineArry[j]? = some a) (hp : (m.map Prod.snd)[p]? = some j) :
    (a.setLRU (0 + p)).getLRU = p := by
  have hplt := (List.getElem?_eq_some_iff.mp hp).1
  rw [Nat.zero_add]
  exact setLRU_getLRU (hwidth a (List.mem_of_getElem? ha))
    (Nat.lt_of_lt_of_le (by omega) g.fits)

theorem checkAndFixLRU_lruOk (hlen : s.lineArry.length = g.lines) (ok : LruOk g s) :
    LruOk g s.checkAndFixLRU := by
  obtain ⟨m, hm, hkeys, hrun, hnd, hlong⟩ := checkAndFixLRU_walk s
  have hwidth : ∀ l ∈ s.checkAndFixLRU.lineArry, l.lruMask = 2 ^ g.lruLen - 1 := by
    intro b hb
    rw [hrun] at hb
    obtain ⟨j, hj⟩ := List.mem_iff_getElem?.mp hb
    obtain ⟨a, ha, hcase⟩ := renumberLRU_getElem? hnd hj
    have := ok.width a (List.mem_of_getElem? ha)
    rcases hcase with ⟨_, rfl⟩ | ⟨_, _, rfl⟩ <;> exact this
  refine ⟨hwidth, ?_⟩
  -- a line at 0 is the first of the walk
  have key : ∀ (j : Nat) (b : CacheLine), s.checkAndFixLRU.lineArry[j]? = some b →
      b.isValid = true → b.getLRU = 0 → (m.map Prod.snd)[0]? = some j := by
    intro j b hb hv hz
    rw [hrun] at hb
    obtain ⟨a, ha, hcase⟩ := renumberLRU_getElem? hnd hb
    rcases hcase with ⟨hnot, rfl⟩ | ⟨p, hp, rfl⟩
    · -- not renumbered, so some other line was entered under the value 0
      have h0 := hz ▸ hkeys b (List.mem_of_getElem? ha) hv
      obtain ⟨q, hq, hq0⟩ := List.mem_map.mp h0
      obtain ⟨c, hc, hvc, hkc⟩ := hm.entry q hq
      have hsame := ok.zeroOnce j q.2 b c ha hc hv hvc hz (by omega)
      exact absurd (List.mem_map.mpr ⟨q, hq, hsame.symm⟩) hnot
    · rw [renumbered_getLRU hlen ok.width hlong ha hp] at hz
      exact hz ▸ hp
  intro i j a b hi hj ha hb hza hzb
  have h1 := key i a hi ha hza
  rw [key j b hj hb hzb] at h1
  exact (Option.some.inj h1).symm

/-! ## Choosing a victim -/

/-- The step of `findLRU`'s loop. -/
def lruStep (s : CacheSet) (best : Nat × Option Nat) (line : Nat) : Nat × Option Nat :=
  let lruVal := (s.lineArry[line]?.map CacheLine.getLRU).getD 0
  if lruVal > best.1 then (lruVal, some line) else best

theorem findLRU_eq (s : CacheSet) (candidates : List Nat) :
    s.findLRU candidates = (candidates.foldl s.lruStep (0, none)).2 := rfl

/-- The search returns a candidate, or what it started from. -/
theorem lruStep_foldl_mem (s : CacheSet) : ∀ (candidates : List Nat) (best : Nat × Option Nat),
    (candidates.foldl s.lruStep best).2 = best.2 ∨
      ∃ line ∈ candidates, (candidates.foldl s.lruStep best).2 = some line
  | [], best => Or.inl rfl
  | line :: rest, best => by
      rw [List.foldl_cons]
      rcases lruStep_foldl_mem s rest (s.lruStep best line) with h | ⟨line', hm, h⟩
      · rw [h]
        by_cases hgt : (s.lineArry[line]?.map CacheLine.getLRU).getD 0 > best.1
        · exact Or.inr ⟨line, List.mem_cons_self, by simp [lruStep, hgt]⟩
        · exact Or.inl (by simp [lruStep, hgt])
      · exact Or.inr ⟨line', List.mem_cons_of_mem _ hm, h⟩

theorem findLRU_mem {candidates : List Nat} {i : Nat} (hi : s.findLRU candidates = some i) :
    i ∈ candidates := by
  rw [findLRU_eq] at hi
  rcases lruStep_foldl_mem s candidates (0, none) with h0 | ⟨j, hj, h0⟩
  · rw [hi] at h0; cases h0
  · rw [hi] at h0; cases h0; exact hj

theorem lruStep_foldl_isSome (s : CacheSet) : ∀ (candidates : List Nat) (best : Nat × Option Nat),
    best.2.isSome = true → ((candidates.foldl s.lruStep best).2).isSome = true
  | [], best, h => h
  | line :: rest, best, h => by
      rw [List.foldl_cons]
      refine lruStep_foldl_isSome s rest _ ?_
      unfold lruStep
      dsimp only
      split
      · rfl
      · exact h

/-- One candidate above 0 is enough for the search to succeed. -/
theorem findLRU_isSome {line : Nat} : ∀ {candidates : List Nat}, line ∈ candidates →
    (s.lineArry[line]?.map CacheLine.getLRU).getD 0 ≠ 0 → (s.findLRU candidates).isSome = true := by
  have key : ∀ (candidates : List Nat) (best : Nat × Option Nat), line ∈ candidates →
      (best.2 = none → best.1 = 0) → (s.lineArry[line]?.map CacheLine.getLRU).getD 0 ≠ 0 →
      ((candidates.foldl s.lruStep best).2).isSome = true := by
    intro candidates
    induction candidates with
    | nil => intro best hm; simp at hm
    | cons c rest ih =>
        intro best hm hbest hne
        rw [List.foldl_cons]
        rcases List.mem_cons.mp hm with rfl | hm
        · refine lruStep_foldl_isSome s rest _ ?_
          unfold lruStep
          dsimp only
          split
          · rfl
          · rename_i hle
            cases hb : best.2 with
            | none => have := hbest hb; omega
            | some b => rfl
        · refine ih _ hm ?_ hne
          unfold lruStep
          dsimp only
          split
          · intro h; cases h
          · exact hbest
  intro candidates hm hne
  rw [findLRU_eq]
  exact key candidates (0, none) hm (fun _ => rfl) hne

theorem getElem?_of_isFull (hfull : s.isFull = true) {i : Nat} {l : CacheLine}
    (hi : s.lineArry[i]? = some l) : l.isValid = true := by
  rw [isFull, List.all_eq_true] at hfull
  exact hfull l (List.mem_of_getElem? hi)

/-- In a full set every line is a candidate, since none is dirty. -/
theorem selectLineForEviction_of_isFull (tags : TagsOk g s) (hpos : 0 < g.lines)
    (hfull : s.isFull = true) : s.selectLineForEviction
      = match s.findLRU (List.range s.lineArry.length) with
        | some line => .ok (some line)
        | none => .error .noVictim := by
  have hnoFree : s.lineArry.any (fun line => !line.isValid) = false := by
    rw [List.any_eq_false]
    intro l hl
    obtain ⟨i, hi⟩ := List.mem_iff_getElem?.mp hl
    simp [getElem?_of_isFull hfull hi]
  have hclean : ∀ line ∈ List.range s.lineArry.length,
      (!(s.lineArry[line]?.map CacheLine.isDirty).getD false) = true := by
    intro line hline
    have hi := List.getElem?_eq_getElem (List.mem_range.mp hline)
    rw [hi]
    simpa using tags.clean _ (List.mem_of_getElem? hi)
  have hcand : (List.range s.lineArry.length).filter
      (fun line => !(s.lineArry[line]?.map CacheLine.isDirty).getD false)
        = List.range s.lineArry.length := List.filter_eq_self.mpr hclean
  have hne0 : 0 < (List.range s.lineArry.length).length := by
    have := tags.length
    simp; omega
  unfold selectLineForEviction
  rw [hnoFree]
  simp only [Bool.false_eq_true, if_false, hcand, if_pos hne0]
  cases s.findLRU (List.range s.lineArry.length) <;> rfl

/-- Of the first two lines of a full set one is above 0. -/
theorem LruOk.exists_pos (lru : LruOk g s) (htwo : 2 ≤ s.lineArry.length)
    (hfull : s.isFull = true) :
    ∃ (i : Nat) (a : CacheLine), s.lineArry[i]? = some a ∧ a.getLRU ≠ 0 := by
  have h0 := List.getElem?_eq_getElem (show 0 < s.lineArry.length by omega)
  have h1 := List.getElem?_eq_getElem (show 1 < s.lineArry.length by omega)
  by_cases hz : s.lineArry[0].getLRU = 0
  · refine ⟨1, _, h1, fun hz1 => ?_⟩
    have := lru.zeroOnce 0 1 _ _ h0 h1 (getElem?_of_isFull hfull h0) (getElem?_of_isFull hfull h1)
      hz hz1
    omega
  · exact ⟨0, _, h0, hz⟩

/-- A full set of two or more lines has a victim, and it is one of its valid lines. -/
theorem selectLineForEviction_spec (tags : TagsOk g s) (lru : LruOk g s) (htwo : 2 ≤ g.lines)
    (hfull : s.isFull = true) :
    ∃ (i : Nat) (l : CacheLine), s.selectLineForEviction = .ok (some i) ∧ s.lineArry[i]? = some l
      ∧ l.isValid = true := by
  have hlen := tags.length
  obtain ⟨line, a, ha, hne⟩ := lru.exists_pos (by omega) hfull
  have hmem : line ∈ List.range s.lineArry.length :=
    List.mem_range.mpr (List.getElem?_eq_some_iff.mp ha).1
  obtain ⟨i, hi⟩ := Option.isSome_iff_exists.mp
    (findLRU_isSome hmem (by rw [ha]; exact hne))
  have hget := List.getElem?_eq_getElem (List.mem_range.mp (findLRU_mem hi))
  refine ⟨i, _, ?_, hget, getElem?_of_isFull hfull hget⟩
  rw [selectLineForEviction_of_isFull tags (by omega) hfull, hi]

/-- The line that was invalidated, as its slot shows it afterwards. -/
theorem invalidateAt_getElem?_self {i : Nat} {l : CacheLine} (hi : s.lineArry[i]? = some l) :
    ∃ l', (s.invalidateAt i).lineArry[i]? = some l' ∧ l'.getTag = l.getTag
      ∧ l'.getMESI = .invalid ∧ l'.isValid = false := by
  have hsame := sameLines_checkAndFixLRU
    (s.modifyLine i fun l => (l.setValid false).setMESI .invalid)
  have hmod : (s.modifyLine i fun l => (l.setValid false).setMESI .invalid).lineArry[i]?
      = some ((l.setValid false).setMESI .invalid) := SlotStore.getElem?_modify_self hi
  have he := congrArg (·[i]?) hsame
  simp only [List.getElem?_map] at he
  rw [hmod, Option.map_some, ← invalidateAt] at he
  obtain ⟨l', hl', he⟩ := Option.map_eq_some_iff.mp he
  have htag := congrArg CacheLine.getTag he
  have hmesi := congrArg CacheLine.getMESI he
  have hdead := congrArg CacheLine.isValid he
  exact ⟨l', hl', htag, hmesi, hdead⟩

/-- What `evict` returns is the victim's line, invalidated. -/
theorem evict_of_select {i : Nat} {l : CacheLine} (hsel : s.selectLineForEviction = .ok (some i))
    (hi : s.lineArry[i]? = some l) : ∃ l', s.evict = .ok (some l', s.invalidateAt i)
      ∧ (s.invalidateAt i).lineArry[i]? = some l' ∧ l'.getTag = l.getTag
      ∧ l'.getMESI = .invalid ∧ l'.isValid = false := by
  obtain ⟨l', hl', hback⟩ := invalidateAt_getElem?_self hi
  exact ⟨l', by simp [evict, hsel, hl'], hl', hback⟩

/-- A set with room is asked for no victim. -/
theorem selectLineForEviction_of_not_full (hroom : s.isFull = false) :
    s.selectLineForEviction = .ok none := by
  have hfree : s.lineArry.any (fun line => !line.isValid) = true := by
    rw [isFull, ← Bool.not_eq_true, List.all_eq_true] at hroom
    simpa using hroom
  exact if_pos hfree

theorem evict_of_not_full (hroom : s.isFull = false) : s.evict = .ok (none, s) := by
  rw [evict, selectLineForEviction_of_not_full hroom]
  rfl

/-! ## The invariant and what each operation does -/

/-- The invariant of a set. -/
structure Ok (g : SetShape) (s : CacheSet) : Prop where
  tags : TagsOk g s
  lru : LruOk g s

theorem Ok.setMESI_spec (ok : Ok g s) {tag : Nat} {m : MESI} (h : s.stateOf (g.key tag) = some m)
    (value : MESI) :
    ∃ s', s.setMESI tag value = .ok s' ∧ Ok g s' ∧
      ∀ k, s'.stateOf k = if k = g.key tag then some value else s.stateOf k := by
  obtain ⟨i, hset, htags, hst⟩ := CacheSet.setMESI_spec ok.tags h value
  refine ⟨_, hset, ⟨htags, ?_, ?_⟩, hst⟩
  · exact forall_mem_modify ok.lru.width fun _ h => h
  · intro j j' a b hj hj' ha hb hza hzb
    have hmod : ∀ (j : Nat) (b : CacheLine),
        (s.lineArry.modify i (·.setMESI value))[j]? = some b →
        ∃ a, s.lineArry[j]? = some a ∧ b.isValid = a.isValid ∧ b.getLRU = a.getLRU := by
      intro j b hb
      rw [List.getElem?_modify] at hb
      obtain ⟨a, ha, he⟩ := Option.map_eq_some_iff.mp hb
      refine ⟨a, ha, ?_⟩
      split at he <;> rw [← he] <;> exact ⟨rfl, rfl⟩
    obtain ⟨a', hj, hva, hla⟩ := hmod j a hj
    obtain ⟨b', hj', hvb, hlb⟩ := hmod j' b hj'
    exact ok.lru.zeroOnce j j' a' b' hj hj' (hva ▸ ha) (hvb ▸ hb) (hla ▸ hza) (hlb ▸ hzb)

/-- Fewer lines are valid, and no counter has moved. -/
theorem withoutLine_lruOk (lru : LruOk g s) (i : Nat) :
    LruOk g (s.modifyLine i fun l => (l.setValid false).setMESI .invalid) := by
  refine ⟨forall_mem_modify lru.width fun _ h => h, ?_⟩
  have hmod : ∀ (j : Nat) (b : CacheLine),
      (s.lineArry.modify i fun l => (l.setValid false).setMESI .invalid)[j]? = some b →
      b.isValid = true → s.lineArry[j]? = some b := by
    intro j b hb hv
    rw [List.getElem?_modify] at hb
    obtain ⟨a, ha, he⟩ := Option.map_eq_some_iff.mp hb
    split at he
    · rw [← he] at hv; cases hv
    · rw [← he]; exact ha
  intro j j' a b hj hj' ha hb hza hzb
  exact lru.zeroOnce j j' a b (hmod j a hj ha) (hmod j' b hj' hb) ha hb hza hzb

theorem invalidateAt_lruOk (tags : TagsOk g s) (lru : LruOk g s) (i : Nat) :
    LruOk g (s.invalidateAt i) :=
  checkAndFixLRU_lruOk (by rw [← tags.length]; exact List.length_modify _ _ _)
    (withoutLine_lruOk lru i)

theorem Ok.invalidate_spec (ok : Ok g s) {tag : Nat} {m : MESI}
    (h : s.stateOf (g.key tag) = some m) :
    ∃ s', s.invalidate tag = .ok s' ∧ Ok g s' ∧
      ∀ k, s'.stateOf k = if k = g.key tag then none else s.stateOf k := by
  obtain ⟨i, _, _, _, hinv, htags, hst⟩ := CacheSet.invalidate_spec ok.tags h
  exact ⟨_, hinv, ⟨htags, invalidateAt_lruOk ok.tags ok.lru i⟩, hst⟩

theorem Ok.updateLRU_spec (ok : Ok g s) {tag : Nat} {m : MESI}
    (h : s.stateOf (g.key tag) = some m) :
    ∃ s', s.updateLRU tag = .ok s' ∧ Ok g s' ∧ ∀ k, s'.stateOf k = s.stateOf k := by
  obtain ⟨i, l, hg, hi, _⟩ := getLine_spec ok.tags h
  have hlt : i < g.lines := by
    rw [← ok.tags.length]; exact (List.getElem?_eq_some_iff.mp hi).1
  refine ⟨s.updateLRUAt i, by simp [updateLRU, hg], ⟨?_, ?_⟩, (sameLines_updateLRUAt s i).stateOf⟩
  · exact (sameLines_updateLRUAt s i).tagsOk ok.tags
  · exact updateLRUAt_lruOk ok.tags.length ok.lru.width hlt

theorem Ok.insertLine_spec (ok : Ok g s) {tag : Nat} (hroom : s.isFull = false)
    (hnew : s.stateOf (g.key tag) = none) :
    ∃ s', s.insertLine tag = .ok s' ∧ Ok g s' ∧
      ∀ k, s'.stateOf k = if k = g.key tag then some .invalid else s.stateOf k := by
  rw [isFull_eq, Bool.not_eq_false', Option.isSome_iff_exists] at hroom
  obtain ⟨i, hi⟩ := hroom
  obtain ⟨htags, hst⟩ := streamIn_spec ok.tags hi hnew
  have hlt : i < g.lines := by
    rw [← ok.tags.length]; exact (List.findIdx?_eq_some_iff_getElem.mp hi).1
  refine ⟨s.streamIn i tag, by simp [insertLine, hi], ⟨htags, ?_⟩, hst⟩
  refine updateLRUAt_lruOk ?_ ?_ hlt
  · rw [← ok.tags.length]; exact List.length_modify _ _ _
  · exact forall_mem_modify ok.lru.width fun _ h => h

/-- Eviction from a full set removes one contained tag, and hands back its line with the
MESI bits already `INVALID`. -/
theorem Ok.evict_spec (ok : Ok g s) (htwo : 2 ≤ g.lines) (hfull : s.isFull = true) :
    ∃ (l : CacheLine) (s' : CacheSet) (k₀ : Nat) (m : MESI), s.evict = .ok (some l, s') ∧ Ok g s'
      ∧ l.getTag = k₀ ∧ l.getMESI = .invalid ∧ s.stateOf k₀ = some m ∧ s'.isFull = false
      ∧ ∀ k, s'.stateOf k = if k = k₀ then none else s.stateOf k := by
  obtain ⟨i, l, hsel, hi, hv⟩ := selectLineForEviction_spec ok.tags ok.lru htwo hfull
  obtain ⟨htags, hst⟩ := invalidateAt_spec ok.tags hi hv
  obtain ⟨l', hev, hl', htag, hmesi, hdead⟩ := evict_of_select hsel hi
  have hheld : s.stateOf l.getTag = some l.getMESI :=
    (stateOf_eq_some ok.tags).mpr ⟨i, l, hi, hv, rfl, rfl⟩
  refine ⟨l', s.invalidateAt i, l.getTag, l.getMESI, hev,
    ⟨htags, invalidateAt_lruOk ok.tags ok.lru i⟩, htag, hmesi, hheld, ?_, hst⟩
  cases hf : (s.invalidateAt i).isFull with
  | false => rfl
  | true => rw [getElem?_of_isFull hf hl'] at hdead; cases hdead

end CacheSet

end CoherenceSim
