import CoherenceSim.Proof.SetRuns

/-!
# The order of eviction

The victim of an eviction is the first line that carries the greatest LRU value. So the lines of a
set stand in an order, by their values and then by their slots.

A touch numbers lines in the order of their slots, and after a removal only one line of each value
gets a new one. Whether the others keep their order depends on the values that they carry. They
carry all values from 0 up to the greatest, and some of them maybe more than once: `Dense` holds
after every call, and it is what bounds the numbers from below.
-/

namespace CoherenceSim

namespace CacheSet

/-- Eviction takes the line in slot `i` before the one in slot `j`. -/
def GoesBefore (s : CacheSet) (i j : Nat) : Prop :=
  s.lruAt j < s.lruAt i ∨ s.lruAt i = s.lruAt j ∧ i < j

instance (s : CacheSet) (i j : Nat) : Decidable (s.GoesBefore i j) := by
  unfold GoesBefore; infer_instance

/-- A line in use in another slot than `k`. -/
def OtherLine (s : CacheSet) (k i : Nat) (a : CacheLine) : Prop :=
  i ≠ k ∧ s.lineArry[i]? = some a ∧ a.isValid = true

/-- Is the line in this slot in use? -/
def validAt (s : CacheSet) (i : Nat) : Bool := (s.lineArry[i]?.map CacheLine.isValid).getD false

/-- The LRU values with which a touch of slot `k` renumbers the other lines in order: those that
it numbers carry their values in the order of the slots, and a line with the value next to that of
slot `k` is before those with the same value. -/
structure NumbersInOrder (s : CacheSet) (k : Nat) : Prop where
  ascending : ∀ i j a b, s.OtherLine k i a → s.OtherLine k j b → a.getLRU ≤ s.lruAt k →
    b.getLRU ≤ s.lruAt k → i < j → a.getLRU < b.getLRU
  tie : ∀ i j a b, s.OtherLine k i a → s.OtherLine k j b → a.getLRU = s.lruAt k →
    b.getLRU = s.lruAt k + 1 → j < i

/-- The LRU values with which the removal of the line in slot `k` renumbers the others in order. If
a value is given up, the last line of each greater one moves down; a line that was next above two
others of equal value, of which only one moves, has to be before the one that stays. -/
def ClosesInOrder (s : CacheSet) (k : Nat) : Prop :=
  (∀ i a, s.OtherLine k i a → a.getLRU ≠ s.lruAt k) →
    ∀ i j n a b c, s.OtherLine k i a → s.OtherLine k j b → s.OtherLine k n c → j < n →
      s.lruAt k < b.getLRU → b.getLRU = c.getLRU → a.getLRU = b.getLRU + 1 → i < j

/-- No value is left out below the value of a line in use. -/
def Dense (s : CacheSet) : Prop :=
  ∀ (i : Nat) (a : CacheLine), s.lineArry[i]? = some a → a.isValid = true → ∀ v < a.getLRU,
    ∃ (j : Nat) (b : CacheLine), s.lineArry[j]? = some b ∧ b.isValid = true ∧ b.getLRU = v

variable {g : SetShape} {s s' : CacheSet} {i j k v : Nat}

theorem goesBefore_iff {a b : CacheLine} (ha : s.lineArry[i]? = some a)
    (hb : s.lineArry[j]? = some b) :
    s.GoesBefore i j ↔ b.getLRU < a.getLRU ∨ a.getLRU = b.getLRU ∧ i < j := by
  rw [GoesBefore, lruAt_eq ha, lruAt_eq hb]

theorem GoesBefore.asymm (h : s.GoesBefore i j) : ¬ s.GoesBefore j i := by
  rintro (h0 | h0) <;> rcases h with h | h <;> omega

theorem goesBefore_total (hne : i ≠ j) : s.GoesBefore i j ∨ s.GoesBefore j i := by
  unfold GoesBefore
  omega

theorem lruAt_modifyLine {f : CacheLine → CacheLine} (hf : ∀ l, (f l).getLRU = l.getLRU)
    (k i : Nat) : (s.modifyLine k f).lruAt i = s.lruAt i := by
  show ((s.lineArry.modify k f)[i]?.map CacheLine.getLRU).getD 0 = _
  rw [← List.getElem?_map, map_modify_of_comp (p := CacheLine.getLRU) hf, List.getElem?_map, lruAt]

/-- The order is one of LRU values. -/
theorem goesBefore_modifyLine {f : CacheLine → CacheLine} (hf : ∀ l, (f l).getLRU = l.getLRU)
    (k : Nat) : (s.modifyLine k f).GoesBefore i j ↔ s.GoesBefore i j := by
  rw [GoesBefore, lruAt_modifyLine hf, lruAt_modifyLine hf, ← GoesBefore]

theorem validAt_eq {a : CacheLine} (hi : s.lineArry[i]? = some a) : s.validAt i = a.isValid := by
  rw [validAt, hi]
  rfl

/-- Rewriting a line leaves the number of slots and the width of their LRU values. -/
theorem Ok.modifyLine_shape (ok : Ok g s) (i : Nat) {f : CacheLine → CacheLine}
    (hf : ∀ l, (f l).lruMask = l.lruMask) : (s.modifyLine i f).lineArry.length = g.lines
      ∧ ∀ l ∈ (s.modifyLine i f).lineArry, l.lruMask = 2 ^ g.lruLen - 1 :=
  ⟨(List.length_modify _ _ _).trans ok.tags.length,
    forall_mem_modify ok.lru.width fun l h => (hf l).trans h⟩

theorem OtherLine.modifyLine {a : CacheLine} (ha : s.OtherLine k i a) (f : CacheLine → CacheLine) :
    (s.modifyLine k f).OtherLine k i a := ⟨ha.1, modifyLine_getElem?_of_ne ha.1 ha.2.1, ha.2.2⟩

theorem OtherLine.of_modifyLine {f : CacheLine → CacheLine} {a : CacheLine}
    (ha : (s.modifyLine k f).OtherLine k i a) : s.OtherLine k i a :=
  ⟨ha.1, modifyLine_of_ne ha.1 ha.2.1, ha.2.2⟩

/-! ## Deciding the conditions -/

/-- The other slots in use. -/
def others (s : CacheSet) (k : Nat) : List Nat :=
  (List.range s.lineArry.length).filter fun i => i ≠ k ∧ s.validAt i = true

theorem OtherLine.mem_others {a : CacheLine} (ha : s.OtherLine k i a) : i ∈ s.others k := by
  obtain ⟨hne, hget, hv⟩ := ha
  refine List.mem_filter.mpr ⟨List.mem_range.mpr (List.getElem?_eq_some_iff.mp hget).1, ?_⟩
  exact decide_eq_true ⟨hne, (validAt_eq hget).trans hv⟩

theorem exists_otherLine (hi : i ∈ s.others k) :
    ∃ a, s.OtherLine k i a ∧ a.getLRU = s.lruAt i := by
  obtain ⟨hlt, hcond⟩ := List.mem_filter.mp hi
  obtain ⟨hne, hv⟩ := of_decide_eq_true hcond
  have hget := List.getElem?_eq_getElem (List.mem_range.mp hlt)
  rw [validAt_eq hget] at hv
  exact ⟨_, ⟨hne, hget, hv⟩, (lruAt_eq hget).symm⟩

theorem numbersInOrder_iff : s.NumbersInOrder k ↔
    (∀ i ∈ s.others k, ∀ j ∈ s.others k, s.lruAt i ≤ s.lruAt k → s.lruAt j ≤ s.lruAt k → i < j →
      s.lruAt i < s.lruAt j)
    ∧ ∀ i ∈ s.others k, ∀ j ∈ s.others k, s.lruAt i = s.lruAt k → s.lruAt j = s.lruAt k + 1 →
      j < i := by
  constructor
  · intro h
    refine ⟨fun i hi j hj => ?_, fun i hi j hj => ?_⟩
    · obtain ⟨a, ha, hlru⟩ := exists_otherLine hi
      obtain ⟨b, hb, hlru'⟩ := exists_otherLine hj
      rw [← hlru, ← hlru']
      exact h.ascending i j a b ha hb
    · obtain ⟨a, ha, hlru⟩ := exists_otherLine hi
      obtain ⟨b, hb, hlru'⟩ := exists_otherLine hj
      rw [← hlru, ← hlru']
      exact h.tie i j a b ha hb
  · intro ⟨hasc, htie⟩
    refine ⟨fun i j a b ha hb => ?_, fun i j a b ha hb => ?_⟩
    · rw [← lruAt_eq ha.2.1, ← lruAt_eq hb.2.1]
      exact hasc i ha.mem_others j hb.mem_others
    · rw [← lruAt_eq ha.2.1, ← lruAt_eq hb.2.1]
      exact htie i ha.mem_others j hb.mem_others

instance (s : CacheSet) (k : Nat) : Decidable (s.NumbersInOrder k) :=
  decidable_of_iff _ numbersInOrder_iff.symm

theorem closesInOrder_iff : s.ClosesInOrder k ↔
    ((∀ i ∈ s.others k, s.lruAt i ≠ s.lruAt k) →
      ∀ i ∈ s.others k, ∀ j ∈ s.others k, ∀ n ∈ s.others k, j < n → s.lruAt k < s.lruAt j →
        s.lruAt j = s.lruAt n → s.lruAt i = s.lruAt j + 1 → i < j) := by
  constructor
  · intro h hnone i hi j hj n hn
    obtain ⟨a, ha, hlru⟩ := exists_otherLine hi
    obtain ⟨b, hb, hlru'⟩ := exists_otherLine hj
    obtain ⟨c, hc, hlru''⟩ := exists_otherLine hn
    rw [← hlru, ← hlru', ← hlru'']
    refine h (fun i a ha => ?_) i j n a b c ha hb hc
    rw [← lruAt_eq ha.2.1]
    exact hnone i ha.mem_others
  · intro h hnone i j n a b c ha hb hc
    rw [← lruAt_eq ha.2.1, ← lruAt_eq hb.2.1, ← lruAt_eq hc.2.1]
    refine h (fun i hi => ?_) i ha.mem_others j hb.mem_others n hc.mem_others
    obtain ⟨d, hd, hlru⟩ := exists_otherLine hi
    rw [← hlru]
    exact hnone i d hd

instance (s : CacheSet) (k : Nat) : Decidable (s.ClosesInOrder k) :=
  decidable_of_iff _ closesInOrder_iff.symm

/-! ## The victim -/

/-- The search takes one of the greatest values. -/
theorem lruStep_foldl_greatest {v : Nat} (l : List Nat) : ∀ {best : Nat × Option Nat},
    (l.foldl s.lruStep best).2 = some v →
    (best.2 = some v ∧ ∀ c ∈ l, s.lruAt c ≤ best.1)
      ∨ (best.1 < s.lruAt v ∧ ∀ c ∈ l, s.lruAt c ≤ s.lruAt v) := by
  induction l with
  | nil => exact fun hv => Or.inl ⟨hv, fun c hc => by cases hc⟩
  | cons d l ih =>
      intro best hv
      rw [List.foldl_cons] at hv
      by_cases hgt : s.lruAt d > best.1
      · have hstep : s.lruStep best d = (s.lruAt d, some d) := if_pos hgt
        rw [hstep] at hv
        rcases ih hv with ⟨h₁, h₂⟩ | ⟨h₁, h₂⟩
        · cases h₁
          refine Or.inr ⟨hgt, fun c hc => ?_⟩
          rcases List.mem_cons.mp hc with rfl | hc
          · exact Nat.le_refl _
          · exact h₂ c hc
        · refine Or.inr ⟨Nat.lt_trans hgt h₁, fun c hc => ?_⟩
          rcases List.mem_cons.mp hc with rfl | hc
          · exact Nat.le_of_lt h₁
          · exact h₂ c hc
      · have hstep : s.lruStep best d = best := if_neg hgt
        rw [hstep] at hv
        have hle := Nat.le_of_not_lt hgt
        rcases ih hv with ⟨h₁, h₂⟩ | ⟨h₁, h₂⟩
        · refine Or.inl ⟨h₁, fun c hc => ?_⟩
          rcases List.mem_cons.mp hc with rfl | hc
          · exact hle
          · exact h₂ c hc
        · refine Or.inr ⟨h₁, fun c hc => ?_⟩
          rcases List.mem_cons.mp hc with rfl | hc
          · exact Nat.le_trans hle (Nat.le_of_lt h₁)
          · exact h₂ c hc

/-- In a full set the search goes over all lines. -/
theorem Ok.findLRU_of_select (ok : Ok g s) (htwo : 2 ≤ g.lines) (hfull : s.isFull = true)
    (hsel : s.selectLineForEviction = .ok (some v)) :
    s.findLRU (List.range s.lineArry.length) = some v := by
  rw [selectLineForEviction_of_isFull ok.tags (by omega) hfull] at hsel
  cases hfind : s.findLRU (List.range s.lineArry.length) with
  | none => rw [hfind] at hsel; cases hsel
  | some u => rw [hfind] at hsel; cases hsel; rfl

/-- **The victim carries the greatest value.** -/
theorem Ok.greatest (ok : Ok g s) (htwo : 2 ≤ g.lines) (hfull : s.isFull = true) :
    ∃ (v : Nat) (a : CacheLine), s.selectLineForEviction = .ok (some v) ∧ s.lineArry[v]? = some a
      ∧ ∀ (c : Nat) (b : CacheLine), s.lineArry[c]? = some b → b.getLRU ≤ a.getLRU := by
  obtain ⟨v, a, hsel, hv, _⟩ := selectLineForEviction_spec ok.tags ok.lru htwo hfull
  refine ⟨v, a, hsel, hv, fun c b hc => ?_⟩
  have hfind := ok.findLRU_of_select htwo hfull hsel
  rw [findLRU_eq] at hfind
  rcases lruStep_foldl_greatest _ hfind with ⟨h₁, _⟩ | ⟨_, h₂⟩
  · cases h₁
  · rw [← lruAt_eq hv, ← lruAt_eq hc]
    exact h₂ c (List.mem_range.mpr (List.getElem?_eq_some_iff.mp hc).1)

/-- Of equal values the search takes the first. -/
theorem lruStep_foldl_first (l : List Nat) : ∀ {best : Nat × Option Nat}, l.Pairwise (· < ·) →
    (l.foldl s.lruStep best).2 = some v →
    best.2 = some v ∨ best.1 < s.lruAt v ∧ ∀ c ∈ l, c < v → s.lruAt c < s.lruAt v := by
  induction l with
  | nil => exact fun _ hv => Or.inl hv
  | cons d l ih =>
      intro best hsorted hv
      obtain ⟨hd, hsorted⟩ := List.pairwise_cons.mp hsorted
      rw [List.foldl_cons] at hv
      by_cases hgt : s.lruAt d > best.1
      · have hstep : s.lruStep best d = (s.lruAt d, some d) := if_pos hgt
        rw [hstep] at hv
        rcases ih hsorted hv with h₁ | ⟨h₁, h₂⟩
        · -- the candidates that follow come after the victim
          obtain rfl : d = v := Option.some.inj h₁
          refine Or.inr ⟨hgt, fun c hc hlt => ?_⟩
          rcases List.mem_cons.mp hc with rfl | hc
          · exact absurd hlt (Nat.lt_irrefl c)
          · exact absurd (hd c hc) (Nat.lt_asymm hlt)
        · refine Or.inr ⟨Nat.lt_trans hgt h₁, fun c hc hlt => ?_⟩
          rcases List.mem_cons.mp hc with rfl | hc
          · exact h₁
          · exact h₂ c hc hlt
      · have hstep : s.lruStep best d = best := if_neg hgt
        rw [hstep] at hv
        rcases ih hsorted hv with h₁ | ⟨h₁, h₂⟩
        · exact Or.inl h₁
        · refine Or.inr ⟨h₁, fun c hc hlt => ?_⟩
          rcases List.mem_cons.mp hc with rfl | hc
          · exact Nat.lt_of_le_of_lt (Nat.le_of_not_lt hgt) h₁
          · exact h₂ c hc hlt

/-- **The victim of a full set** goes before all other lines. -/
theorem Ok.first (ok : Ok g s) (htwo : 2 ≤ g.lines) (hfull : s.isFull = true)
    (hsel : s.selectLineForEviction = .ok (some v)) :
    ∀ c < s.lineArry.length, c ≠ v → s.GoesBefore v c := by
  obtain ⟨u, a, hu, ha, hgreatest⟩ := ok.greatest htwo hfull
  rw [hsel] at hu; cases hu
  intro c hc hne
  have hget := List.getElem?_eq_getElem hc
  have hle := hgreatest c _ hget
  rw [← lruAt_eq ha, ← lruAt_eq hget] at hle
  have hfind := ok.findLRU_of_select htwo hfull hsel
  rw [findLRU_eq] at hfind
  rcases lruStep_foldl_first _ List.pairwise_lt_range hfind with h₁ | ⟨_, h₂⟩
  · cases h₁
  · have hearlier := h₂ c (List.mem_range.mpr hc)
    unfold GoesBefore
    omega

theorem isFull_of_select (hsel : s.selectLineForEviction = .ok (some v)) : s.isFull = true := by
  cases hfull : s.isFull with
  | true => rfl
  | false =>
      rw [selectLineForEviction_of_not_full hfull] at hsel
      cases hsel

/-! ## Renumbering by a touch -/

variable {line oldLRU : Nat}

theorem numberedBefore_lt_of_lt {a : CacheLine} {l : List CacheLine} : ∀ {i j j' : Nat},
    l[j]? = some a → Numbered line oldLRU (i + j) a → j < j' →
    numberedBefore line oldLRU i l j < numberedBefore line oldLRU i l j' := by
  induction l with
  | nil => intro i j j' ha; cases ha
  | cons c l ih =>
      intro i j j' ha hn hlt
      cases j' with
      | zero => omega
      | succ j' =>
          cases j with
          | zero =>
              cases ha
              have hn : Numbered line oldLRU i a := hn
              rw [numberedBefore, numberedBefore, if_pos hn]
              omega
          | succ j =>
              have hpos : i + (j + 1) = i + 1 + j := by omega
              have := ih (i := i + 1) ha (hpos ▸ hn) (by omega : j < j')
              rw [numberedBefore, numberedBefore]
              omega

/-- If the numbered lines ascend, nobody's number is above its value. -/
theorem numberedBefore_le_getLRU {l : List CacheLine} : ∀ {i low : Nat},
    (∀ j j' a a', l[j]? = some a → l[j']? = some a' → Numbered line oldLRU (i + j) a →
      Numbered line oldLRU (i + j') a' → j < j' → a.getLRU < a'.getLRU) →
    (∀ j a, l[j]? = some a → Numbered line oldLRU (i + j) a → low ≤ a.getLRU) →
    ∀ {j : Nat} {a : CacheLine}, l[j]? = some a → Numbered line oldLRU (i + j) a →
      low + numberedBefore line oldLRU i l j ≤ a.getLRU := by
  induction l with
  | nil => intro i low _ _ j a ha; cases ha
  | cons c l ih =>
      intro i low hasc hlow j a ha hn
      cases j with
      | zero => exact hlow 0 a ha hn
      | succ j =>
          have pos (j : Nat) : i + 1 + j = i + (j + 1) := by omega
          have hasc' : ∀ j j' a a', l[j]? = some a → l[j']? = some a' →
              Numbered line oldLRU (i + 1 + j) a → Numbered line oldLRU (i + 1 + j') a' →
              j < j' → a.getLRU < a'.getLRU := by
            intro j j' a a' ha ha' hn hn' hlt
            exact hasc (j + 1) (j' + 1) a a' ha ha' (pos j ▸ hn) (pos j' ▸ hn') (by omega)
          rw [numberedBefore]
          by_cases hc : Numbered line oldLRU i c
          · -- the rest is above the first
            have hfirst := hlow 0 c rfl hc
            have hrest : ∀ j a, l[j]? = some a → Numbered line oldLRU (i + 1 + j) a →
                low + 1 ≤ a.getLRU := by
              intro j a ha hn
              have := hasc 0 (j + 1) c a rfl ha hc (pos j ▸ hn) (by omega)
              omega
            have := ih hasc' hrest ha ((pos j).symm ▸ hn)
            rw [if_pos hc]
            omega
          · have hrest : ∀ j a, l[j]? = some a → Numbered line oldLRU (i + 1 + j) a →
                low ≤ a.getLRU := fun j a ha hn => hlow (j + 1) a ha (pos j ▸ hn)
            have := ih hasc' hrest ha ((pos j).symm ▸ hn)
            rw [if_neg hc]
            omega

/-- **What a touch makes of another line's value**: its number, if it gets one. -/
theorem OtherLine.touched (hlen : s.lineArry.length = g.lines)
    (hwidth : ∀ l ∈ s.lineArry, l.lruMask = 2 ^ g.lruLen - 1) (hline : line < g.lines) {k : Nat}
    {c c' : CacheLine} (hc : s.OtherLine line k c)
    (hc' : (s.updateLRUAt line).lineArry[k]? = some c') :
    (s.lineArry.modify line (·.setLRU 0))[k]? = some c
      ∧ c'.getLRU = if Numbered line (s.lruAt line) k c then
          1 + numberedBefore line (s.lruAt line) 0 (s.lineArry.modify line (·.setLRU 0)) k
        else c.getLRU := by
  obtain ⟨c₁, hc₁, _, _, _, hval⟩ := updateLRUAt_getElem? hlen hwidth hline hc'
  -- in the other slots nothing has changed before the loop
  have hsame := modifyLine_of_ne (s := s) hc.1 hc₁
  rw [hc.2.1] at hsame; cases hsame
  exact ⟨hc₁, hval hc.1⟩

/-- Does the loop of `updateLRU` number the line at this position of its list? -/
def numberedAt (line oldLRU i : Nat) (l : List CacheLine) (p : Nat) : Bool :=
  (l[p]?).any fun a => decide (Numbered line oldLRU (i + p) a)

/-- The number of a line is the number of positions before it that are numbered. -/
theorem numberedBefore_eq {line oldLRU : Nat} (l : List CacheLine) : ∀ i j : Nat,
    numberedBefore line oldLRU i l j
      = ((List.range j).filter (numberedAt line oldLRU i l)).length := by
  induction l with
  | nil =>
      intro i j
      have hnone : (List.range j).filter (numberedAt line oldLRU i []) = [] :=
        List.filter_eq_nil_iff.mpr fun p _ => by simp [numberedAt]
      rw [hnone, numberedBefore]
      rfl
  | cons a l ih =>
      intro i j
      cases j with
      | zero => rfl
      | succ j =>
          have hrest : numberedAt line oldLRU i (a :: l) ∘ Nat.succ
              = numberedAt line oldLRU (i + 1) l := by
            funext p
            rw [Function.comp_apply, numberedAt, numberedAt, List.getElem?_cons_succ,
              show i + p.succ = i + 1 + p by omega]
          have hfirst : numberedAt line oldLRU i (a :: l) 0 = decide (Numbered line oldLRU i a) := rfl
          rw [numberedBefore, ih, List.range_succ_eq_map, List.filter_cons, List.filter_map, hrest,
            hfirst]
          by_cases hn : Numbered line oldLRU i a
          · rw [if_pos hn, if_pos (decide_eq_true hn), List.length_cons, List.length_map, Nat.add_comm]
          · rw [if_neg hn, if_neg (by simpa using hn), List.length_map, Nat.zero_add]

/-- **A touch that renumbers in order** keeps the order of the lines that it does not touch. -/
theorem NumbersInOrder.updateLRUAt (hnum : s.NumbersInOrder line)
    (hlen : s.lineArry.length = g.lines) (hwidth : ∀ l ∈ s.lineArry, l.lruMask = 2 ^ g.lruLen - 1)
    (hline : line < g.lines) {a b : CacheLine} (ha : s.OtherLine line i a)
    (hb : s.OtherLine line j b) (hlt : s.GoesBefore i j) :
    (s.updateLRUAt line).GoesBefore i j := by
  have other {k : Nat} {c : CacheLine} (hk : k ≠ line)
      (hc : (s.lineArry.modify line (·.setLRU 0))[k]? = some c) : s.lineArry[k]? = some c :=
    modifyLine_of_ne hk hc
  have below {k : Nat} {c : CacheLine}
      (hc : (s.lineArry.modify line (·.setLRU 0))[k]? = some c)
      (hn : Numbered line (s.lruAt line) k c) :
      numberedBefore line (s.lruAt line) 0 (s.lineArry.modify line (·.setLRU 0)) k
        ≤ c.getLRU := by
    have key := @numberedBefore_le_getLRU line (s.lruAt line) (s.lineArry.modify line (·.setLRU 0))
      0 0 ?_ (fun _ _ _ _ => Nat.zero_le _) k c hc (by rwa [Nat.zero_add])
    · rwa [Nat.zero_add] at key
    · intro j j' c c' hc hc' hn hn' hlt
      rw [Nat.zero_add] at hn hn'
      exact hnum.ascending j j' c c' ⟨hn.1, other hn.1 hc, hn.2.1⟩ ⟨hn'.1, other hn'.1 hc', hn'.2.1⟩
        hn.2.2 hn'.2.2 hlt
  obtain ⟨a', ha', -⟩ := (sameLines_updateLRUAt s line).symm.getElem? ha.2.1
  obtain ⟨b', hb', -⟩ := (sameLines_updateLRUAt s line).symm.getElem? hb.2.1
  obtain ⟨ha₁, hva⟩ := ha.touched hlen hwidth hline ha'
  obtain ⟨hb₁, hvb⟩ := hb.touched hlen hwidth hline hb'
  rw [goesBefore_iff ha.2.1 hb.2.1] at hlt
  rw [goesBefore_iff ha' hb', hva, hvb]
  by_cases han : Numbered line (s.lruAt line) i a
  · by_cases hbn : Numbered line (s.lruAt line) j b
    · -- the line that goes before is in a later slot, and gets a greater number
      have hji : j < i := by
        rcases Nat.lt_trichotomy i j with hij | rfl | hji
        · have := hnum.ascending i j a b ha hb han.2.2 hbn.2.2 hij
          omega
        · rw [Option.some.inj (hb.2.1.symm.trans ha.2.1)] at hlt
          omega
        · exact hji
      rw [if_pos han, if_pos hbn]
      exact Or.inl (Nat.add_lt_add_left (numberedBefore_lt_of_lt hb₁ (by rwa [Nat.zero_add]) hji) 1)
    · have hgt : s.lruAt line < b.getLRU :=
        Nat.lt_of_not_le fun h0 => hbn ⟨hb.1, hb.2.2, h0⟩
      have := han.2.2
      omega
  · have hgt : s.lruAt line < a.getLRU :=
      Nat.lt_of_not_le fun h0 => han ⟨ha.1, ha.2.2, h0⟩
    rw [if_neg han]
    split
    · -- the numbers reach at most one above the old value
      have hbn : Numbered line (s.lruAt line) j b := ‹_›
      have hle := below hb₁ hbn
      have hold := hbn.2.2
      have htie := hnum.tie j i b a hb ha
      omega
    · exact hlt

/-- What is asked of the LRU values concerns neither tags nor the filled line. -/
theorem NumbersInOrder.modifyLine {f : CacheLine → CacheLine} (hnum : s.NumbersInOrder line)
    (hf : ∀ l, (f l).getLRU = l.getLRU) : (s.modifyLine line f).NumbersInOrder line := by
  have hold : (s.modifyLine line f).lruAt line = s.lruAt line := lruAt_modifyLine hf line line
  refine ⟨fun i j a b ha hb hla hlb hlt => ?_, fun i j a b ha hb hla hlb => ?_⟩
  · rw [hold] at hla hlb
    exact hnum.ascending i j a b ha.of_modifyLine hb.of_modifyLine hla hlb hlt
  · rw [hold] at hla hlb
    exact hnum.tie i j a b ha.of_modifyLine hb.of_modifyLine hla hlb

/-- The slot that is filled, before it is touched. -/
def filled (s : CacheSet) (line tag : Nat) : CacheSet :=
  s.modifyLine line fun l => ((l.setValid true).setDirty false).setTag tag

theorem lruAt_filled (s : CacheSet) (line tag i : Nat) : (s.filled line tag).lruAt i = s.lruAt i :=
  lruAt_modifyLine (f := fun l => ((l.setValid true).setDirty false).setTag tag) (fun _ => rfl) line i

theorem Ok.filled_shape (ok : Ok g s) (line tag : Nat) :
    (s.filled line tag).lineArry.length = g.lines
      ∧ ∀ l ∈ (s.filled line tag).lineArry, l.lruMask = 2 ^ g.lruLen - 1 :=
  ok.modifyLine_shape line fun _ => rfl

/-- A line in use is not in a free slot. -/
theorem otherLine_of_free (hfree : s.getEmptyLine = some line) {a : CacheLine}
    (ha : s.lineArry[i]? = some a) (hva : a.isValid = true) : s.OtherLine line i a := by
  refine ⟨?_, ha, hva⟩
  rintro rfl
  rw [SlotStore.dead_of_findIdx? hfree ha] at hva
  cases hva

/-- **Filling a free slot** keeps the order of the lines, if the touch of it renumbers in order. -/
theorem NumbersInOrder.streamIn (hnum : s.NumbersInOrder line) (ok : Ok g s)
    (hfree : s.getEmptyLine = some line) (tag : Nat) {a b : CacheLine}
    (ha : s.OtherLine line i a) (hb : s.OtherLine line j b) (hlt : s.GoesBefore i j) :
    (s.streamIn line tag).GoesBefore i j := by
  obtain ⟨hline, _, _⟩ := List.findIdx?_eq_some_iff_getElem.mp hfree
  obtain ⟨hlen, hwidth⟩ := ok.filled_shape line tag
  have hnum' : (s.filled line tag).NumbersInOrder line := hnum.modifyLine fun _ => rfl
  have hlt' : (s.filled line tag).GoesBefore i j := by
    rw [GoesBefore, lruAt_filled, lruAt_filled]
    exact hlt
  exact hnum'.updateLRUAt hlen hwidth (ok.tags.length ▸ hline) (ha.modifyLine _) (hb.modifyLine _)
    hlt'

/-- Every number up to that of a line is given to some line. -/
theorem exists_numberedBefore {l : List CacheLine} : ∀ {i j n : Nat},
    n < numberedBefore line oldLRU i l j → ∃ p a, l[p]? = some a
      ∧ Numbered line oldLRU (i + p) a ∧ numberedBefore line oldLRU i l p = n := by
  induction l with
  | nil => intro i j n hn; rw [numberedBefore] at hn; omega
  | cons c l ih =>
      intro i j n hn
      cases j with
      | zero => rw [numberedBefore] at hn; omega
      | succ j =>
          rw [numberedBefore] at hn
          -- a number of the rest, after those that were given here
          have rest (m : Nat) (hm : m < numberedBefore line oldLRU (i + 1) l j)
              (heq : (if Numbered line oldLRU i c then 1 else 0) + m = n) :
              ∃ p a, (c :: l)[p]? = some a ∧ Numbered line oldLRU (i + p) a
                ∧ numberedBefore line oldLRU i (c :: l) p = n := by
            obtain ⟨p, a, ha, hna, hp⟩ := ih hm
            have hpos : i + 1 + p = i + (p + 1) := by omega
            exact ⟨p + 1, a, ha, hpos ▸ hna, by rw [numberedBefore, hp, heq]⟩
          by_cases hc : Numbered line oldLRU i c
          · rw [if_pos hc] at hn rest
            cases n with
            | zero => exact ⟨0, c, rfl, hc, rfl⟩
            | succ n => exact rest n (by omega) (by omega)
          · rw [if_neg hc] at hn rest
            exact rest n (by omega) (by omega)

/-- If the lines that are numbered carry all values below `n`, there are at least so many. -/
theorem le_numberedBefore {l : List CacheLine} {n : Nat} (hall : ∀ v < n, ∃ (p : Nat) (a : CacheLine),
    l[p]? = some a ∧ Numbered line oldLRU p a ∧ a.getLRU = v) :
    n ≤ numberedBefore line oldLRU 0 l l.length := by
  rw [numberedBefore_eq]
  have hsub : List.range n ⊆ ((List.range l.length).filter (numberedAt line oldLRU 0 l)).map
      fun p => (l[p]?.map CacheLine.getLRU).getD 0 := by
    intro v hv
    obtain ⟨p, a, ha, hna, rfl⟩ := hall v (List.mem_range.mp hv)
    refine List.mem_map.mpr ⟨p, List.mem_filter.mpr ⟨?_, ?_⟩, by rw [ha]; rfl⟩
    · exact List.mem_range.mpr (List.getElem?_eq_some_iff.mp ha).1
    · rw [numberedAt, ha, Nat.zero_add]
      exact decide_eq_true hna
  have hlen := List.nodup_range.length_le_of_subset hsub
  rwa [List.length_range, List.length_map] at hlen

theorem Dense.modifyLine (hd : s.Dense) (k : Nat) {f : CacheLine → CacheLine}
    (hlru : ∀ l, (f l).getLRU = l.getLRU) (hvalid : ∀ l, (f l).isValid = l.isValid) :
    (s.modifyLine k f).Dense := by
  have hvalids : ∀ i, (s.modifyLine k f).validAt i = s.validAt i := fun i => by
    show ((s.lineArry.modify k f)[i]?.map CacheLine.isValid).getD false = _
    rw [← List.getElem?_map, map_modify_of_comp (p := CacheLine.isValid) hvalid,
      List.getElem?_map, validAt]
  intro i a ha hva v hv
  have hlt := (List.getElem?_eq_some_iff.mp ha).1
  have hi : i < s.lineArry.length := (List.length_modify .. ▸ hlt :)
  have hget := List.getElem?_eq_getElem hi
  have hva₀ := (hvalids i).symm.trans ((validAt_eq ha).trans hva)
  rw [validAt_eq hget] at hva₀
  rw [← lruAt_eq ha, lruAt_modifyLine hlru, lruAt_eq hget] at hv
  obtain ⟨j, b, hb, hvb, hbv⟩ := hd i _ hget hva₀ v hv
  have hj : j < (s.modifyLine k f).lineArry.length := by
    rw [show (s.modifyLine k f).lineArry.length = s.lineArry.length from List.length_modify ..]
    exact (List.getElem?_eq_some_iff.mp hb).1
  have hget' := List.getElem?_eq_getElem hj
  refine ⟨j, _, hget', ?_, ?_⟩
  · rw [← validAt_eq hget', hvalids, validAt_eq hb, hvb]
  · rw [← lruAt_eq hget', lruAt_modifyLine hlru, lruAt_eq hb, hbv]

/-- **A touch leaves no value out**, if the other lines leave out none but that of the touched
line. -/
theorem dense_updateLRUAt (hlen : s.lineArry.length = g.lines)
    (hwidth : ∀ l ∈ s.lineArry, l.lruMask = 2 ^ g.lruLen - 1) {a : CacheLine}
    (ha : s.lineArry[line]? = some a) (hva : a.isValid = true)
    (hothers : ∀ i b, s.OtherLine line i b → ∀ v < b.getLRU, v = s.lruAt line
      ∨ ∃ j c, s.OtherLine line j c ∧ c.getLRU = v) : (s.updateLRUAt line).Dense := by
  have hline : line < g.lines := hlen ▸ (List.getElem?_eq_some_iff.mp ha).1
  have hsame := sameLines_updateLRUAt s line
  -- a number is the new value of the line that it is given to
  have given {n : Nat} {j : Nat} (hn : n < numberedBefore line (s.lruAt line) 0
      (s.lineArry.modify line (·.setLRU 0)) j) : ∃ (j : Nat) (b : CacheLine),
      (s.updateLRUAt line).lineArry[j]? = some b ∧ b.isValid = true ∧ b.getLRU = 1 + n := by
    obtain ⟨p, c, hc, hnc, hp⟩ := exists_numberedBefore hn
    rw [Nat.zero_add] at hnc
    have hother : s.OtherLine line p c := ⟨hnc.1, modifyLine_of_ne hnc.1 hc, hnc.2.1⟩
    obtain ⟨c', hc', hvc, _⟩ := hsame.symm.getElem? hother.2.1
    obtain ⟨_, hval⟩ := hother.touched hlen hwidth hline hc'
    rw [if_pos hnc, hp] at hval
    exact ⟨p, c', hc', hvc.trans hother.2.2, hval⟩
  intro j b' hb' hvb' v hv
  cases v with
  | zero =>
      obtain ⟨a', ha', hva', _⟩ := hsame.symm.getElem? ha
      exact ⟨line, a', ha', hva'.trans hva, updateLRUAt_zero hlen hwidth hline ha'⟩
  | succ v =>
      have hne : j ≠ line := by
        rintro rfl
        rw [updateLRUAt_zero hlen hwidth hline hb'] at hv
        omega
      obtain ⟨b, hb, hvb, _⟩ := hsame.getElem? hb'
      have hother : s.OtherLine line j b := ⟨hne, hb, hvb.trans hvb'⟩
      obtain ⟨_, hval⟩ := hother.touched hlen hwidth hline hb'
      by_cases hn : Numbered line (s.lruAt line) j b
      · rw [if_pos hn] at hval
        obtain ⟨p, c, hc, hvc, hcv⟩ := given (n := v) (j := j) (by omega)
        exact ⟨p, c, hc, hvc, by omega⟩
      · rw [if_neg hn] at hval
        have hgt : s.lruAt line < b.getLRU := Nat.lt_of_not_le fun h0 => hn ⟨hne, hother.2.2, h0⟩
        have carried {w : Nat} (hw : w < b.getLRU) (hne : w ≠ s.lruAt line) :
            ∃ i c, s.OtherLine line i c ∧ c.getLRU = w :=
          (hothers j b hother w hw).resolve_left hne
        by_cases hle : v + 1 ≤ s.lruAt line
        · -- the lines below the touched one are numbered, one for each value at least
          have hmany := @le_numberedBefore line (s.lruAt line)
            (s.lineArry.modify line (·.setLRU 0)) (s.lruAt line) fun w hw => by
              obtain ⟨i, c, hc, rfl⟩ := carried (by omega) (Nat.ne_of_lt hw)
              exact ⟨i, c, modifyLine_getElem?_of_ne hc.1 hc.2.1, ⟨hc.1, hc.2.2, by omega⟩, rfl⟩
          obtain ⟨p, c, hc, hvc, hcv⟩ := given (Nat.lt_of_succ_le (Nat.le_trans hle hmany))
          exact ⟨p, c, hc, hvc, by omega⟩
        · -- above the touched line nothing changes
          obtain ⟨i, c, hc, hcv⟩ := carried (w := v + 1) (by omega) (by omega)
          obtain ⟨c', hc', hvc, _⟩ := hsame.symm.getElem? hc.2.1
          obtain ⟨_, hval'⟩ := hc.touched hlen hwidth hline hc'
          rw [if_neg fun h0 => hle (hcv ▸ h0.2.2)] at hval'
          exact ⟨i, c', hc', hvc.trans hc.2.2, hval'.trans hcv⟩

theorem Dense.updateLRUAt (hd : s.Dense) (ok : Ok g s) {a : CacheLine}
    (ha : s.lineArry[line]? = some a) (hva : a.isValid = true) : (s.updateLRUAt line).Dense := by
  refine dense_updateLRUAt ok.tags.length ok.lru.width ha hva fun i b hb v hv => ?_
  obtain ⟨j, c, hc, hvc, hcv⟩ := hd i b hb.2.1 hb.2.2 v hv
  by_cases hj : j = line
  · subst hj
    exact Or.inl (hcv.symm.trans (lruAt_eq hc).symm)
  · exact Or.inr ⟨j, c, ⟨hj, hc, hvc⟩, hcv⟩

theorem Dense.streamIn (hd : s.Dense) (ok : Ok g s) (hfree : s.getEmptyLine = some line)
    (tag : Nat) : (s.streamIn line tag).Dense := by
  obtain ⟨hline, _, _⟩ := List.findIdx?_eq_some_iff_getElem.mp hfree
  obtain ⟨hlen, hwidth⟩ := ok.filled_shape line tag
  refine dense_updateLRUAt (s := s.filled line tag) hlen hwidth
    (SlotStore.getElem?_modify_self (List.getElem?_eq_getElem hline)) rfl fun i b hb v hv => ?_
  obtain ⟨j, c, hc, hvc, hcv⟩ := hd i b hb.of_modifyLine.2.1 hb.2.2 v hv
  exact Or.inr ⟨j, c, (otherLine_of_free hfree hc hvc).modifyLine _, hcv⟩

/-! ## Renumbering after a removal -/

variable {m : OrdMap Nat} {a a' b c : CacheLine}

/-- **What a renumbering makes of a line's value**: its place among the values, if the line is the
last one with it, and else what it was. -/
theorem LruWalk.renumbered (hw : LruWalk s m) (hlen : s.lineArry.length = g.lines)
    (hwidth : ∀ l ∈ s.lineArry, l.lruMask = 2 ^ g.lruLen - 1) (ha : s.lineArry[i]? = some a)
    (hva : a.isValid = true) (ha' : s.checkAndFixLRU.lineArry[i]? = some a') :
    m[a'.getLRU]? = some (a.getLRU, i)
      ∨ a'.getLRU = a.getLRU ∧ ∃ n, i < n ∧ (a.getLRU, n) ∈ m := by
  rw [hw.run] at ha'
  obtain ⟨a₁, ha₁, hcase⟩ := renumberLRU_getElem? hw.nodup ha'
  rw [ha] at ha₁; cases ha₁
  rcases hcase with ⟨hnot, rfl⟩ | ⟨p, hp, rfl⟩
  · -- the entry for its value is that of a later line
    obtain ⟨q, hq, hqk⟩ := List.mem_map.mp (hw.keys a' (List.mem_of_getElem? ha) hva)
    have hle := hw.last q hq i a' ha hva hqk.symm
    have hne : i ≠ q.2 := fun h0 => hnot (List.mem_map.mpr ⟨q, hq, h0.symm⟩)
    exact Or.inr ⟨rfl, q.2, Nat.lt_of_le_of_ne hle hne, hqk ▸ hq⟩
  · refine Or.inl ?_
    rw [renumbered_getLRU hlen hwidth hw.short ha hp]
    rw [List.getElem?_map] at hp
    obtain ⟨q, hq, rfl⟩ := Option.map_eq_some_iff.mp hp
    obtain ⟨d, hd, _, hkd⟩ := hw.ok.entry q (List.mem_of_getElem? hq)
    rw [ha] at hd; cases hd
    rw [hq, hkd]

/-- Every place is the new value of the line that is there. -/
theorem LruWalk.exists_place (hw : LruWalk s m) (hlen : s.lineArry.length = g.lines)
    (hwidth : ∀ l ∈ s.lineArry, l.lruMask = 2 ^ g.lruLen - 1) {p : Nat} (hp : p < m.length) :
    ∃ (n : Nat) (c' : CacheLine), s.checkAndFixLRU.lineArry[n]? = some c' ∧ c'.isValid = true
      ∧ c'.getLRU = p := by
  obtain ⟨q, hq⟩ : ∃ q, m[p]? = some q := ⟨_, List.getElem?_eq_getElem hp⟩
  have hmem := List.mem_of_getElem? hq
  obtain ⟨c, hc, hvc, hkc⟩ := hw.ok.entry q hmem
  obtain ⟨c', hc', hvc', _⟩ := (sameLines_checkAndFixLRU s).symm.getElem? hc
  refine ⟨q.2, c', hc', hvc'.trans hvc, ?_⟩
  rcases hw.renumbered hlen hwidth hc hvc hc' with h0 | ⟨_, n, hn, h0⟩
  · exact hw.ok.sorted.index_eq h0 hq hkc
  · have heq := hw.ok.sorted.eq_of_key h0 hmem hkc
    rw [← heq] at hn
    exact absurd hn (Nat.lt_irrefl n)

/-- The set without a line, before it is renumbered. -/
def withoutLine (s : CacheSet) (k : Nat) : CacheSet :=
  s.modifyLine k fun l => (l.setValid false).setMESI .invalid

theorem OtherLine.withoutLine (ha : s.OtherLine k i a) :
    (s.withoutLine k).lineArry[i]? = some a := (ha.modifyLine _).2.1

theorem otherLine_of_withoutLine (ha : (s.withoutLine k).lineArry[i]? = some a)
    (hva : a.isValid = true) : s.OtherLine k i a := by
  have hne : i ≠ k := by
    rintro rfl
    obtain ⟨b, _, rfl⟩ := modifyLine_self ha
    cases hva
  exact ⟨hne, modifyLine_of_ne hne ha, hva⟩

/-- The values below that of another line are there, but for the one that is given up. -/
theorem Dense.mem_keys (hd : s.Dense) (hw : LruWalk (s.withoutLine k) m)
    (ha : s.OtherLine k i a) (hv : v < a.getLRU) (hne : v ≠ s.lruAt k) : v ∈ m.keys := by
  obtain ⟨j, b, hb, hvb, rfl⟩ := hd i a ha.2.1 ha.2.2 v hv
  have hj : j ≠ k := by
    rintro rfl
    exact hne (lruAt_eq hb).symm
  have hother : s.OtherLine k j b := ⟨hj, hb, hvb⟩
  exact hw.keys b (List.mem_of_getElem? hother.withoutLine) hvb

theorem Ok.withoutLine_shape (ok : Ok g s) (k : Nat) :
    (s.withoutLine k).lineArry.length = g.lines
      ∧ ∀ l ∈ (s.withoutLine k).lineArry, l.lruMask = 2 ^ g.lruLen - 1 :=
  ok.modifyLine_shape k fun _ => rfl

/-- **A removal leaves no value out.** -/
theorem Dense.invalidateAt (hd : s.Dense) (ok : Ok g s) (k : Nat) : (s.invalidateAt k).Dense := by
  obtain ⟨m, hw⟩ := checkAndFixLRU_walk (s.withoutLine k)
  obtain ⟨hlen, hwidth⟩ := ok.withoutLine_shape k
  intro i a' ha' hva' v hv
  obtain ⟨a, ha, hva, _⟩ := (sameLines_checkAndFixLRU (s.withoutLine k)).getElem? ha'
  have hva := hva.trans hva'
  refine hw.exists_place hlen hwidth ?_
  rcases hw.renumbered hlen hwidth ha hva ha' with h0 | ⟨heq, n, _, h0⟩
  · exact Nat.lt_trans hv (List.getElem?_eq_some_iff.mp h0).1
  · -- its value is at most one above its place
    obtain ⟨p, hp⟩ := List.mem_iff_getElem?.mp h0
    have hplace := hw.ok.sorted.key_le_succ (s.lruAt k) a.getLRU hp rfl fun y hy hne =>
      hd.mem_keys hw (otherLine_of_withoutLine ha hva) hy hne
    have hlt := (List.getElem?_eq_some_iff.mp hp).1
    omega

/-- **A removal** keeps the order of the lines that are left, if it renumbers in order. -/
theorem ClosesInOrder.invalidateAt (hclose : s.ClosesInOrder k) (hd : s.Dense) (ok : Ok g s)
    (ha : s.OtherLine k i a) (hb : s.OtherLine k j b) (hlt : s.GoesBefore i j) :
    (s.invalidateAt k).GoesBefore i j := by
  obtain ⟨m, hw⟩ := checkAndFixLRU_walk (s.withoutLine k)
  obtain ⟨hlen, hwidth⟩ := ok.withoutLine_shape k
  have hsame := sameLines_checkAndFixLRU (s.withoutLine k)
  have hsorted := hw.ok.sorted
  obtain ⟨a', ha', -⟩ := hsame.symm.getElem? ha.withoutLine
  obtain ⟨b', hb', -⟩ := hsame.symm.getElem? hb.withoutLine
  rw [goesBefore_iff ha.2.1 hb.2.1] at hlt
  have goal : b'.getLRU < a'.getLRU ∨ a'.getLRU = b'.getLRU ∧ i < j →
      (s.invalidateAt k).GoesBefore i j := (goesBefore_iff ha' hb').mpr
  refine goal ?_
  rcases hw.renumbered hlen hwidth ha.withoutLine ha.2.2 ha' with hpa | ⟨hsa, -⟩
  · rcases hw.renumbered hlen hwidth hb.withoutLine hb.2.2 hb' with hpb | ⟨hsb, n, hn, hmem⟩
    · rcases hlt with hlt | ⟨heq, hij⟩
      · exact Or.inl (hsorted.index_lt hpb hpa hlt)
      · have hsame := hsorted.eq_of_key (List.mem_of_getElem? hpa) (List.mem_of_getElem? hpb) heq
        have hsame : i = j := congrArg Prod.snd hsame
        omega
    · rcases hlt with hlt | ⟨heq, hij⟩
      · have hplace := hsorted.key_le_succ (s.lruAt k) a.getLRU hpa rfl fun y hy hne =>
          hd.mem_keys hw ha hy hne
        by_cases htie : b.getLRU = a'.getLRU
        · -- the line that goes before has come down to the other one
          obtain ⟨c, hc, hvc, hkc⟩ := hw.ok.entry _ hmem
          have hc := otherLine_of_withoutLine hc hvc
          have gap (y : Nat) (hy : y ∈ m.keys ∨ a.getLRU ≤ y) : y ≠ s.lruAt k := by
            rintro rfl
            have hall := hsorted.key_le a.getLRU hpa rfl fun y hy' => by
              by_cases hne : y = s.lruAt k
              · exact hne ▸ hy.resolve_right (by omega)
              · exact hd.mem_keys hw ha hy' hne
            omega
          have hnone : ∀ i a, s.OtherLine k i a → a.getLRU ≠ s.lruAt k := fun i a ha =>
            gap a.getLRU (Or.inl (hw.keys a (List.mem_of_getElem? ha.withoutLine) ha.2.2))
          have hbelow : s.lruAt k < a.getLRU := by
            by_contra hge
            exact gap (s.lruAt k) (Or.inr (Nat.le_of_not_lt hge)) rfl
          have hne := hnone j b hb
          exact Or.inr ⟨by omega, hclose hnone i j n a b c ha hb hc hn (by omega) hkc.symm (by omega)⟩
        · omega
      · have hsame := hsorted.eq_of_key hmem (List.mem_of_getElem? hpa) heq.symm
        have hsame : n = i := congrArg Prod.snd hsame
        omega
  · rcases hw.renumbered hlen hwidth hb.withoutLine hb.2.2 hb' with hpb | ⟨hsb, -⟩
    · have hle := hsorted.index_le hpb
      have hle : b'.getLRU ≤ b.getLRU := hle
      omega
    · omega

end CacheSet

end CoherenceSim
