import Mathlib.Data.List.Basic

/-!
# Slot stores

A row of slots, each with a key and a live bit. Killing a slot leaves its key in
place, a new key goes to the first dead slot, and a search may look at keys alone.

The search is sound because of an order between slots: *no slot carries the key of a
live slot further down*. Filling the first dead slot keeps it, since every earlier slot
is live and so holds another key. Under that order the slot store is a finite map from
keys to live slots.
-/

namespace CoherenceSim

namespace SlotStore

variable {α κ : Type} [DecidableEq κ] (live : α → Bool) (key : α → κ)

/-- No slot carries the key of a live slot further down. -/
def Ordered (l : List α) : Prop :=
  ∀ (i j : Nat) (a b : α), i < j → l[i]? = some a → l[j]? = some b → live b = true → key a ≠ key b

/-- The live slot with key `k`. -/
def lookup (k : κ) (l : List α) : Option α := l.find? fun a => live a && key a = k

variable {live key}

omit [DecidableEq κ] in
/-- Two live slots with the same key are one slot. -/
theorem Ordered.index_eq {l : List α} (h : Ordered live key l) {i j : Nat} {a b : α}
    (hi : l[i]? = some a) (hj : l[j]? = some b) (ha : live a = true) (hb : live b = true)
    (hk : key a = key b) : i = j := by
  rcases Nat.lt_trichotomy i j with hlt | heq | hlt
  · exact absurd hk (h i j a b hlt hi hj hb)
  · exact heq
  · exact absurd hk.symm (h j i b a hlt hj hi ha)

theorem lookup_some {k : κ} {l : List α} {a : α} (h : lookup live key k l = some a) :
    ∃ i : Nat, l[i]? = some a ∧ live a = true ∧ key a = k := by
  have hp := List.find?_some h
  obtain ⟨i, hi⟩ := List.mem_iff_getElem?.mp (List.mem_of_find?_eq_some h)
  simp only [Bool.and_eq_true, decide_eq_true_eq] at hp
  exact ⟨i, hi, hp⟩

theorem lookup_none {k : κ} {l : List α} :
    lookup live key k l = none ↔ ∀ (i : Nat) (a : α), l[i]? = some a → live a = true → key a ≠ k := by
  simp only [lookup, List.find?_eq_none, Bool.and_eq_true, decide_eq_true_eq, not_and]
  exact ⟨fun h i a hi => h a (List.mem_of_getElem? hi),
    fun h a ha => (List.mem_iff_getElem?.mp ha).elim fun i hi => h i a hi⟩

theorem Ordered.lookup_of_getElem? {l : List α} (h : Ordered live key l) {i : Nat} {a : α}
    (hi : l[i]? = some a) (ha : live a = true) : lookup live key (key a) l = some a := by
  cases hq : lookup live key (key a) l with
  | none => exact absurd rfl (lookup_none.mp hq i a hi ha)
  | some b =>
      obtain ⟨j, hj, hb, hk⟩ := lookup_some hq
      have hij := h.index_eq hi hj ha hb hk.symm
      subst hij
      rw [hi] at hj
      exact hj.symm

theorem Ordered.lookup_iff {l : List α} (h : Ordered live key l) {k : κ} {a : α} :
    lookup live key k l = some a ↔ ∃ i : Nat, l[i]? = some a ∧ live a = true ∧ key a = k := by
  constructor
  · exact lookup_some
  · rintro ⟨i, hi, ha, rfl⟩
    exact h.lookup_of_getElem? hi ha

/-- A search by key alone, from the front, finds the live slot. -/
theorem Ordered.findIdx?_key {l : List α} (h : Ordered live key l) {k : κ} {a : α}
    (hk : lookup live key k l = some a) :
    ∃ i : Nat, l.findIdx? (fun b => key b = k) = some i ∧ l[i]? = some a := by
  obtain ⟨i, hi, ha, hka⟩ := lookup_some hk
  obtain ⟨hlt, hia⟩ := List.getElem?_eq_some_iff.mp hi
  refine ⟨i, List.findIdx?_eq_some_iff_getElem.mpr ⟨hlt, ?_, ?_⟩, hi⟩
  · simp [hia, hka]
  · intro j hj
    have hjl : j < l.length := by omega
    have hne := h j i l[j] a hj (List.getElem?_eq_getElem hjl) hi ha
    simpa [hka] using hne

omit [DecidableEq κ] in
/-- A change that leaves keys and live bits alone does not touch the order. -/
theorem ordered_map {g : α → α} (hlive : ∀ a, live (g a) = live a) (hkey : ∀ a, key (g a) = key a)
    {l : List α} : Ordered live key (l.map g) ↔ Ordered live key l := by
  constructor
  · intro h i j a b hlt hi hj hb
    have := h i j (g a) (g b) hlt (by simp [hi]) (by simp [hj]) (by rw [hlive, hb])
    simpa [hkey] using this
  · intro h i j a b hlt hi hj hb
    rw [List.getElem?_map, Option.map_eq_some_iff] at hi hj
    obtain ⟨a, hi, rfl⟩ := hi
    obtain ⟨b, hj, rfl⟩ := hj
    rw [hkey, hkey]
    exact h i j a b hlt hi hj (by rw [← hlive, hb])

theorem lookup_map {g : α → α} (hlive : ∀ a, live (g a) = live a) (hkey : ∀ a, key (g a) = key a)
    (k : κ) (l : List α) : lookup live key k (l.map g) = (lookup live key k l).map g := by
  unfold lookup
  rw [List.find?_map]
  congr 2
  funext a
  simp [hlive, hkey]

section modify

variable {l : List α} {i : Nat} {a : α} {f : α → α}

theorem getElem?_modify_cases {j : Nat} {b : α} (hi : l[i]? = some a)
    (hj : (l.modify i f)[j]? = some b) : (j = i ∧ b = f a) ∨ (j ≠ i ∧ l[j]? = some b) := by
  rw [List.getElem?_modify] at hj
  by_cases hij : i = j
  · subst hij
    simp only [if_true, hi, Option.map_eq_map, Option.map_some, Option.some.injEq] at hj
    exact Or.inl ⟨rfl, hj.symm⟩
  · simp only [hij, if_false, Option.map_eq_map, Option.map_id'] at hj
    exact Or.inr ⟨fun he => hij he.symm, hj⟩

theorem getElem?_modify_self (hi : l[i]? = some a) : (l.modify i f)[i]? = some (f a) := by
  simp [hi]

omit [DecidableEq κ] in
/-- Changing a slot without moving its key or reviving it keeps the order. -/
theorem Ordered.modify (h : Ordered live key l) (hi : l[i]? = some a) (hkey : key (f a) = key a)
    (hlive : live (f a) = true → live a = true) : Ordered live key (l.modify i f) := by
  intro j j' b b' hlt hj hj' hb'
  rcases getElem?_modify_cases hi hj with ⟨rfl, rfl⟩ | ⟨_, hold⟩
  · rcases getElem?_modify_cases hi hj' with ⟨rfl, rfl⟩ | ⟨_, hold'⟩
    · omega
    · rw [hkey]; exact h _ _ _ _ hlt hi hold' hb'
  · rcases getElem?_modify_cases hi hj' with ⟨rfl, rfl⟩ | ⟨_, hold'⟩
    · rw [hkey]; exact h _ _ _ _ hlt hold hi (hlive hb')
    · exact h _ _ _ _ hlt hold hold' hb'

/-- Changing a live slot in place changes the map at its key. -/
theorem Ordered.lookup_update (h : Ordered live key l) (hi : l[i]? = some a) (ha : live a = true)
    (hkey : key (f a) = key a) (hlive : live (f a) = true) (k : κ) :
    lookup live key k (l.modify i f) = if k = key a then some (f a) else lookup live key k l := by
  have h' := h.modify (f := f) hi hkey (fun _ => ha)
  split
  · rename_i hk
    rw [hk, ← hkey]
    exact h'.lookup_of_getElem? (getElem?_modify_self hi) hlive
  · rename_i hk
    refine Option.ext fun b => ?_
    rw [h'.lookup_iff, h.lookup_iff]
    constructor
    · rintro ⟨j, hj, hb, rfl⟩
      rcases getElem?_modify_cases hi hj with ⟨rfl, rfl⟩ | ⟨_, hj⟩
      · exact absurd hkey hk
      · exact ⟨j, hj, hb, rfl⟩
    · rintro ⟨j, hj, hb, rfl⟩
      have hji : i ≠ j := by rintro rfl; rw [hi] at hj; cases hj; exact hk rfl
      exact ⟨j, by rwa [List.getElem?_modify_ne f l hji], hb, rfl⟩

/-- Killing a live slot removes its key from the map. -/
theorem Ordered.lookup_kill (h : Ordered live key l) (hi : l[i]? = some a) (ha : live a = true)
    (hkey : key (f a) = key a) (hlive : live (f a) = false) (k : κ) :
    lookup live key k (l.modify i f) = if k = key a then none else lookup live key k l := by
  have h' := h.modify (f := f) hi hkey (fun _ => ha)
  refine Option.ext fun b => ?_
  rw [h'.lookup_iff]
  constructor
  · rintro ⟨j, hj, hb, rfl⟩
    rcases getElem?_modify_cases hi hj with ⟨rfl, rfl⟩ | ⟨hji, hj⟩
    · rw [hlive] at hb; cases hb
    · have hne : key b ≠ key a := fun he => hji (h.index_eq hj hi hb ha he)
      rw [if_neg hne]
      exact h.lookup_of_getElem? hj hb
  · intro hb
    split at hb
    · cases hb
    · rename_i hk
      obtain ⟨j, hj, hbl, rfl⟩ := lookup_some hb
      have hji : i ≠ j := by rintro rfl; rw [hi] at hj; cases hj; exact hk rfl
      exact ⟨j, by rwa [List.getElem?_modify_ne f l hji], hbl, rfl⟩

section fill

variable {k₀ : κ} (hfree : l.findIdx? (fun b => !live b) = some i)
  (hnew : lookup live key k₀ l = none) (hkey : key (f a) = k₀)

include hfree in
theorem dead_of_findIdx? (hi : l[i]? = some a) : live a = false := by
  obtain ⟨hlt, hp, _⟩ := List.findIdx?_eq_some_iff_getElem.mp hfree
  rw [List.getElem?_eq_getElem hlt, Option.some.injEq] at hi
  subst hi
  simpa using hp

include hfree in
theorem live_of_lt_findIdx? {j : Nat} {b : α} (hj : l[j]? = some b) (hji : j < i) :
    live b = true := by
  obtain ⟨_, _, hbefore⟩ := List.findIdx?_eq_some_iff_getElem.mp hfree
  have := hbefore j hji
  obtain ⟨hlt, rfl⟩ := List.getElem?_eq_some_iff.mp hj
  simpa using this

include hfree hnew hkey in
/-- Filling the first dead slot with a new key keeps the order. -/
theorem Ordered.fill (h : Ordered live key l) (hi : l[i]? = some a) :
    Ordered live key (l.modify i f) := by
  have hother : ∀ (j : Nat) (b : α), l[j]? = some b → live b = true → key b ≠ k₀ :=
    lookup_none.mp hnew
  intro j j' b b' hlt hj hj' hb'
  rcases getElem?_modify_cases hi hj with ⟨rfl, rfl⟩ | ⟨_, hold⟩
  · rcases getElem?_modify_cases hi hj' with ⟨rfl, rfl⟩ | ⟨_, hold'⟩
    · omega
    · rw [hkey]; exact (hother j' b' hold' hb').symm
  · rcases getElem?_modify_cases hi hj' with ⟨rfl, rfl⟩ | ⟨_, hold'⟩
    · rw [hkey]; exact hother j b hold (live_of_lt_findIdx? hfree hold hlt)
    · exact h _ _ _ _ hlt hold hold' hb'

include hfree hnew hkey in
/-- Filling the first dead slot adds its key to the map. -/
theorem Ordered.lookup_fill (h : Ordered live key l) (hi : l[i]? = some a)
    (hlive : live (f a) = true) (k : κ) :
    lookup live key k (l.modify i f) = if k = k₀ then some (f a) else lookup live key k l := by
  have h' := h.fill hfree hnew hkey hi
  split
  · rename_i hk
    rw [hk, ← hkey]
    exact h'.lookup_of_getElem? (getElem?_modify_self hi) hlive
  · rename_i hk
    refine Option.ext fun b => ?_
    rw [h'.lookup_iff, h.lookup_iff]
    constructor
    · rintro ⟨j, hj, hb, rfl⟩
      rcases getElem?_modify_cases hi hj with ⟨rfl, rfl⟩ | ⟨_, hj⟩
      · exact absurd hkey hk
      · exact ⟨j, hj, hb, rfl⟩
    · rintro ⟨j, hj, hb, rfl⟩
      have hji : i ≠ j := by
        rintro rfl
        rw [hi] at hj; cases hj
        rw [dead_of_findIdx? hfree hi] at hb; cases hb
      exact ⟨j, by rwa [List.getElem?_modify_ne f l hji], hb, rfl⟩

end fill

end modify

end SlotStore

end CoherenceSim
