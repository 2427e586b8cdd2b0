import Mathlib.Data.List.Basic

/-!
# Ordered maps as sorted association lists

`std::map<unsigned, T>` seen from outside: a finite map that is walked in
ascending key order. The walk order is observable, so the model keeps the list
and not just the function it denotes.
-/

namespace CoherenceSim

/-- A map from natural keys, kept as the list of its entries in key order. -/
abbrev OrdMap (β : Type) := List (Nat × β)

namespace OrdMap

variable {β : Type}

/-- The value stored under `k`. -/
def find? (k : Nat) : OrdMap β → Option β
  | [] => none
  | (k', v) :: m => if k' = k then some v else find? k m

/-- `m[k] = v`: overwrite the entry of `k`, or insert one in key order. -/
def assign (k : Nat) (v : β) : OrdMap β → OrdMap β
  | [] => [(k, v)]
  | (k', v') :: m =>
      if k < k' then (k, v) :: (k', v') :: m
      else if k = k' then (k, v) :: m
      else (k', v') :: assign k v m

/-- The keys, in order. -/
def keys (m : OrdMap β) : List Nat := m.map Prod.fst

/-- The keys ascend strictly. -/
def Sorted (m : OrdMap β) : Prop := m.Pairwise fun p q => p.1 < q.1

theorem find?_assign (k : Nat) (v : β) (m : OrdMap β) (k' : Nat) :
    find? k' (assign k v m) = if k' = k then some v else find? k' m := by
  induction m with
  | nil => simp [assign, find?, eq_comm]
  | cons p m ih =>
      obtain ⟨k₀, v₀⟩ := p
      unfold assign
      split
      · simp [find?, eq_comm]
      · split
        · rename_i hk
          subst hk
          by_cases hk' : k = k' <;> simp [find?, hk', eq_comm]
        · rename_i hne
          by_cases hk' : k₀ = k'
          · subst hk'
            simp [find?, Ne.symm hne]
          · simp [find?, hk', ih]

theorem find?_isSome {k : Nat} {m : OrdMap β} : (find? k m).isSome ↔ k ∈ m.keys := by
  induction m with
  | nil => simp [find?, keys]
  | cons p m ih =>
      obtain ⟨k₀, v₀⟩ := p
      unfold find?
      by_cases hk : k₀ = k
      · simp [hk, keys]
      · rw [if_neg hk, ih]
        simp [keys, Ne.symm hk]

theorem mem_of_find? {k : Nat} {v : β} {m : OrdMap β} (h : find? k m = some v) : (k, v) ∈ m := by
  induction m with
  | nil => simp [find?] at h
  | cons p m ih =>
      obtain ⟨k₀, v₀⟩ := p
      unfold find? at h
      split at h
      · rename_i hk
        cases h; subst hk
        exact List.mem_cons_self
      · exact List.mem_cons_of_mem _ (ih h)

theorem mem_assign {k : Nat} {v : β} {m : OrdMap β} {p : Nat × β} (h : p ∈ assign k v m) :
    p = (k, v) ∨ p ∈ m := by
  induction m with
  | nil => simpa [assign] using h
  | cons q m ih =>
      obtain ⟨k₀, v₀⟩ := q
      unfold assign at h
      split at h
      · simpa using h
      · split at h
        · rcases List.mem_cons.mp h with h | h
          · exact Or.inl h
          · exact Or.inr (List.mem_cons_of_mem _ h)
        · rcases List.mem_cons.mp h with h | h
          · exact Or.inr (h ▸ List.mem_cons_self)
          · exact (ih h).imp id (List.mem_cons_of_mem _)

theorem sorted_assign {k : Nat} {v : β} {m : OrdMap β} (h : Sorted m) :
    Sorted (assign k v m) := by
  induction m with
  | nil => simp [assign, Sorted]
  | cons q m ih =>
      obtain ⟨k₀, v₀⟩ := q
      obtain ⟨hq, hm⟩ := List.pairwise_cons.mp h
      unfold assign
      split
      · rename_i hlt
        refine List.pairwise_cons.mpr ⟨?_, h⟩
        intro p hp
        rcases List.mem_cons.mp hp with rfl | hp
        · exact hlt
        · exact Nat.lt_trans hlt (hq p hp)
      · split
        · rename_i heq
          subst heq
          exact List.pairwise_cons.mpr ⟨hq, hm⟩
        · refine List.pairwise_cons.mpr ⟨?_, ih hm⟩
          intro p hp
          rcases mem_assign hp with rfl | hp
          · show k₀ < k; omega
          · exact hq p hp

/-- Overwriting an entry leaves the list of keys alone. -/
theorem keys_assign {k : Nat} {v : β} {m : OrdMap β} (h : Sorted m) (hk : k ∈ m.keys) :
    (assign k v m).keys = m.keys := by
  induction m with
  | nil => simp [keys] at hk
  | cons q m ih =>
      obtain ⟨k₀, v₀⟩ := q
      obtain ⟨hq, hs⟩ := List.pairwise_cons.mp h
      simp only [keys, List.map_cons, List.mem_cons, List.mem_map] at hk
      have hle : k₀ ≤ k := by
        rcases hk with rfl | ⟨p, hp, rfl⟩
        · exact Nat.le_refl _
        · exact Nat.le_of_lt (hq p hp)
      unfold assign
      rw [if_neg (by omega)]
      split
      · rename_i heq; simp [keys, heq]
      · rename_i hne
        have hmem : k ∈ keys m := by
          rcases hk with rfl | ⟨p, hp, rfl⟩
          · exact absurd rfl hne
          · exact List.mem_map.mpr ⟨p, hp, rfl⟩
        have := ih hs hmem
        simp only [keys] at this
        simp [keys, this]

/-- Storing what is there already changes nothing. -/
theorem assign_find? {k : Nat} {v : β} {m : OrdMap β} (h : Sorted m) (hk : find? k m = some v) :
    assign k v m = m := by
  induction m with
  | nil => simp [find?] at hk
  | cons q m ih =>
      obtain ⟨k₀, v₀⟩ := q
      obtain ⟨hq, hs⟩ := List.pairwise_cons.mp h
      unfold find? at hk
      unfold assign
      split at hk
      · rename_i heq
        cases hk
        rw [if_neg (by omega), if_pos heq.symm, heq]
      · rename_i hne
        have hlt : k₀ < k := hq _ (mem_of_find? hk)
        rw [if_neg (by omega), if_neg (by omega), ih hs hk]

theorem assign_comm_of_lt {k k' : Nat} (hlt : k < k') (v v' : β) (m : OrdMap β) :
    assign k v (assign k' v' m) = assign k' v' (assign k v m) := by
  have hne : k' ≠ k := Nat.ne_of_gt hlt
  induction m with
  | nil => simp [assign, hlt, hne, Nat.lt_asymm hlt]
  | cons p m ih =>
      obtain ⟨k₀, v₀⟩ := p
      rcases Nat.lt_trichotomy k k₀ with h₀ | h₀ | h₀
      · -- `k` comes first, wherever `k'` goes
        rcases Nat.lt_trichotomy k' k₀ with h₁ | h₁ | h₁ <;>
          simp [assign, h₀, h₁, hlt, hne, Nat.lt_asymm, Nat.ne_of_gt]
      · subst h₀
        simp [assign, hne, Nat.lt_asymm hlt]
      · have h₁ : k₀ < k' := Nat.lt_trans h₀ hlt
        simp [assign, Nat.lt_asymm h₀, Nat.ne_of_gt h₀, Nat.lt_asymm h₁, Nat.ne_of_gt h₁, ih]

/-- Two keys may be stored in any order. -/
theorem assign_comm {k k' : Nat} (hne : k ≠ k') (v v' : β) (m : OrdMap β) :
    assign k v (assign k' v' m) = assign k' v' (assign k v m) := by
  rcases Nat.lt_or_gt_of_ne hne with hlt | hlt
  · exact assign_comm_of_lt hlt v v' m
  · exact (assign_comm_of_lt hlt v' v m).symm

theorem keys_nodup {m : OrdMap β} (h : Sorted m) : m.keys.Nodup := by
  unfold keys
  rw [List.nodup_iff_pairwise_ne, List.pairwise_map]
  exact h.imp fun hlt => Nat.ne_of_lt hlt

/-! ## Places -/

section

variable {m : OrdMap β} {p q : Nat × β} {i j : Nat}

theorem Sorted.index_lt (h : Sorted m) (hp : m[i]? = some p) (hq : m[j]? = some q)
    (hlt : p.1 < q.1) : i < j := by
  obtain ⟨hi, rfl⟩ := List.getElem?_eq_some_iff.mp hp
  obtain ⟨hj, rfl⟩ := List.getElem?_eq_some_iff.mp hq
  by_contra hge
  rcases Nat.lt_or_eq_of_le (Nat.le_of_not_lt hge) with h0 | rfl
  · exact Nat.lt_asymm hlt (List.pairwise_iff_getElem.mp h j i hj hi h0)
  · exact Nat.lt_irrefl _ hlt

theorem Sorted.index_eq (h : Sorted m) (hp : m[i]? = some p) (hq : m[j]? = some q)
    (heq : p.1 = q.1) : i = j := by
  obtain ⟨hi, rfl⟩ := List.getElem?_eq_some_iff.mp hp
  obtain ⟨hj, rfl⟩ := List.getElem?_eq_some_iff.mp hq
  rcases Nat.lt_trichotomy i j with h0 | h0 | h0
  · exact absurd heq (Nat.ne_of_lt (List.pairwise_iff_getElem.mp h i j hi hj h0))
  · exact h0
  · exact absurd heq.symm (Nat.ne_of_lt (List.pairwise_iff_getElem.mp h j i hj hi h0))

theorem Sorted.eq_of_key (h : Sorted m) (hp : p ∈ m) (hq : q ∈ m) (heq : p.1 = q.1) : p = q := by
  obtain ⟨i, hi⟩ := List.mem_iff_getElem?.mp hp
  obtain ⟨j, hj⟩ := List.mem_iff_getElem?.mp hq
  rw [h.index_eq hi hj heq, hj] at hi
  exact (Option.some.inj hi).symm

/-- Only the entry of the key that was assigned is a new one. -/
theorem Sorted.mem_assign (h : Sorted m) {k : Nat} {v : β} (hp : p ∈ assign k v m) :
    p = (k, v) ∨ p ∈ m ∧ p.1 ≠ k := by
  by_cases hk : p.1 = k
  · have hnew : (k, v) ∈ assign k v m := mem_of_find? (by rw [find?_assign, if_pos rfl])
    exact Or.inl ((sorted_assign h).eq_of_key hp hnew hk)
  · refine (OrdMap.mem_assign hp).imp id fun h0 => ⟨h0, hk⟩

/-- An entry has as many entries before it as its key allows, at most. -/
theorem Sorted.index_le (h : Sorted m) : ∀ {i : Nat} {p : Nat × β}, m[i]? = some p → i ≤ p.1 := by
  intro i
  induction i with
  | zero => exact fun _ => Nat.zero_le _
  | succ i ih =>
      intro p hp
      obtain ⟨hi, rfl⟩ := List.getElem?_eq_some_iff.mp hp
      have hle := ih (List.getElem?_eq_getElem (Nat.lt_of_succ_lt hi))
      have hlt := List.pairwise_iff_getElem.mp h i (i + 1) (Nat.lt_of_succ_lt hi) hi (Nat.lt_succ_self i)
      exact Nat.lt_of_le_of_lt hle hlt

/-- An entry of this key, and its place. -/
theorem exists_index {k : Nat} (hk : k ∈ m.keys) : ∃ (i : Nat) (p : Nat × β), m[i]? = some p ∧ p.1 = k := by
  obtain ⟨p, hp, hkey⟩ := List.mem_map.mp hk
  obtain ⟨i, hi⟩ := List.mem_iff_getElem?.mp hp
  exact ⟨i, p, hi, hkey⟩

/-- **Without gaps**, an entry is at the place of its key. -/
theorem Sorted.key_le (h : Sorted m) : ∀ (k : Nat) {i : Nat} {p : Nat × β}, m[i]? = some p →
    p.1 = k → (∀ y < k, y ∈ m.keys) → k ≤ i := by
  intro k
  induction k with
  | zero => exact fun _ _ _ => Nat.zero_le _
  | succ k ih =>
      intro i p hp hkey hall
      obtain ⟨j, q, hq, hqk⟩ := exists_index (hall k (Nat.lt_succ_self k))
      have hle := ih hq hqk fun y hy => hall y (Nat.lt_succ_of_lt hy)
      exact Nat.lt_of_le_of_lt hle (h.index_lt hq hp (by omega))

/-- With one gap, it is at most one place before that. -/
theorem Sorted.key_le_succ (h : Sorted m) (v : Nat) : ∀ (k : Nat) {i : Nat} {p : Nat × β},
    m[i]? = some p → p.1 = k → (∀ y < k, y ≠ v → y ∈ m.keys) → k ≤ i + 1 := by
  intro k
  induction k with
  | zero => exact fun _ _ _ => Nat.zero_le _
  | succ k ih =>
      intro i p hp hkey hall
      by_cases hkv : k = v
      · -- below the gap everything is at its place
        cases k with
        | zero => omega
        | succ k =>
            obtain ⟨j, q, hq, hqk⟩ := exists_index (hall k (by omega) (by omega))
            have hle := h.key_le k hq hqk fun y hy => hall y (by omega) (by omega)
            have hlt := h.index_lt hq hp (by omega)
            omega
      · obtain ⟨j, q, hq, hqk⟩ := exists_index (hall k (Nat.lt_succ_self k) hkv)
        have hle := ih hq hqk fun y hy => hall y (Nat.lt_succ_of_lt hy)
        have hlt := h.index_lt hq hp (by omega)
        omega

end

/-! ## Mapping the values -/

variable {γ : Type}

def mapValues (f : β → γ) (m : OrdMap β) : OrdMap γ := m.map fun p => (p.1, f p.2)

@[simp] theorem keys_mapValues (f : β → γ) (m : OrdMap β) : (m.mapValues f).keys = m.keys := by
  simp [keys, mapValues, Function.comp_def]

theorem find?_mapValues (f : β → γ) (k : Nat) (m : OrdMap β) :
    find? k (m.mapValues f) = (find? k m).map f := by
  induction m with
  | nil => rfl
  | cons p m ih =>
      simp only [mapValues, List.map_cons, find?] at ih ⊢
      split
      · rfl
      · exact ih

theorem assign_mapValues (f : β → γ) (k : Nat) (v : β) (m : OrdMap β) :
    assign k (f v) (m.mapValues f) = (assign k v m).mapValues f := by
  induction m with
  | nil => rfl
  | cons p m ih =>
      simp only [mapValues, List.map_cons, assign] at ih ⊢
      split
      · rfl
      · split
        · rfl
        · rw [ih]; rfl

end OrdMap

end CoherenceSim
