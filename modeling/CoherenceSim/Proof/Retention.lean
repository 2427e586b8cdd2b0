import CoherenceSim.Proof.CleanFirst
import Mathlib.Data.Fintype.Card

/-!
# Lines that fit stay

A miss evicts a line only from a set that is full. If no more lines are in use than the sets have
room for, then the set of a line that is missing has a free slot, and all lines stay where they
are.
-/

namespace CoherenceSim

namespace Cache

variable {c c' : Cache} {adx k : Nat}

/-- A line that is somewhere is in a slot of its set. -/
theorem Ok.stateAt_ne_none_iff (ok : c.Ok) : c.stateAt k ≠ none ↔
    ∃ (set : CacheSet) (j : Nat) (a : CacheLine), c.setArry[k % 1024]? = some set
      ∧ set.lineArry[j]? = some a ∧ a.isValid = true ∧ a.getTag = k / 1024 := by
  rw [Option.ne_none_iff_exists']
  constructor
  · rintro ⟨m, hm⟩
    obtain ⟨set, hset, hm⟩ := Option.bind_eq_some_iff.mp hm
    have tags := (ok.sets set (List.mem_of_getElem? hset)).tags
    obtain ⟨j, a, ha, hv, htag, _⟩ := (CacheSet.stateOf_eq_some tags).mp hm
    exact ⟨set, j, a, hset, ha, hv, htag⟩
  · rintro ⟨set, j, a, hset, ha, hv, htag⟩
    have tags := (ok.sets set (List.mem_of_getElem? hset)).tags
    exact ⟨a.getMESI, (stateAt_of_setArry hset).trans
      ((CacheSet.stateOf_eq_some tags).mpr ⟨j, a, ha, hv, htag, rfl⟩)⟩

theorem Retains.held (hret : c.Retains c') (ok : c.Ok) (ok' : c'.Ok) (hk : c.stateAt k ≠ none) :
    c'.stateAt k ≠ none := by
  obtain ⟨set, j, a, hset, ha, hv, htag⟩ := ok.stateAt_ne_none_iff.mp hk
  obtain ⟨set', hset', hret⟩ := hret _ set hset
  obtain ⟨b, hb, hvb, htagb⟩ := hret j a ha hv
  exact ok'.stateAt_ne_none_iff.mpr ⟨set', j, b, hset', hb, hvb, htagb.trans htag⟩

/-- **The set of a missing line has room**, if the lines in use fit, this one among them. -/
theorem Ok.hasRoom (ok : c.Ok) {keys : Finset Nat} (hheld : ∀ k, c.stateAt k ≠ none → k ∈ keys)
    (hadx : lineKey adx ∈ keys) (hnew : c.get adx = none)
    (hfits : (keys.filter (· % 1024 = lineKey adx % 1024)).card ≤ 4) :
    c.isFull adx = .ok false := by
  obtain ⟨full, hfull⟩ := ok.isFull adx
  cases full with
  | false => exact hfull
  | true =>
      exfalso
      obtain ⟨set, hset, hok, hget⟩ := ok.setOf_spec adx
      have hf : set.isFull = true := by simpa [Cache.isFull, hset] using hfull
      have hlen : set.lineArry.length = 4 := hok.tags.length
      -- the keys of the four lines of the set
      let keyAt (j : Fin 4) : Nat := 1024 * set.lineArry[j].getTag + lineKey adx % 1024
      have hslot (j : Fin 4) : set.lineArry[j.val]? = some set.lineArry[j] :=
        List.getElem?_eq_getElem (by omega)
      have hvalid (j : Fin 4) : set.lineArry[j].isValid = true :=
        CacheSet.getElem?_of_isFull hf (hslot j)
      have hdistinct : Function.Injective keyAt := by
        intro i j hij
        have htag : set.lineArry[i].getTag = set.lineArry[j].getTag := by
          have hij : 1024 * set.lineArry[i].getTag + lineKey adx % 1024
            = 1024 * set.lineArry[j].getTag + lineKey adx % 1024 := hij
          omega
        exact Fin.ext (hok.tags.ordered.index_eq (hslot i) (hslot j) (hvalid i) (hvalid j) htag)
      have hstate (j : Fin 4) : c.stateAt (keyAt j) ≠ none := by
        have hnum : keyAt j % 1024 = lineKey adx % 1024 := by
          show (1024 * set.lineArry[j].getTag + lineKey adx % 1024) % 1024 = _
          omega
        have htag : set.lineArry[j].getTag = keyAt j / 1024 := by
          show _ = (1024 * set.lineArry[j].getTag + lineKey adx % 1024) / 1024
          omega
        exact ok.stateAt_ne_none_iff.mpr ⟨set, j, _, hnum ▸ hget, hslot j, hvalid j, htag⟩
      -- with the one that is missing they are five
      have hsub : insert (lineKey adx) (Finset.univ.image keyAt)
          ⊆ keys.filter (· % 1024 = lineKey adx % 1024) := by
        intro k hk
        rcases Finset.mem_insert.mp hk with rfl | hk
        · exact Finset.mem_filter.mpr ⟨hadx, rfl⟩
        · obtain ⟨j, _, rfl⟩ := Finset.mem_image.mp hk
          refine Finset.mem_filter.mpr ⟨hheld _ (hstate j), ?_⟩
          show (1024 * set.lineArry[j].getTag + lineKey adx % 1024) % 1024 = _
          omega
      have hother : lineKey adx ∉ Finset.univ.image keyAt := by
        intro hk
        obtain ⟨j, _, hj⟩ := Finset.mem_image.mp hk
        exact hstate j (hj ▸ hnew)
      have hfive := Finset.card_le_card hsub
      rw [Finset.card_insert_of_notMem hother, Finset.card_image_of_injective _ hdistinct,
        Finset.card_univ, Fintype.card_fin] at hfive
      omega

end Cache

namespace Controller

variable {c c' c₀ : Controller} {adx : Nat}

/-- Bringing a line into a set that has room takes none away. -/
theorem retains_of_fill {k₁ k₂ : Cache} (hroom : c.cache.isFull adx = .ok false)
    (hmake : c.makeRoom adx = .ok c₀) (hins : c₀.cache.insertLine adx = .ok k₁)
    (hset : k₁.Retains k₂) (heq : Controller.updateLRU { c₀ with cache := k₂ } adx = .ok c') :
    c.cache.Retains c'.cache := by
  have hsame : c₀.cache = c.cache := by
    rcases (makeRoom_cases hmake).2 with h0 | ⟨_, hfull, _⟩
    · exact h0
    · rw [hroom] at hfull
      cases hfull
  rw [← hsame]
  exact ((Cache.retains_insertLine hins).trans hset).trans (updateLRU_cases heq).2

section Sharing

open SharingController

theorem sharing_load_retains {setAlone : Cache → Nat → Outcome Cache}
    (halone : ∀ {k k' : Cache} {adx : Nat}, setAlone k adx = .ok k' → k.Retains k')
    (hl : c.instructionLine = .ok adx) (hroom : c.cache.isFull adx = .ok false)
    (heq : updateCacheLoadAction setAlone c = .ok c') : c.cache.Retains c'.cache := by
  rw [updateCacheLoadAction, hl, Outcome.ok_bind] at heq
  split at heq
  · cases heq
    exact .refl _
  · obtain ⟨held, _, heq⟩ := Outcome.bind_eq_ok.mp heq
    dsimp only at heq
    split at heq
    · obtain ⟨_, _, heq⟩ := Outcome.bind_eq_ok.mp heq
      obtain ⟨c₀, hmake, heq⟩ := Outcome.bind_eq_ok.mp heq
      obtain ⟨k₁, hins, heq⟩ := Outcome.bind_eq_ok.mp heq
      split at heq
      · obtain ⟨k₂, hset, heq⟩ := Outcome.bind_eq_ok.mp heq
        exact retains_of_fill hroom hmake hins (Cache.retains_setShared hset) heq
      · split at heq
        · obtain ⟨k₂, hset, heq⟩ := Outcome.bind_eq_ok.mp heq
          exact retains_of_fill hroom hmake hins (halone hset) heq
        · obtain ⟨k₂, hset, heq⟩ := Outcome.bind_eq_ok.mp heq
          exact retains_of_fill hroom hmake hins (Cache.retains_setShared hset) heq
    · exact (updateLRU_cases heq).2

theorem sharing_store_retains (hl : c.instructionLine = .ok adx)
    (hroom : c.cache.isFull adx = .ok false) (heq : updateCacheStoreAction c = .ok c') :
    c.cache.Retains c'.cache := by
  rw [updateCacheStoreAction, hl, Outcome.ok_bind] at heq
  split at heq
  · cases heq
    exact .refl _
  · obtain ⟨held, _, heq⟩ := Outcome.bind_eq_ok.mp heq
    dsimp only at heq
    split at heq
    · obtain ⟨c₀, hmake, heq⟩ := Outcome.bind_eq_ok.mp heq
      obtain ⟨k₁, hins, heq⟩ := Outcome.bind_eq_ok.mp heq
      obtain ⟨k₂, hset, heq⟩ := Outcome.bind_eq_ok.mp heq
      obtain ⟨_, _, heq⟩ := Outcome.bind_eq_ok.mp heq
      obtain ⟨_, _, heq⟩ := Outcome.bind_eq_ok.mp heq
      exact retains_of_fill hroom hmake hins (Cache.retains_setModified hset) heq
    · obtain ⟨owned, _, heq⟩ := Outcome.bind_eq_ok.mp heq
      split at heq
      · obtain ⟨k, hset, heq⟩ := Outcome.bind_eq_ok.mp heq
        obtain ⟨_, _, heq⟩ := Outcome.bind_eq_ok.mp heq
        obtain ⟨_, _, heq⟩ := Outcome.bind_eq_ok.mp heq
        exact (Cache.retains_setModified hset).trans (updateLRU_cases heq).2
      · exact (updateLRU_cases heq).2

end Sharing

theorem mi_load_retains (hl : c.instructionLine = .ok adx) (hroom : c.cache.isFull adx = .ok false)
    (heq : MIController.updateCacheLoadAction c = .ok c') : c.cache.Retains c'.cache := by
  rw [MIController.updateCacheLoadAction, hl, Outcome.ok_bind] at heq
  split at heq
  · cases heq
    exact .refl _
  · obtain ⟨held, _, heq⟩ := Outcome.bind_eq_ok.mp heq
    dsimp only at heq
    split at heq
    · obtain ⟨_, _, heq⟩ := Outcome.bind_eq_ok.mp heq
      obtain ⟨c₀, hmake, heq⟩ := Outcome.bind_eq_ok.mp heq
      obtain ⟨k₁, hins, heq⟩ := Outcome.bind_eq_ok.mp heq
      obtain ⟨k₂, hset, heq⟩ := Outcome.bind_eq_ok.mp heq
      exact retains_of_fill hroom hmake hins (Cache.retains_setModified hset) heq
    · exact (updateLRU_cases heq).2

theorem mi_store_retains (hl : c.instructionLine = .ok adx)
    (hroom : c.cache.isFull adx = .ok false)
    (heq : MIController.updateCacheStoreAction c = .ok c') : c.cache.Retains c'.cache := by
  rw [MIController.updateCacheStoreAction, hl, Outcome.ok_bind] at heq
  split at heq
  · cases heq
    exact .refl _
  · obtain ⟨held, _, heq⟩ := Outcome.bind_eq_ok.mp heq
    dsimp only at heq
    split at heq
    · obtain ⟨c₀, hmake, heq⟩ := Outcome.bind_eq_ok.mp heq
      obtain ⟨k₁, hins, heq⟩ := Outcome.bind_eq_ok.mp heq
      obtain ⟨k₂, hset, heq⟩ := Outcome.bind_eq_ok.mp heq
      obtain ⟨_, _, heq⟩ := Outcome.bind_eq_ok.mp heq
      obtain ⟨_, _, heq⟩ := Outcome.bind_eq_ok.mp heq
      exact retains_of_fill hroom hmake hins (Cache.retains_setModified hset) heq
    · obtain ⟨_, _, heq⟩ := Outcome.bind_eq_ok.mp heq
      exact (updateLRU_cases heq).2

/-! ## The end of a miss -/

theorem sharing_miss_retains {assertState : Bool → Bool → Bool → Bool}
    {setAlone : Cache → Nat → Outcome Cache}
    (halone : ∀ {k k' : Cache} {adx : Nat}, setAlone k adx = .ok k' → k.Retains k') (hm : c.Missing)
    (hw : c.awaitingDataLocal = false) (hb : c.awaitingBusRead = false)
    (hl : c.instructionLine = .ok adx) (hroom : c.cache.isFull adx = .ok false)
    (heq : sharingTransition assertState setAlone 2 c = .ok c') : c.cache.Retains c'.cache := by
  rcases hm with hs | hs
  · rw [sharing_step (s := .updateCacheLdState) (by
      simp [SharingController.getNextState, hs, issueReadTransition, hw, hb])] at heq
    have hact : SharingController.updateCacheLoadAction setAlone
      { c with currentState := .updateCacheLdState } = .ok c' := heq
    exact sharing_load_retains halone (c := { c with currentState := .updateCacheLdState }) hl
      hroom hact
  · rw [sharing_step (s := .updateCacheStState) (by
      simp [SharingController.getNextState, hs, issueReadXTransition, hw, hb])] at heq
    exact sharing_store_retains (c := { c with currentState := .updateCacheStState }) hl hroom heq

theorem mi_miss_retains (hm : c.Missing) (hw : c.awaitingDataLocal = false)
    (hb : c.awaitingBusRead = false) (hl : c.instructionLine = .ok adx)
    (hroom : c.cache.isFull adx = .ok false)
    (heq : MIController.transitionState 2 c = .ok c') : c.cache.Retains c'.cache := by
  rcases hm with hs | hs
  · rw [mi_step (s := .updateCacheLdState) (by
      simp [MIController.getNextState, hs, issueReadTransition, hw, hb])] at heq
    exact mi_load_retains (c := { c with currentState := .updateCacheLdState }) hl hroom heq
  · rw [mi_step (s := .updateCacheStState) (by
      simp [MIController.getNextState, hs, issueReadXTransition, hw, hb])] at heq
    exact mi_store_retains (c := { c with currentState := .updateCacheStState }) hl hroom heq

/-- **A miss evicts nothing** if the set of its line has room. -/
theorem Inv.miss_retains (h : c.Inv) (hm : c.Missing) (hw : c.awaitingDataLocal = false)
    (hroom : c.cache.isFull c.awaitingDataLocalAddress = .ok false)
    (heq : c.transitionState = .ok c') : c.cache.Retains c'.cache := by
  obtain ⟨⟨_, hi⟩, _, _, hstage⟩ := h.miss hm
  have hb := (hstage.answered_of hw).1
  unfold Controller.transitionState at heq
  split at heq
  · exact mi_miss_retains hm hw hb hi.instructionLine hroom heq
  · exact sharing_miss_retains Cache.retains_setShared hm hw hb hi.instructionLine hroom heq
  · exact sharing_miss_retains Cache.retains_setExclusive hm hw hb hi.instructionLine hroom heq

end Controller

end CoherenceSim
