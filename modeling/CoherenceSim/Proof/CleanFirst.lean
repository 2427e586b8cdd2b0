import CoherenceSim.Proof.LineOwners
import CoherenceSim.Proof.Recency
import CoherenceSim.Proof.SystemTick

/-!
# Clean lines first

`selectLineForEviction` looks for a victim among the lines whose dirty bit is clear before it
turns to the others. But no controller ever sets that bit, a modified line is known by its MESI
bits alone: the clean lines are all lines, and what is left of the policy is LRU.

Which line an update action evicts is read off its code, whatever the state: all that an action
does to a cache but for `makeRoom` leaves the valid lines in their slots.

So the policy fails where a modified line was used longer ago, by the LRU values, than all lines
that are not modified. It cannot fail over the line that was touched last.
-/

namespace CoherenceSim

namespace CacheSet

variable {g : SetShape} {s s' : CacheSet} {v i : Nat} {op : Op} {line : Option CacheLine}

/-! ## Lines that stay in their slots -/

/-- The calls that take no line away. -/
def Op.Retains : Op → Prop
  | .invalidate _ | .evict => False
  | _ => True

/-- Every valid line is where it was, and still valid. -/
def Retains (s s' : CacheSet) : Prop := ∀ (j : Nat) (a : CacheLine), s.lineArry[j]? = some a →
  a.isValid = true →
    ∃ b, s'.lineArry[j]? = some b ∧ b.isValid = true ∧ b.getTag = a.getTag

theorem SameLines.retains (hs : SameLines s s') : Retains s s' := by
  intro j a ha hv
  obtain ⟨b, hb, hvalid, htag⟩ := hs.symm.getElem? ha
  exact ⟨b, hb, hvalid.trans hv, htag⟩

theorem Retains.trans {s₁ s₂ s₃ : CacheSet} (h : Retains s₁ s₂) (h' : Retains s₂ s₃) :
    Retains s₁ s₃ := by
  intro j a ha hv
  obtain ⟨b, hb, hvb, htb⟩ := h j a ha hv
  obtain ⟨d, hd, hvd, htd⟩ := h' j b hb hvb
  exact ⟨d, hd, hvd, htd.trans htb⟩

/-- Rewriting a slot takes no line away if the slot is free, or keeps its valid bit and tag. -/
theorem retains_modifyLine {f : CacheLine → CacheLine} (hf : ∀ a, s.lineArry[i]? = some a →
    a.isValid = true → (f a).isValid = true ∧ (f a).getTag = a.getTag) :
    Retains s (s.modifyLine i f) := by
  intro j a ha hv
  by_cases hji : j = i
  · subst hji
    obtain ⟨hvalid, htag⟩ := hf a ha hv
    refine ⟨f a, ?_, hvalid, htag⟩
    show (s.lineArry.modify j f)[j]? = _
    rw [List.getElem?_modify, ha]
    simp
  · exact ⟨a, modifyLine_getElem?_of_ne hji ha, hv, rfl⟩

theorem Op.Retains.perform (hop : op.Retains) (heq : s.perform op = .ok (line, s')) :
    CacheSet.Retains s s' := by
  have state {tag : Nat} {value : MESI} {s₁ : CacheSet} (hs : s.setMESI tag value = .ok s₁) :
      CacheSet.Retains s s₁ := by
    obtain ⟨i, _, hs⟩ := Outcome.bind_eq_ok.mp hs
    cases hs
    exact retains_modifyLine fun a _ hv => ⟨hv, rfl⟩
  cases op with
  | insertLine tag =>
      obtain ⟨s₁, hs, heq⟩ := Outcome.bind_eq_ok.mp heq
      cases heq
      unfold CacheSet.insertLine at hs
      split at hs
      · rename_i i hfree
        cases hs
        refine (retains_modifyLine fun a ha hv => ?_).trans (sameLines_updateLRUAt _ i).retains
        -- the slot that is filled was free
        obtain ⟨hlt, hnot, _⟩ := List.findIdx?_eq_some_iff_getElem.mp hfree
        obtain ⟨_, rfl⟩ := List.getElem?_eq_some_iff.mp ha
        rw [hv] at hnot
        cases hnot
      · cases hs
  | updateLRU tag =>
      obtain ⟨s₁, hs, heq⟩ := Outcome.bind_eq_ok.mp heq
      cases heq
      obtain ⟨i, _, hs⟩ := Outcome.bind_eq_ok.mp hs
      cases hs
      exact (sameLines_updateLRUAt s i).retains
  | setExclusive tag | setModified tag | setShared tag =>
      obtain ⟨s₁, hs, heq⟩ := Outcome.bind_eq_ok.mp heq
      cases heq
      exact state hs
  | invalidate tag | evict => exact hop.elim

end CacheSet

namespace Cache

variable {c c' : Cache} {adx : Nat} {set set' : CacheSet}

/-- Every valid line is where it was, in every set. -/
def Retains (c c' : Cache) : Prop := ∀ (k : Nat) (set : CacheSet), c.setArry[k]? = some set →
  ∃ set', c'.setArry[k]? = some set' ∧ set.Retains set'

theorem Retains.refl (c : Cache) : Retains c c :=
  fun _ set hset => ⟨set, hset, CacheSet.SameLines.rfl.retains⟩

theorem Retains.trans {c₁ c₂ c₃ : Cache} (h : Retains c₁ c₂) (h' : Retains c₂ c₃) :
    Retains c₁ c₃ := by
  intro k set hset
  obtain ⟨set₂, hset₂, hret⟩ := h k set hset
  obtain ⟨set₃, hset₃, hret'⟩ := h' k set₂ hset₂
  exact ⟨set₃, hset₃, hret.trans hret'⟩

theorem retains_perform (op : Op) (hop : (op.onSet c).Retains) {line : Option CacheLine}
    (heq : c.perform op = .ok (line, c')) : Retains c c' := by
  obtain ⟨set, set', hset, hset', rfl⟩ := performed heq
  intro k set₀ hk
  have hget := getElem?_of_setOf hset
  rw [getElem?_putSet hget]
  split
  · rename_i hnum
    rw [hnum, hget] at hk
    cases hk
    exact ⟨set', rfl, hop.perform hset'⟩
  · exact ⟨set₀, hk, CacheSet.SameLines.rfl.retains⟩

theorem retains_insertLine (heq : c.insertLine adx = .ok c') : Retains c c' :=
  retains_perform (.insertLine adx) trivial (by rw [perform, heq]; rfl)

theorem retains_setExclusive (heq : c.setExclusive adx = .ok c') : Retains c c' :=
  retains_perform (.setExclusive adx) trivial (by rw [perform, heq]; rfl)

theorem retains_setModified (heq : c.setModified adx = .ok c') : Retains c c' :=
  retains_perform (.setModified adx) trivial (by rw [perform, heq]; rfl)

theorem retains_setShared (heq : c.setShared adx = .ok c') : Retains c c' :=
  retains_perform (.setShared adx) trivial (by rw [perform, heq]; rfl)

theorem retains_updateLRU (heq : c.updateLRU adx = .ok c') : Retains c c' :=
  retains_perform (.updateLRU adx) trivial (by rw [perform, heq]; rfl)

end Cache

namespace Controller

variable {c c' c₀ : Controller} {adx : Nat}

/-! ## The steps of a controller -/

/-- What a step does to the cache. Lines stay in their slots, but for one that an update action
evicts from a full set. -/
inductive CacheStep (c c' : Controller) : Prop
  | retained : c.cache.Retains c'.cache → CacheStep c c'
  | evicted {adx : Nat} {line : CacheLine} {k : Cache} : c.cache.isFull adx = .ok true →
      c.cache.evictLineInSet adx = .ok (some line, k) → k.Retains c'.cache →
      c'.currentState = .updateCacheLdState ∨ c'.currentState = .updateCacheStState →
      CacheStep c c'

theorem CacheStep.of_eq (h : c'.cache = c.cache) : CacheStep c c' :=
  .retained (by rw [h]; exact .refl _)

theorem CacheStep.congr {d : Controller} (h : CacheStep d c') (hd : d.cache = c.cache) :
    CacheStep c c' := by
  cases h with
  | retained h => exact .retained (hd ▸ h)
  | evicted hfull hev hret hstate => exact .evicted (hd ▸ hfull) (hd ▸ hev) hret hstate

theorem makeRoom_cases (heq : c.makeRoom adx = .ok c₀) : c₀.currentState = c.currentState
    ∧ (c₀.cache = c.cache ∨ ∃ line, c.cache.isFull adx = .ok true
      ∧ c.cache.evictLineInSet adx = .ok (some line, c₀.cache)) := by
  obtain ⟨full, hfull, heq⟩ := Outcome.bind_eq_ok.mp heq
  cases full with
  | false => cases heq; exact ⟨rfl, Or.inl rfl⟩
  | true =>
      obtain ⟨⟨line, k⟩, hev, heq⟩ := Outcome.bind_eq_ok.mp heq
      cases line with
      | none => cases heq
      | some line =>
          refine ⟨?_, Or.inr ⟨line, hfull, ?_⟩⟩
          · dsimp only at heq
            split at heq <;> cases heq <;> rfl
          · rw [hev]
            dsimp only at heq
            split at heq <;> cases heq <;> rfl

/-- Bringing a line in: room is made first, and what follows keeps the lines that are left. -/
theorem CacheStep.of_makeRoom (heq : c.makeRoom adx = .ok c₀)
    (hstate : c.currentState = .updateCacheLdState ∨ c.currentState = .updateCacheStState)
    (hc' : c'.currentState = c₀.currentState) (hret : c₀.cache.Retains c'.cache) :
    CacheStep c c' := by
  obtain ⟨hsame, hroom⟩ := makeRoom_cases heq
  rcases hroom with h0 | ⟨line, hfull, hev⟩
  · exact .retained (h0 ▸ hret)
  · exact .evicted hfull hev hret (by rwa [hc', hsame])

theorem updateLRU_cases (heq : c.updateLRU adx = .ok c') :
    c'.currentState = c.currentState ∧ c.cache.Retains c'.cache := by
  obtain ⟨k, hk, heq⟩ := Outcome.bind_eq_ok.mp heq
  cases heq
  exact ⟨rfl, Cache.retains_updateLRU hk⟩

/-- What the update actions do with a line that was missed. -/
theorem CacheStep.of_fill {k₁ k₂ : Cache} (hroom : c.makeRoom adx = .ok c₀)
    (hstate : c.currentState = .updateCacheLdState ∨ c.currentState = .updateCacheStState)
    (hins : c₀.cache.insertLine adx = .ok k₁) (hset : k₁.Retains k₂)
    (heq : Controller.updateLRU { c₀ with cache := k₂ } adx = .ok c') : CacheStep c c' := by
  obtain ⟨hlru, hlru'⟩ := updateLRU_cases heq
  exact .of_makeRoom hroom hstate hlru (((Cache.retains_insertLine hins).trans hset).trans hlru')

section Sharing

open SharingController

theorem sharing_load_cacheStep {setAlone : Cache → Nat → Outcome Cache}
    (halone : ∀ {k k' : Cache} {adx : Nat}, setAlone k adx = .ok k' → k.Retains k')
    (hstate : c.currentState = .updateCacheLdState)
    (heq : updateCacheLoadAction setAlone c = .ok c') : CacheStep c c' := by
  obtain ⟨adx, _, heq⟩ := Outcome.bind_eq_ok.mp heq
  split at heq
  · cases heq
    exact .of_eq rfl
  · obtain ⟨held, _, heq⟩ := Outcome.bind_eq_ok.mp heq
    dsimp only at heq
    split at heq
    · obtain ⟨_, _, heq⟩ := Outcome.bind_eq_ok.mp heq
      obtain ⟨c₀, hroom, heq⟩ := Outcome.bind_eq_ok.mp heq
      obtain ⟨k₁, hins, heq⟩ := Outcome.bind_eq_ok.mp heq
      split at heq
      · obtain ⟨k₂, hset, heq⟩ := Outcome.bind_eq_ok.mp heq
        exact .of_fill hroom (Or.inl hstate) hins (Cache.retains_setShared hset) heq
      · split at heq
        · obtain ⟨k₂, hset, heq⟩ := Outcome.bind_eq_ok.mp heq
          exact .of_fill hroom (Or.inl hstate) hins (halone hset) heq
        · obtain ⟨k₂, hset, heq⟩ := Outcome.bind_eq_ok.mp heq
          exact .of_fill hroom (Or.inl hstate) hins (Cache.retains_setShared hset) heq
    · exact .retained (updateLRU_cases heq).2

theorem sharing_store_cacheStep (hstate : c.currentState = .updateCacheStState)
    (heq : updateCacheStoreAction c = .ok c') : CacheStep c c' := by
  obtain ⟨adx, _, heq⟩ := Outcome.bind_eq_ok.mp heq
  split at heq
  · cases heq
    exact .of_eq rfl
  · obtain ⟨held, _, heq⟩ := Outcome.bind_eq_ok.mp heq
    dsimp only at heq
    split at heq
    · obtain ⟨c₀, hroom, heq⟩ := Outcome.bind_eq_ok.mp heq
      obtain ⟨k₁, hins, heq⟩ := Outcome.bind_eq_ok.mp heq
      obtain ⟨k₂, hset, heq⟩ := Outcome.bind_eq_ok.mp heq
      obtain ⟨_, _, heq⟩ := Outcome.bind_eq_ok.mp heq
      obtain ⟨_, _, heq⟩ := Outcome.bind_eq_ok.mp heq
      exact .of_fill hroom (Or.inr hstate) hins (Cache.retains_setModified hset) heq
    · obtain ⟨owned, _, heq⟩ := Outcome.bind_eq_ok.mp heq
      split at heq
      · obtain ⟨k, hset, heq⟩ := Outcome.bind_eq_ok.mp heq
        obtain ⟨_, _, heq⟩ := Outcome.bind_eq_ok.mp heq
        obtain ⟨_, _, heq⟩ := Outcome.bind_eq_ok.mp heq
        exact .retained ((Cache.retains_setModified hset).trans (updateLRU_cases heq).2)
      · exact .retained (updateLRU_cases heq).2

end Sharing

theorem mi_load_cacheStep (hstate : c.currentState = .updateCacheLdState)
    (heq : MIController.updateCacheLoadAction c = .ok c') : CacheStep c c' := by
  obtain ⟨adx, _, heq⟩ := Outcome.bind_eq_ok.mp heq
  split at heq
  · cases heq
    exact .of_eq rfl
  · obtain ⟨held, _, heq⟩ := Outcome.bind_eq_ok.mp heq
    dsimp only at heq
    split at heq
    · obtain ⟨_, _, heq⟩ := Outcome.bind_eq_ok.mp heq
      obtain ⟨c₀, hroom, heq⟩ := Outcome.bind_eq_ok.mp heq
      obtain ⟨k₁, hins, heq⟩ := Outcome.bind_eq_ok.mp heq
      obtain ⟨k₂, hset, heq⟩ := Outcome.bind_eq_ok.mp heq
      exact .of_fill hroom (Or.inl hstate) hins (Cache.retains_setModified hset) heq
    · exact .retained (updateLRU_cases heq).2

theorem mi_store_cacheStep (hstate : c.currentState = .updateCacheStState)
    (heq : MIController.updateCacheStoreAction c = .ok c') : CacheStep c c' := by
  obtain ⟨adx, _, heq⟩ := Outcome.bind_eq_ok.mp heq
  split at heq
  · cases heq
    exact .of_eq rfl
  · obtain ⟨held, _, heq⟩ := Outcome.bind_eq_ok.mp heq
    dsimp only at heq
    split at heq
    · obtain ⟨c₀, hroom, heq⟩ := Outcome.bind_eq_ok.mp heq
      obtain ⟨k₁, hins, heq⟩ := Outcome.bind_eq_ok.mp heq
      obtain ⟨k₂, hset, heq⟩ := Outcome.bind_eq_ok.mp heq
      obtain ⟨_, _, heq⟩ := Outcome.bind_eq_ok.mp heq
      obtain ⟨_, _, heq⟩ := Outcome.bind_eq_ok.mp heq
      exact .of_fill hroom (Or.inr hstate) hins (Cache.retains_setModified hset) heq
    · obtain ⟨_, _, heq⟩ := Outcome.bind_eq_ok.mp heq
      exact .retained (updateLRU_cases heq).2

/-! ### `transitionState` -/

section Transition

variable {getNextState : Controller → Outcome (ControllerState × Controller)}
  {callActionFunction : (Controller → Outcome Controller) → Controller → Outcome Controller}
  (hnext : ∀ {c d : Controller} {s : ControllerState}, getNextState c = .ok (s, d) →
    d.cache = c.cache)
  (hact : ∀ {f : Controller → Outcome Controller} {c c' : Controller},
    (∀ {d d' : Controller}, f d = .ok d' → CacheStep d d') → callActionFunction f c = .ok c' →
      CacheStep c c')

include hnext hact

/-- What holds of every action holds of a transition, however often it recurses. -/
theorem transitionWith_cacheStep (n : Nat) : ∀ {c c' : Controller},
    transitionWith getNextState callActionFunction n c = .ok c' → CacheStep c c' := by
  induction n with
  | zero => intro c c' heq; cases heq
  | succ n ih =>
      intro c c' heq
      obtain ⟨⟨s, d⟩, hd, heq⟩ := Outcome.bind_eq_ok.mp heq
      have hcache : d.cache = c.cache := hnext hd
      exact (hact ih heq).congr hcache

end Transition

theorem queueReadOnce_cache {code : CommandCode} (heq : c.queueReadOnce code = .ok c') :
    c'.cache = c.cache := by
  unfold queueReadOnce at heq
  split at heq
  · cases heq; rfl
  · obtain ⟨_, _, heq⟩ := Outcome.bind_eq_ok.mp heq
    cases heq; rfl

theorem checkCacheLoadTransition_cache {s : ControllerState}
    (heq : c.checkCacheLoadTransition = .ok (s, c')) : c'.cache = c.cache := by
  obtain ⟨_, _, heq⟩ := Outcome.bind_eq_ok.mp heq
  obtain ⟨_, _, heq⟩ := Outcome.bind_eq_ok.mp heq
  split at heq <;> cases heq <;> rfl

theorem sharing_checkStore_cache {assertState : Bool → Bool → Bool → Bool} {s : ControllerState}
    (heq : SharingController.checkCacheStoreTransition assertState c = .ok (s, c')) :
    c'.cache = c.cache := by
  obtain ⟨_, _, heq⟩ := Outcome.bind_eq_ok.mp heq
  obtain ⟨_, _, heq⟩ := Outcome.bind_eq_ok.mp heq
  split at heq
  · obtain ⟨_, _, heq⟩ := Outcome.bind_eq_ok.mp heq
    obtain ⟨_, _, heq⟩ := Outcome.bind_eq_ok.mp heq
    obtain ⟨_, _, heq⟩ := Outcome.bind_eq_ok.mp heq
    obtain ⟨_, _, heq⟩ := Outcome.bind_eq_ok.mp heq
    obtain ⟨_, _, heq⟩ := Outcome.bind_eq_ok.mp heq
    obtain ⟨_, _, heq⟩ := Outcome.bind_eq_ok.mp heq
    split at heq <;> cases heq <;> rfl
  · cases heq; rfl

theorem mi_checkStore_cache {s : ControllerState}
    (heq : MIController.checkCacheStoreTransition c = .ok (s, c')) : c'.cache = c.cache := by
  obtain ⟨_, _, heq⟩ := Outcome.bind_eq_ok.mp heq
  obtain ⟨_, _, heq⟩ := Outcome.bind_eq_ok.mp heq
  split at heq
  · obtain ⟨_, _, heq⟩ := Outcome.bind_eq_ok.mp heq
    obtain ⟨_, _, heq⟩ := Outcome.bind_eq_ok.mp heq
    obtain ⟨_, _, heq⟩ := Outcome.bind_eq_ok.mp heq
    obtain ⟨_, _, heq⟩ := Outcome.bind_eq_ok.mp heq
    obtain ⟨_, _, heq⟩ := Outcome.bind_eq_ok.mp heq
    obtain ⟨_, _, heq⟩ := Outcome.bind_eq_ok.mp heq
    cases heq; rfl
  · cases heq; rfl

theorem sharing_cacheStep {assertState : Bool → Bool → Bool → Bool}
    {setAlone : Cache → Nat → Outcome Cache}
    (halone : ∀ {k k' : Cache} {adx : Nat}, setAlone k adx = .ok k' → k.Retains k') {n : Nat}
    (heq : sharingTransition assertState setAlone n c = .ok c') : CacheStep c c' := by
  refine transitionWith_cacheStep (fun {c d s} hd => ?_) (fun {f c c'} ih heq => ?_) n heq
  · unfold SharingController.getNextState at hd
    split at hd
    · obtain ⟨_, _, hd⟩ := Outcome.bind_eq_ok.mp hd
      cases hd; rfl
    · exact checkCacheLoadTransition_cache hd
    · cases hd; rfl
    · cases hd; rfl
    · exact sharing_checkStore_cache hd
    all_goals cases hd; rfl
  · unfold SharingController.callActionFunction at heq
    split at heq
    · cases heq; exact .of_eq rfl
    · exact ih heq
    · exact .of_eq (queueReadOnce_cache heq)
    · exact sharing_load_cacheStep halone ‹_› heq
    · exact ih heq
    · exact .of_eq (queueReadOnce_cache heq)
    · obtain ⟨_, _, heq⟩ := Outcome.bind_eq_ok.mp heq
      cases heq; exact .of_eq rfl
    · exact sharing_store_cacheStep ‹_› heq
    · cases heq; exact .of_eq rfl

theorem mi_cacheStep {n : Nat} (heq : MIController.transitionState n c = .ok c') :
    CacheStep c c' := by
  refine transitionWith_cacheStep (fun {c d s} hd => ?_) (fun {f c c'} ih heq => ?_) n heq
  · unfold MIController.getNextState at hd
    split at hd
    · obtain ⟨_, _, hd⟩ := Outcome.bind_eq_ok.mp hd
      cases hd; rfl
    · exact checkCacheLoadTransition_cache hd
    · cases hd; rfl
    · cases hd; rfl
    · exact mi_checkStore_cache hd
    all_goals cases hd; rfl
  · unfold MIController.callActionFunction at heq
    split at heq
    · cases heq; exact .of_eq rfl
    · exact ih heq
    · exact .of_eq (queueReadOnce_cache heq)
    · exact mi_load_cacheStep ‹_› heq
    · exact ih heq
    · exact .of_eq (queueReadOnce_cache heq)
    · exact mi_store_cacheStep ‹_› heq
    · cases heq; exact .of_eq rfl
    · cases heq; exact .of_eq rfl

/-- **Every step of every controller.** -/
theorem transitionState_cacheStep (heq : c.transitionState = .ok c') : CacheStep c c' := by
  unfold Controller.transitionState at heq
  split at heq
  · exact mi_cacheStep heq
  · exact sharing_cacheStep Cache.retains_setShared heq
  · exact sharing_cacheStep Cache.retains_setExclusive heq

/-! ## Evictions -/

/-- In this step of the state machine the valid line in slot `v` of set `k` leaves its slot. -/
structure Evicts (c c' : Controller) (k : Nat) (set : CacheSet) (v : Nat) (l : CacheLine) :
    Prop where
  step : c.transitionState = .ok c'
  held : c.cache.setArry[k]? = some set
  line : set.lineArry[v]? = some l
  valid : l.isValid = true
  gone : ∀ l', c'.cache.lineAt k v = some l' → ¬ (l'.isValid = true ∧ l'.getTag = l.getTag)

variable {k v : Nat} {set : CacheSet} {l : CacheLine}

theorem Evicts.not_retains (hev : c.Evicts c' k set v l) {c₁ : Cache} (hret : c₁.Retains c'.cache)
    {set₁ : CacheSet} (hset : c₁.setArry[k]? = some set₁) {b : CacheLine}
    (hb : set₁.lineArry[v]? = some b) (hv : b.isValid = true) : b.getTag ≠ l.getTag := by
  intro htag
  obtain ⟨set', hset', hret⟩ := hret k set₁ hset
  obtain ⟨b', hb', hv', htag'⟩ := hret v b hb hv
  exact hev.gone b' (by rw [Cache.lineAt, hset']; exact hb') ⟨hv', htag'.trans htag⟩

/-- **What leaves its slot is the victim** that `evictLineInSet` selects in a full set. -/
theorem Evicts.selected (hev : c.Evicts c' k set v l) :
    (c'.currentState = .updateCacheLdState ∨ c'.currentState = .updateCacheStState)
      ∧ set.isFull = true ∧ set.selectLineForEviction = .ok (some v) := by
  cases transitionState_cacheStep hev.step with
  | retained hret => exact absurd rfl (hev.not_retains hret hev.held hev.line hev.valid)
  | @evicted adx line k₁ hfull hevict hret hstate =>
      obtain ⟨set₀, hset₀, hevict⟩ := Outcome.bind_eq_ok.mp hevict
      obtain ⟨⟨line', set₁⟩, hset₁, hevict⟩ := Outcome.bind_eq_ok.mp hevict
      cases hevict
      have hget := Cache.getElem?_of_setOf hset₀
      have hput := Cache.getElem?_putSet hget set₁ k
      by_cases hk : k = c.cache.getAdxSetNum adx
      · rw [if_pos hk] at hput
        rw [← hk, hev.held] at hget
        cases hget
        rw [Cache.isFull, hset₀] at hfull
        refine ⟨hstate, Except.ok.inj hfull, ?_⟩
        obtain ⟨o, ho, hset₁⟩ := Outcome.bind_eq_ok.mp hset₁
        cases o with
        | none => cases hset₁
        | some i =>
            obtain ⟨_, rfl⟩ := Prod.mk.inj (Except.ok.inj hset₁)
            by_contra hne
            have hvi : v ≠ i := fun h0 => hne (h0 ▸ ho)
            -- another slot of the set keeps its line
            have hslot := CacheSet.modifyLine_getElem?_of_ne
              (f := fun l => (l.setValid false).setMESI .invalid) hvi hev.line
            obtain ⟨b, hb, hvb, htb⟩ :=
              (CacheSet.sameLines_checkAndFixLRU _).retains v l hslot hev.valid
            exact hev.not_retains hret hput hb hvb htb
      · rw [if_neg hk, hev.held] at hput
        exact absurd rfl (hev.not_retains hret hput hev.line hev.valid)

end Controller

/-! ## Runs -/

/-- A modified line goes only if there is no other. -/
def PrefersClean (set : CacheSet) (l : CacheLine) : Prop :=
  l.isModified = true → ∀ b ∈ set.lineArry, b.isModified = true

/-- Whatever leaves the cache of a controller, a modified line goes only if there is no other. -/
def CleanFirst (ps : Params) : Prop := ∀ h s, Run ps h s → ∀ a c c' k set v l,
  controllerAt s.interconnect a = some c → c.Evicts c' k set v l → PrefersClean set l

/-- There are lines that are not modified, and a modified one was used longer ago than all of them:
its LRU value is greater, or the same in a lower slot. -/
def ModifiedIsOlder (set : CacheSet) : Prop :=
  (∃ b ∈ set.lineArry, b.isModified = false) ∧ ∃ i a, set.lineArry[i]? = some a
    ∧ a.isModified = true ∧ ∀ j b, set.lineArry[j]? = some b → b.isModified = false →
      set.GoesBefore i j

/-- In a full set the line that was touched last, the only one at 0, is not older than others. -/
theorem CacheSet.Ok.not_modifiedIsOlder {g : SetShape} {set : CacheSet} (ok : set.Ok g)
    (hfull : set.isFull = true)
    (hlatest : ∀ a ∈ set.lineArry, a.isModified = true → a.getLRU = 0) : ¬ ModifiedIsOlder set := by
  rintro ⟨⟨b, hb, hmb⟩, i, a, ha, hma, hbefore⟩
  obtain ⟨j, hj⟩ := List.mem_iff_getElem?.mp hb
  have hza := hlatest a (List.mem_of_getElem? ha) hma
  have hij := (goesBefore_iff ha hj).mp (hbefore j b hj hmb)
  have hsame := ok.lru.zeroOnce i j a b ha hj (getElem?_of_isFull hfull ha)
    (getElem?_of_isFull hfull hj) hza (by omega)
  omega

/-- **When clean lines are evicted first.** What leaves the cache in a step of a controller is
evicted from a full set by an update action, and the policy is kept exactly when no modified line
is older than all lines that are not modified. -/
theorem clean_evicted_first (ps : Params) (h : List TickRecord) (s : System) (hrun : Run ps h s)
    (a : Nat) (c c' : Controller) (k : Nat) (set : CacheSet) (v : Nat) (l : CacheLine)
    (hc : controllerAt s.interconnect a = some c) (hev : c.Evicts c' k set v l) :
    (c'.currentState = .updateCacheLdState ∨ c'.currentState = .updateCacheStState)
      ∧ set.isFull = true ∧ (PrefersClean set l ↔ ¬ ModifiedIsOlder set) := by
  obtain ⟨hstate, hfull, hsel⟩ := hev.selected
  have hset := (hrun.ok.valid.controller hc).inv.cache.sets set (List.mem_of_getElem? hev.held)
  have hfirst := hset.first (by decide) hfull hsel
  have other {j : Nat} {b : CacheLine} (hj : set.lineArry[j]? = some b)
      (hne : b.isModified ≠ l.isModified) : set.GoesBefore v j := by
    refine hfirst j (List.getElem?_eq_some_iff.mp hj).1 ?_
    rintro rfl
    rw [hev.line] at hj; cases hj
    exact hne rfl
  refine ⟨hstate, hfull, fun hprefers => ?_, fun hnot hm => ?_⟩
  · rintro ⟨⟨b, hb, hmb⟩, i, a, ha, hma, hbefore⟩
    cases hml : l.isModified with
    | true =>
        have hall := hprefers hml b hb
        rw [hmb] at hall; cases hall
    | false => exact (other ha (by simp [hma, hml])).asymm (hbefore v l hev.line hml)
  · by_contra hsome
    have hsome : ∃ b ∈ set.lineArry, b.isModified = false := by simpa using hsome
    exact hnot ⟨hsome, v, l, hev.line, hm, fun j b hj hmb => other hj (by simp [hmb, hm])⟩

/-- A store and four loads to one set of four lines, up to the tick in which the last load evicts
a line. The stored line is the oldest by LRU. -/
def storeAndFourLoads : List Event :=
  [.insert .store 0 0, .insert .load 0x8000 0, .insert .load 0x10000 0, .insert .load 0x18000 0,
    .insert .load 0x20000 0] ++ List.replicate 29 .tick

/-- A run up to a step in which the line in slot 0 of set 0 is evicted. -/
theorem exists_evicts (ps : Params) (events : List Event) (p : CacheSet → CacheLine → Bool)
    (hp : ((System.run ps events).toOption.any fun hs =>
      (controllerAt hs.2.interconnect 1).any fun (c : Controller) =>
        c.transitionState.toOption.any fun (c' : Controller) =>
          c.cache.setArry[0]?.any fun (set : CacheSet) =>
            set.lineArry[0]?.any fun (l : CacheLine) => l.isValid && p set l
              && (c'.cache.lineAt 0 0).all fun l' => !(l'.isValid && l'.getTag = l.getTag)) = true) :
    ∃ h s c c' set l, Run ps h s ∧ controllerAt s.interconnect 1 = some c
      ∧ c.Evicts c' 0 set 0 l ∧ p set l = true := by
  obtain ⟨⟨h, s⟩, hrun, hp⟩ := Outcome.any_toOption.mp hp
  obtain ⟨c, hc, hp⟩ := (Option.any_eq_true _ _).mp hp
  obtain ⟨c', hstep, hp⟩ := Outcome.any_toOption.mp hp
  obtain ⟨set, hset, hp⟩ := (Option.any_eq_true _ _).mp hp
  obtain ⟨l, hl, hp⟩ := (Option.any_eq_true _ _).mp hp
  obtain ⟨hp, hgone⟩ := Bool.and_eq_true_iff.mp hp
  obtain ⟨hv, hp⟩ := Bool.and_eq_true_iff.mp hp
  refine ⟨h, s, c, c', set, l, .of_system_run hrun, hc, ⟨hstep, hset, hl, hv, ?_⟩, hp⟩
  intro l' hl' ⟨hv', htag⟩
  rw [hl'] at hgone
  simp [hv', htag] at hgone

theorem not_cleanFirst : ¬ CleanFirst ⟨1, .mesi, 1, 2⟩ := by
  intro hclaim
  obtain ⟨h, s, c, c', set, l, hrun, hc, hev, hp⟩ := exists_evicts ⟨1, .mesi, 1, 2⟩ storeAndFourLoads
    (fun set l => decide (l.isModified = true ∧ ¬ ∀ b ∈ set.lineArry, b.isModified = true))
    (by decide +kernel)
  obtain ⟨hm, hclean⟩ := of_decide_eq_true hp
  exact hclean (hclaim h s hrun 1 c c' 0 set 0 l hc hev hm)

/-- Three loads, a store and a load, all to one set: the modified line is the one touched last. -/
def loadsAndStore : List Event :=
  [.insert .load 0 0, .insert .load 0x8000 0, .insert .load 0x10000 0, .insert .store 0x18000 0,
    .insert .load 0x20000 0] ++ List.replicate 29 .tick

theorem clean_evicted_first_loads_and_store : ∃ h s c c' set l, Run ⟨1, .mesi, 1, 2⟩ h s
    ∧ controllerAt s.interconnect 1 = some c ∧ c.Evicts c' 0 set 0 l
    ∧ (∃ b ∈ set.lineArry, b.isModified = true) ∧ l.isModified = false ∧ PrefersClean set l := by
  obtain ⟨h, s, c, c', set, l, hrun, hc, hev, hp⟩ := exists_evicts ⟨1, .mesi, 1, 2⟩ loadsAndStore
    (fun set l => decide ((∃ b ∈ set.lineArry, b.isModified = true) ∧ l.isModified = false
      ∧ set.isFull = true ∧ ∀ a ∈ set.lineArry, a.isModified = true → a.getLRU = 0))
    (by decide +kernel)
  obtain ⟨hsome, hclean, hfull, hlatest⟩ := of_decide_eq_true hp
  have hset := (hrun.ok.valid.controller hc).inv.cache.sets set (List.mem_of_getElem? hev.held)
  exact ⟨h, s, c, c', set, l, hrun, hc, hev, hsome, hclean,
    (clean_evicted_first _ h s hrun 1 c c' 0 set 0 l hc hev).2.2.mpr
      (hset.not_modifiedIsOlder hfull hlatest)⟩

end CoherenceSim
