import CoherenceSim.Proof.EvictionOrder

/-!
# Recency of use

Eviction is least-recently-used as long as the order of eviction is the order of use. A call
that uses a line gives it the value 0, and this value only it has: so it comes last. What goes wrong
is the renumbering of the others: `updateLRU` numbers them in the order of their slots, and up to a
value that another line may carry, since a free slot keeps the value of the line that was in it.

Two lines may well have the same value, as when a set is filled for the first time: then the
one in the lower slot goes first, and it may be the one that was used first.
-/

namespace CoherenceSim

namespace CacheSet

/-- The number of calls up to the latest use of a line. -/
def usedAt (tag : Nat) : List CallRecord → Nat
  | [] => 0
  | x :: older => if x.op.Uses tag then older.length + 1 else usedAt tag older

/-- The lines that may be evicted: the clean ones, or all if there is none. -/
def Candidate (s : CacheSet) (a : CacheLine) : Prop :=
  a ∈ s.lineArry ∧ (a.isDirty = false ∨ ∀ b ∈ s.lineArry, b.isDirty = true)

/-- If the set is full, `evict` returns the candidate whose latest use is furthest in the past. -/
def LeastRecent (h : List CallRecord) (s : CacheSet) : Prop :=
  ∀ l s', s.isFull = true → s.evict = .ok (some l, s') → ∃ a, s.Candidate a
    ∧ a.getTag = l.getTag ∧ ∀ b, s.Candidate b → b.getTag ≠ a.getTag →
      usedAt a.getTag h < usedAt b.getTag h

/-- Whatever is called on a set, `evict` returns the least recently used candidate. -/
def EvictsLeastRecent (linesPerSet tagSize : Nat) : Prop := ∀ h s,
  Calls 0 linesPerSet tagSize h s → LeastRecent h s

/-- The slot that a call fills or touches. -/
def Op.Touches (s : CacheSet) (k : Nat) : Op → Prop
  | .insertLine _ => s.getEmptyLine = some k
  | .updateLRU tag => s.getLine tag = .ok k
  | _ => False

instance (s : CacheSet) (k : Nat) (op : Op) : Decidable (op.Touches s k) :=
  match op with
  | .insertLine _ => inferInstanceAs (Decidable (s.getEmptyLine = some k))
  | .updateLRU tag => inferInstanceAs (Decidable (s.getLine tag = .ok k))
  | .invalidate _ | .setExclusive _ | .setModified _ | .setShared _ | .evict => .isFalse id

theorem Op.Touches.lt {s : CacheSet} {k : Nat} {op : Op} (h : op.Touches s k) :
    k < s.lineArry.length := by
  cases op with
  | insertLine tag => exact (List.findIdx?_eq_some_iff_getElem.mp h).1
  | updateLRU tag => exact getLine_lt h
  | _ => exact h.elim

/-- The slot that a call of `invalidate` frees. -/
def Op.Invalidates (s : CacheSet) (k : Nat) : Op → Prop
  | .invalidate tag => s.getLine tag = .ok k
  | _ => False

instance (s : CacheSet) (k : Nat) (op : Op) : Decidable (op.Invalidates s k) :=
  match op with
  | .invalidate tag => inferInstanceAs (Decidable (s.getLine tag = .ok k))
  | .insertLine _ | .setExclusive _ | .setModified _ | .setShared _ | .updateLRU _ | .evict =>
      .isFalse id

theorem Op.Invalidates.lt {s : CacheSet} {k : Nat} {op : Op} (h : op.Invalidates s k) :
    k < s.lineArry.length := by
  cases op with
  | invalidate tag => exact getLine_lt h
  | _ => exact h.elim

/-- The call finds LRU values with which it renumbers in order. -/
structure Op.InOrder (s : CacheSet) (op : Op) : Prop where
  touch : ∀ k, op.Touches s k → s.NumbersInOrder k
  close : ∀ k, op.Invalidates s k → s.ClosesInOrder k

instance (s : CacheSet) (op : Op) : Decidable (op.InOrder s) :=
  decidable_of_iff ((∀ k < s.lineArry.length, op.Touches s k → s.NumbersInOrder k)
      ∧ ∀ k < s.lineArry.length, op.Invalidates s k → s.ClosesInOrder k)
    ⟨fun h => ⟨fun k hk => h.1 k hk.lt hk, fun k hk => h.2 k hk.lt hk⟩,
      fun h => ⟨fun k _ => h.touch k, fun k _ => h.close k⟩⟩

variable {g : SetShape} {setNum linesPerSet tagSize : Nat} {h : List CallRecord} {x : CallRecord}
  {s s' : CacheSet} {tag : Nat}

theorem usedAt_le (tag : Nat) (h : List CallRecord) : usedAt tag h ≤ h.length := by
  induction h with
  | nil => exact Nat.le_refl _
  | cons x older ih =>
      rw [usedAt, List.length_cons]
      split <;> omega

/-! ## What a call does to the lines -/

variable {f : Nat → Option MESI} {op : Op} {line : Option CacheLine} {j : Nat} {b : CacheLine}

/-- The slot that is touched holds the tag that is used. -/
theorem Maps.touched (hm : Maps linesPerSet tagSize f s) {i : Nat} (hfits : Fits tagSize tag)
    (hc : s.contains tag = true) (hline : s.getLine tag = .ok i) :
    ∃ l, s.lineArry[i]? = some l ∧ l.isValid = true ∧ l.getTag = tag := by
  obtain ⟨m, hst, _⟩ := hm.held hfits hc
  obtain ⟨i', l, hline', hi, hl, hkey, _⟩ := getLine_spec hm.ok.tags hst
  rw [hline] at hline'; cases hline'
  exact ⟨l, hi, hl, hkey.trans (key_of_fits hfits)⟩

/-- **A line that is not used was there before**, in the same slot. -/
theorem Maps.slot_kept (hm : Maps linesPerSet tagSize f s) (hallowed : op.Allowed tagSize s)
    (hp : Performed s op line s') (hb : s'.lineArry[j]? = some b) (hv : b.isValid = true)
    (hnot : ¬ op.Uses b.getTag) :
    ∃ a, s.lineArry[j]? = some a ∧ a.isValid = true ∧ a.getTag = b.getTag := by
  obtain ⟨a, ha, ⟨hva, hta⟩ | ⟨_, tag, rfl, hkey⟩⟩ := hp.slot hm.ok.tags hb hv
  · exact ⟨a, ha, hva, hta⟩
  · rw [key_of_fits hallowed.1] at hkey
    exact absurd (Or.inl (by rw [hkey])) hnot

/-- **A line that is used gets the value 0.** -/
theorem Maps.slot_used (hm : Maps linesPerSet tagSize f s) (hallowed : op.Allowed tagSize s)
    (hp : Performed s op line s') (hb : s'.lineArry[j]? = some b) (hv : b.isValid = true)
    (huses : op.Uses b.getTag) : b.getLRU = 0 := by
  have tags := hm.ok.tags
  cases hp with
  | @inserted i tag hfree =>
      obtain ⟨hlt, _, _⟩ := List.findIdx?_eq_some_iff_getElem.mp hfree
      have htag : tag = b.getTag := Op.Uses.inj (Or.inl rfl) huses
      obtain ⟨b₁, hb₁, hv₁, ht₁⟩ := (sameLines_updateLRUAt _ i).getElem? hb
      by_cases hj : j = i
      · subst hj
        refine updateLRUAt_zero (g := shapeOf linesPerSet tagSize) ?_ ?_ (by rwa [← tags.length]) hb
        · rw [← tags.length]; exact List.length_modify _ _ _
        · exact forall_mem_modify hm.ok.lru.width fun _ h => h
      · -- nobody else has this tag
        have hheld := (stateOf_eq_some tags).mpr
          ⟨j, b₁, modifyLine_of_ne hj hb₁, hv₁.trans hv, rfl, rfl⟩
        obtain ⟨hfits, _, hc⟩ := hallowed
        rw [contains_eq tags, key_of_fits hfits, htag, ← ht₁, hheld] at hc
        cases hc
  | @touched i tag hline =>
      have htag : tag = b.getTag := Op.Uses.inj (Or.inr rfl) huses
      obtain ⟨a, ha, hva, hta⟩ := (sameLines_updateLRUAt s i).getElem? hb
      obtain ⟨l, hi, hl, htl⟩ := hm.touched hallowed.1 hallowed.2 hline
      obtain rfl : j = i := tags.ordered.index_eq ha hi (hva.trans hv) hl
        (by rw [hta, htl, htag])
      exact updateLRUAt_zero tags.length hm.ok.lru.width
        (by rw [← tags.length]; exact (List.getElem?_eq_some_iff.mp ha).1) hb
  | set hno | invalidated hno | kept hno => exact absurd huses (hno _)

/-- Eviction gives up the greatest value: no other line moves down. -/
theorem Ok.closesInOrder (ok : Ok g s) (htwo : 2 ≤ g.lines) {k : Nat}
    (hsel : s.selectLineForEviction = .ok (some k)) : s.ClosesInOrder k := by
  intro _ i j n a b c _ hb _ _ hbelow _ _
  have hfull := isFull_of_select hsel
  obtain ⟨v, l, hv, hl, hgreatest⟩ := ok.greatest htwo hfull
  rw [hsel] at hv; cases hv
  have hle := hgreatest j b hb.2.1
  rw [lruAt_eq hl] at hbelow
  omega

/-- What a call removes leaves the others in order. -/
theorem Op.InOrder.closes (horder : op.InOrder s) (ok : Ok g s) (htwo : 2 ≤ g.lines) {k : Nat}
    (hremoves : op.Removes s k) : s.ClosesInOrder k := by
  cases op with
  | invalidate tag => exact horder.close k hremoves
  | evict => exact ok.closesInOrder htwo hremoves
  | _ => exact hremoves.elim

/-- **No call leaves a value out.** -/
theorem Maps.dense_call (hm : Maps linesPerSet tagSize f s) (hd : s.Dense)
    (hallowed : op.Allowed tagSize s) (hp : Performed s op line s') : s'.Dense := by
  cases hp with
  | @inserted k tag hfree => exact hd.streamIn hm.ok hfree tag
  | @touched k tag hline =>
      obtain ⟨l, hl, hvl, _⟩ := hm.touched hallowed.1 hallowed.2 hline
      exact hd.updateLRUAt hm.ok hl hvl
  | @set _ k value => exact hd.modifyLine k (fun _ => rfl) fun _ => rfl
  | @invalidated _ k => exact hd.invalidateAt hm.ok k
  | kept => exact hd

/-- **A call that renumbers in order** keeps the order of the lines that it does not use. -/
theorem Maps.order_kept (hm : Maps linesPerSet tagSize f s) (hlines : 2 ≤ linesPerSet)
    (hd : s.Dense) (hallowed : op.Allowed tagSize s) (hp : Performed s op line s')
    (horder : op.InOrder s) {i j : Nat} {a b a' b' : CacheLine} (ha : s.lineArry[i]? = some a)
    (hb : s.lineArry[j]? = some b) (hva : a.isValid = true) (hvb : b.isValid = true)
    (ha' : s'.lineArry[i]? = some a') (hb' : s'.lineArry[j]? = some b') (hva' : a'.isValid = true)
    (hvb' : b'.isValid = true) (hua : ¬ op.Uses a'.getTag) (hub : ¬ op.Uses b'.getTag)
    (hlt : s.GoesBefore i j) : s'.GoesBefore i j := by
  have tags := hm.ok.tags
  cases hp with
  | @inserted k tag hfree =>
      exact (horder.touch k hfree).streamIn hm.ok hfree tag (otherLine_of_free hfree ha hva)
        (otherLine_of_free hfree hb hvb) hlt
  | @touched k tag hline =>
      obtain ⟨l, hl, _, htl⟩ := hm.touched hallowed.1 hallowed.2 hline
      -- the touched slot holds the tag that the call uses
      have ne {n : Nat} {c' : CacheLine} (hc' : (s.updateLRUAt k).lineArry[n]? = some c')
          (hnot : ¬ (Op.updateLRU tag).Uses c'.getTag) : n ≠ k := by
        rintro rfl
        obtain ⟨c, hc, _, htc⟩ := (sameLines_updateLRUAt s n).getElem? hc'
        rw [hl] at hc; cases hc
        exact hnot (Or.inr (by rw [← htc, htl]))
      exact (horder.touch k hline).updateLRUAt tags.length hm.ok.lru.width
        (tags.length ▸ getLine_lt hline) ⟨ne ha' hua, ha, hva⟩ ⟨ne hb' hub, hb, hvb⟩ hlt
  | @set _ k value =>
      exact (goesBefore_modifyLine (f := fun l => l.setMESI value) (fun _ => rfl) k).mpr hlt
  | @invalidated _ k _ _ _ hremoves =>
      -- what is still in use was in another slot
      have ne {n : Nat} {c' : CacheLine} (hc' : (s.invalidateAt k).lineArry[n]? = some c')
          (hvc' : c'.isValid = true) : n ≠ k := by
        rintro rfl
        rw [invalidateAt_self hc'] at hvc'
        cases hvc'
      exact (horder.closes hm.ok hlines hremoves).invalidateAt hd hm.ok ⟨ne ha' hva', ha, hva⟩
        ⟨ne hb' hvb', hb, hvb⟩ hlt
  | kept => exact hlt

/-! ## Runs -/

/-- The lines in use are evicted in the order of their use. -/
def Agrees (h : List CallRecord) (s : CacheSet) : Prop :=
  ∀ (i j : Nat) (a b : CacheLine), s.lineArry[i]? = some a → s.lineArry[j]? = some b →
    a.isValid = true → b.isValid = true → i ≠ j →
      (s.GoesBefore i j ↔ usedAt a.getTag h < usedAt b.getTag h)

/-- **Preserved by every call that renumbers in order.** -/
theorem Agrees.call (hs : Agrees h s) (hlines : 2 ≤ linesPerSet)
    (hm : Maps linesPerSet tagSize f s) (hd : s.Dense) (hallowed : op.Allowed tagSize s)
    (hok : Ok (shapeOf linesPerSet tagSize) s') (heq : s.perform op = .ok (line, s'))
    (horder : op.InOrder s) : Agrees (⟨s, op, line, s'⟩ :: h) s' := by
  have hp := performed heq
  have used {t : Nat} (ht : op.Uses t) : usedAt t (⟨s, op, line, s'⟩ :: h) = h.length + 1 :=
    if_pos ht
  have unused {t : Nat} (ht : ¬ op.Uses t) :
      usedAt t (⟨s, op, line, s'⟩ :: h) = usedAt t h := if_neg ht
  intro i j a b hi hj ha hb hne
  -- a line that is used is the only one at 0
  have last {i j : Nat} {a b : CacheLine} (hi : s'.lineArry[i]? = some a)
      (hj : s'.lineArry[j]? = some b) (ha : a.isValid = true) (hb : b.isValid = true)
      (hne : i ≠ j) (hz : b.getLRU = 0) : s'.GoesBefore i j := by
    have hpos : a.getLRU ≠ 0 := fun h0 => hne (hok.lru.zeroOnce i j a b hi hj ha hb h0 hz)
    exact (goesBefore_iff hi hj).mpr (Or.inl (by omega))
  by_cases hua : op.Uses a.getTag
  · have hub : ¬ op.Uses b.getTag := fun hub =>
      hne (hok.tags.ordered.index_eq hi hj ha hb (hua.inj hub))
    have hlast := last hj hi hb ha (Ne.symm hne) (hm.slot_used hallowed hp hi ha hua)
    have hle := usedAt_le b.getTag h
    rw [used hua, unused hub]
    exact iff_of_false hlast.asymm (by omega)
  · by_cases hub : op.Uses b.getTag
    · have hlast := last hi hj ha hb hne (hm.slot_used hallowed hp hj hb hub)
      have hle := usedAt_le a.getTag h
      rw [used hub, unused hua]
      exact iff_of_true hlast (by omega)
    · obtain ⟨a₀, ha₀, hva₀, hta₀⟩ := hm.slot_kept hallowed hp hi ha hua
      obtain ⟨b₀, hb₀, hvb₀, htb₀⟩ := hm.slot_kept hallowed hp hj hb hub
      have hab := hm.order_kept hlines hd hallowed hp horder ha₀ hb₀ hva₀ hvb₀ hi hj ha hb hua hub
      have hba := hm.order_kept hlines hd hallowed hp horder hb₀ ha₀ hvb₀ hva₀ hj hi hb ha hub hua
      rw [unused hua, unused hub, ← hta₀, ← htb₀, ← hs i j a₀ b₀ ha₀ hb₀ hva₀ hvb₀ hne]
      refine ⟨fun hlt => ?_, hab⟩
      rcases goesBefore_total hne with h0 | h0
      · exact h0
      · exact absurd (hba h0) hlt.asymm

/-- **With two lines** there is only one line that could be renumbered. -/
theorem Maps.inOrder_of_two (hm : Maps 2 tagSize f s) (op : Op) : op.InOrder s := by
  have hlen : s.lineArry.length = 2 := hm.ok.tags.length
  have two {n : Nat} {a : CacheLine} (hn : s.lineArry[n]? = some a) : n < 2 :=
    hlen ▸ (List.getElem?_eq_some_iff.mp hn).1
  -- there is only one slot besides the one that is touched or freed
  have one {k : Nat} (hk : k < 2) {i j : Nat} {a b : CacheLine} (ha : s.OtherLine k i a)
      (hb : s.OtherLine k j b) : i = j := by
    have := ha.1
    have := hb.1
    have := two ha.2.1
    have := two hb.2.1
    omega
  refine ⟨fun k htouch => ?_, fun k hfrees => ?_⟩
  · have hk : k < 2 := hlen ▸ htouch.lt
    refine ⟨fun i j a b ha hb _ _ hij => ?_, fun i j a b ha hb hold hnext => ?_⟩
    · have := one hk ha hb
      omega
    · obtain rfl := one hk ha hb
      obtain rfl := Option.some.inj (ha.2.1.symm.trans hb.2.1)
      omega
  · have hk : k < 2 := hlen ▸ hfrees.lt
    intro _ i j n a b c _ hb hc hjn
    have := one hk hb hc
    omega

theorem dense_new : (CacheSet.new setNum linesPerSet tagSize).Dense := by
  intro i a hi ha
  rw [getElem?_new hi] at ha
  cases ha

/-- What a run keeps: no value is left out, and eviction goes by the order of use, if every call
renumbers in order. -/
theorem Calls.agrees (hlines : 2 ≤ linesPerSet) (hlines' : linesPerSet < 2 ^ 32)
    (hcalls : Calls setNum linesPerSet tagSize h s)
    (horder : linesPerSet = 2 ∨ ∀ x ∈ h, x.op.InOrder x.before) : s.Dense ∧ Agrees h s := by
  induction hcalls with
  | new =>
      refine ⟨dense_new, fun i j a b hi _ ha => ?_⟩
      rw [getElem?_new hi] at ha
      cases ha
  | @call h s s' line op hcalls hallowed heq ih =>
      have hm := hcalls.maps hlines hlines'
      obtain ⟨line', s₁, heq', hm'⟩ := hm.perform hlines hallowed
      rw [heq] at heq'; cases heq'
      have hinOrder : op.InOrder s := by
        rcases horder with rfl | horder
        · exact hm.inOrder_of_two op
        · exact horder _ List.mem_cons_self
      obtain ⟨hd, hagrees⟩ :=
        ih (horder.imp_right fun horder x hx => horder x (List.mem_cons_of_mem _ hx))
      exact ⟨hm.dense_call hd hallowed (performed heq),
        hagrees.call hlines hm hd hallowed hm'.ok heq hinOrder⟩

/-- **When eviction is least-recently-used.** In a set of two lines, or as long as every call
finds LRU values with which it renumbers in order, `evict` on a full set returns the candidate
whose latest use is furthest in the past. -/
theorem evicts_least_recent (setNum linesPerSet tagSize : Nat) (hlines : 2 ≤ linesPerSet)
    (hlines' : linesPerSet < 2 ^ 32) (h : List CallRecord) (s : CacheSet)
    (hcalls : Calls setNum linesPerSet tagSize h s)
    (horder : linesPerSet = 2 ∨ ∀ x ∈ h, x.op.InOrder x.before) : LeastRecent h s := by
  intro l s' hfull hev
  have hm := hcalls.maps hlines hlines'
  have hagrees := (hcalls.agrees hlines hlines' horder).2
  obtain ⟨v, a, hsel, hv, _⟩ := hm.ok.greatest hlines hfull
  have ha := getElem?_of_isFull hfull hv
  have hclean := hm.ok.tags.clean a (List.mem_of_getElem? hv)
  refine ⟨a, ⟨List.mem_of_getElem? hv, Or.inl hclean⟩, ?_, fun b hb hne => ?_⟩
  · obtain ⟨o, ho, hev⟩ := Outcome.bind_eq_ok.mp hev
    rw [hsel] at ho; cases ho
    have hl : (s.invalidateAt v).lineArry[v]? = some l := congrArg Prod.fst (Except.ok.inj hev)
    obtain ⟨b₁, hb₁, _, ht₁⟩ := (sameLines_checkAndFixLRU _).getElem? hl
    obtain ⟨a', ha', rfl⟩ := modifyLine_self hb₁
    rw [hv] at ha'; cases ha'
    exact ht₁
  · obtain ⟨j, hj⟩ := List.mem_iff_getElem?.mp hb.1
    have hjv : j ≠ v := by
      rintro rfl
      rw [hv] at hj; cases hj
      exact hne rfl
    exact (hagrees v j a b hv hj ha (getElem?_of_isFull hfull hj) (Ne.symm hjv)).mp
      (hm.ok.first hlines hfull hsel j (List.getElem?_eq_some_iff.mp hj).1 hjv)

/-- Four lines, the last two of which were inserted after one had been invalidated and the first used
again. The two in the lower slots have one value, and the third goes before them. -/
theorem evicts_least_recent_four_lines : ∃ h s l s', Calls 0 4 32 h s ∧ s.isFull = true
    ∧ s.evict = .ok (some l, s') ∧ l.getTag = 3 ∧ LeastRecent h s := by
  have hcalls : Calls 0 4 32 _ _ :=
    .call (.insertLine 5) (.call (.insertLine 4) (.call (.updateLRU 1) (.call (.invalidate 2)
      (.call (.insertLine 3) (.call (.insertLine 2) (.call (.insertLine 1) .new
        (by decide) rfl) (by decide) rfl) (by decide) rfl) (by decide) rfl) (by decide) rfl)
          (by decide) rfl) (by decide) rfl
  exact ⟨_, _, _, _, hcalls, rfl, rfl, rfl,
    evicts_least_recent 0 4 32 (by decide) (by decide) _ _ hcalls (Or.inr (by decide +kernel))⟩

/-- Three lines are inserted, and the first is used again. The touch numbers the other two in the
order of their slots, and the third is evicted before the second. -/
theorem not_evictsLeastRecent : ¬ EvictsLeastRecent 3 32 := by
  intro hclaim
  have hcalls : Calls 0 3 32 _ _ :=
    .call (.updateLRU 1) (.call (.insertLine 3) (.call (.insertLine 2) (.call (.insertLine 1) .new
      (by decide) rfl) (by decide) rfl) (by decide) rfl) (by decide) rfl
  obtain ⟨a, _, htag, hleast⟩ := hclaim _ _ hcalls _ _ rfl rfl
  have ha : a.getTag = 3 := htag.trans rfl
  have hlt := hleast _ ⟨List.mem_of_getElem? (i := 1) rfl, Or.inl rfl⟩ (by rw [ha]; decide)
  rw [ha] at hlt
  exact absurd hlt (by decide)

end CacheSet

end CoherenceSim
