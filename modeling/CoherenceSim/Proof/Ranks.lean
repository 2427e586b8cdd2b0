import CoherenceSim.Proof.SetSequences
import Mathlib.Data.List.Nodup
import Mathlib.Data.List.Perm.Subperm

/-!
# LRU values as ranks

A renumbering gives the lines in use the values from 0 on, each of them once, and a touch
of one of them keeps it so. What does not is an insertion: the line starts from the value that
its slot was left with, and a touch from there numbers the others only up to that value. All of
them are at or below it if it is at least the number of lines less one.
-/

namespace CoherenceSim

namespace CacheSet

/-- The lines in use carry different values. -/
def Distinct (s : CacheSet) : Prop :=
  ∀ (i j : Nat) (a b : CacheLine), s.lineArry[i]? = some a → s.lineArry[j]? = some b →
    a.isValid = true → b.isValid = true → a.getLRU = b.getLRU → i = j

/-- The slots in use. -/
def usedSlots (s : CacheSet) : List Nat := (List.range s.lineArry.length).filter s.validAt

/-- The LRU values of the lines in use are `0 … k - 1`, each of them once. -/
def Ranked (s : CacheSet) : Prop := (s.usedSlots.map s.lruAt).Perm (List.range s.usedSlots.length)

instance (s : CacheSet) : Decidable s.Ranked := by unfold Ranked; infer_instance

/-- An insertion finds a slot whose value the others do not exceed, if they are ranked. -/
def Op.FillsAbove (s : CacheSet) : Op → Prop
  | .insertLine _ => ∀ i ∈ s.getEmptyLine, s.usedSlots.length ≤ s.lruAt i + 1
  | _ => True

instance (s : CacheSet) (op : Op) : Decidable (op.FillsAbove s) :=
  match op with
  | .insertLine _ =>
      inferInstanceAs (Decidable (∀ i ∈ s.getEmptyLine, s.usedSlots.length ≤ s.lruAt i + 1))
  | .invalidate _ | .setExclusive _ | .setModified _ | .setShared _ | .updateLRU _ | .evict =>
      .isTrue trivial

/-- Whatever is called on a set, the LRU values of its lines in use are ranks. -/
def RanksHold (linesPerSet tagSize : Nat) : Prop := ∀ h s, Sequence 0 linesPerSet tagSize h s →
  ∀ x ∈ h, x.after.Ranked

variable {g : SetShape} {setNum linesPerSet tagSize : Nat} {h : List CallRecord} {s s' : CacheSet}
  {op : Op} {i j line : Nat} {a b : CacheLine}

/-! ## Slots in use -/

theorem mem_usedSlots : i ∈ s.usedSlots ↔ ∃ a, s.lineArry[i]? = some a ∧ a.isValid = true := by
  rw [usedSlots, List.mem_filter, List.mem_range]
  constructor
  · intro ⟨hlt, hv⟩
    have hi := List.getElem?_eq_getElem hlt
    rw [validAt_eq hi] at hv
    exact ⟨_, hi, hv⟩
  · intro ⟨a, hi, hv⟩
    exact ⟨(List.getElem?_eq_some_iff.mp hi).1, by rw [validAt_eq hi, hv]⟩

theorem usedSlots_nodup (s : CacheSet) : s.usedSlots.Nodup := List.nodup_range.filter _

/-- A row of different slots in use is no longer than all of them. -/
theorem length_le_usedSlots {l : List Nat} (hnd : l.Nodup)
    (hl : ∀ i ∈ l, ∃ a, s.lineArry[i]? = some a ∧ a.isValid = true) :
    l.length ≤ s.usedSlots.length :=
  hnd.length_le_of_subset fun i hi => mem_usedSlots.mpr (hl i hi)

/-- Ranks are different values, all of them below the number of lines in use. -/
theorem ranked_iff : s.Ranked ↔ s.Distinct
    ∧ ∀ (i : Nat) (a : CacheLine), s.lineArry[i]? = some a → a.isValid = true →
      a.getLRU < s.usedSlots.length := by
  constructor
  · intro hr
    have hnd := hr.nodup_iff.mpr List.nodup_range
    refine ⟨fun i j a b hi hj ha hb heq => ?_, fun i a hi ha => ?_⟩
    · refine List.inj_on_of_nodup_map hnd (mem_usedSlots.mpr ⟨a, hi, ha⟩)
        (mem_usedSlots.mpr ⟨b, hj, hb⟩) ?_
      rw [lruAt_eq hi, lruAt_eq hj, heq]
    · have hmem := List.mem_map_of_mem (f := s.lruAt) (mem_usedSlots.mpr ⟨a, hi, ha⟩)
      rw [lruAt_eq hi] at hmem
      exact List.mem_range.mp (hr.mem_iff.mp hmem)
  · intro ⟨hd, hlt⟩
    have hnd : (s.usedSlots.map s.lruAt).Nodup := by
      refine (usedSlots_nodup s).map_on fun i hi j hj heq => ?_
      obtain ⟨a, ha, hva⟩ := mem_usedSlots.mp hi
      obtain ⟨b, hb, hvb⟩ := mem_usedSlots.mp hj
      rw [lruAt_eq ha, lruAt_eq hb] at heq
      exact hd i j a b ha hb hva hvb heq
    have hsub : s.usedSlots.map s.lruAt ⊆ List.range s.usedSlots.length := by
      intro v hv
      obtain ⟨i, hi, rfl⟩ := List.mem_map.mp hv
      obtain ⟨a, ha, hva⟩ := mem_usedSlots.mp hi
      rw [lruAt_eq ha]
      exact List.mem_range.mpr (hlt i a ha hva)
    exact (List.subperm_of_subset hnd hsub).perm_of_length_le (by simp)

/-- Every rank is taken. -/
theorem Ranked.exists_rank (hr : s.Ranked) {v : Nat} (hv : v < s.usedSlots.length) :
    ∃ (i : Nat) (a : CacheLine), s.lineArry[i]? = some a ∧ a.isValid = true ∧ a.getLRU = v := by
  obtain ⟨i, hi, heq⟩ := List.mem_map.mp (hr.mem_iff.mpr (List.mem_range.mpr hv))
  obtain ⟨a, ha, hva⟩ := mem_usedSlots.mp hi
  exact ⟨i, a, ha, hva, (lruAt_eq ha).symm.trans heq⟩

/-! ## A touch -/

/-- The other lines carry different values. -/
def OthersDistinct (s : CacheSet) (line : Nat) : Prop :=
  ∀ i j a b, s.OtherLine line i a → s.OtherLine line j b → a.getLRU = b.getLRU → i = j

/-- **The numbers of a touch** are at most as many as there are values for the numbered lines. -/
theorem OthersDistinct.number_le (hd : s.OthersDistinct line) {bound : Nat}
    (hbound : ∀ i a, s.OtherLine line i a → a.getLRU ≤ s.lruAt line → a.getLRU < bound)
    (hj : s.OtherLine line j a) (hle : a.getLRU ≤ s.lruAt line) :
    1 + numberedBefore line (s.lruAt line) 0 (s.lineArry.modify line (·.setLRU 0)) j ≤ bound := by
  rw [numberedBefore_eq]
  -- the positions that are numbered up to this one, and their values
  have numbered : ∀ p ∈ j :: (List.range j).filter
      (numberedAt line (s.lruAt line) 0 (s.lineArry.modify line (·.setLRU 0))),
      ∃ b, s.OtherLine line p b ∧ b.getLRU ≤ s.lruAt line := by
    intro p hp
    rcases List.mem_cons.mp hp with rfl | hp
    · exact ⟨a, hj, hle⟩
    · obtain ⟨b, hb, hn⟩ := (Option.any_eq_true _ _).mp (List.mem_filter.mp hp).2
      have hn := of_decide_eq_true hn
      rw [Nat.zero_add] at hn
      exact ⟨b, ⟨hn.1, modifyLine_of_ne hn.1 hb, hn.2.1⟩, hn.2.2⟩
  have hnd : (j :: (List.range j).filter
      (numberedAt line (s.lruAt line) 0 (s.lineArry.modify line (·.setLRU 0)))).Nodup := by
    refine List.nodup_cons.mpr ⟨fun h0 => ?_, List.nodup_range.filter _⟩
    exact Nat.lt_irrefl _ (List.mem_range.mp (List.mem_filter.mp h0).1)
  have hvalues := hnd.map_on (f := s.lruAt) fun p hp q hq heq => by
    obtain ⟨b, hb, _⟩ := numbered p hp
    obtain ⟨c, hc, _⟩ := numbered q hq
    rw [lruAt_eq hb.2.1, lruAt_eq hc.2.1] at heq
    exact hd p q b c hb hc heq
  have hlen := hvalues.length_le_of_subset fun v hv => show v ∈ List.range bound by
    obtain ⟨p, hp, rfl⟩ := List.mem_map.mp hv
    obtain ⟨b, hb, hbl⟩ := numbered p hp
    rw [lruAt_eq hb.2.1]
    exact List.mem_range.mpr (hbound p b hb hbl)
  rw [List.length_map, List.length_cons, List.length_range] at hlen
  omega

/-- What a touch makes of another line's value: a number from 1 on if it was not above the value of
the touched line, and else what it was. -/
theorem OthersDistinct.touched (hd : s.OthersDistinct line) (hlen : s.lineArry.length = g.lines)
    (hwidth : ∀ l ∈ s.lineArry, l.lruMask = 2 ^ g.lruLen - 1) (hline : line < g.lines) {bound : Nat}
    (hbound : ∀ i a, s.OtherLine line i a → a.getLRU ≤ s.lruAt line → a.getLRU < bound)
    (hj : s.OtherLine line j a) (hb : (s.updateLRUAt line).lineArry[j]? = some b) :
    (a.getLRU ≤ s.lruAt line ∧ 1 ≤ b.getLRU ∧ b.getLRU ≤ bound)
      ∨ (s.lruAt line < a.getLRU ∧ b.getLRU = a.getLRU) := by
  obtain ⟨_, hval⟩ := hj.touched hlen hwidth hline hb
  by_cases hle : a.getLRU ≤ s.lruAt line
  · rw [if_pos ⟨hj.1, hj.2.2, hle⟩] at hval
    have hnumber := hd.number_le hbound hj hle
    exact Or.inl ⟨hle, by omega, by omega⟩
  · rw [if_neg fun hn => hle hn.2.2] at hval
    exact Or.inr ⟨Nat.lt_of_not_le hle, hval⟩

/-- **A touch keeps values apart**, if its numbers do not reach the values that it leaves. -/
theorem OthersDistinct.updateLRUAt (hd : s.OthersDistinct line)
    (hlen : s.lineArry.length = g.lines) (hwidth : ∀ l ∈ s.lineArry, l.lruMask = 2 ^ g.lruLen - 1)
    (hline : line < g.lines) {bound : Nat}
    (hbound : ∀ i a, s.OtherLine line i a → a.getLRU ≤ s.lruAt line → a.getLRU < bound)
    (habove : ∀ i a, s.OtherLine line i a → s.lruAt line < a.getLRU → bound < a.getLRU) :
    (s.updateLRUAt line).Distinct := by
  have other {i : Nat} {a : CacheLine} (hi : (s.updateLRUAt line).lineArry[i]? = some a)
      (ha : a.isValid = true) (hne : i ≠ line) : ∃ c, s.OtherLine line i c := by
    obtain ⟨c, hc, hvc, _⟩ := (sameLines_updateLRUAt s line).getElem? hi
    exact ⟨c, hne, hc, hvc.trans ha⟩
  have zero {a : CacheLine} (hi : (s.updateLRUAt line).lineArry[line]? = some a) : a.getLRU = 0 :=
    updateLRUAt_zero hlen hwidth hline hi
  have pos {i : Nat} {a : CacheLine} (hi : (s.updateLRUAt line).lineArry[i]? = some a)
      (ha : a.isValid = true) (hne : i ≠ line) : 0 < a.getLRU := by
    obtain ⟨c, hc⟩ := other hi ha hne
    rcases hd.touched hlen hwidth hline hbound hc hi with h0 | h0 <;> omega
  intro i j a b hi hj ha hb heq
  by_cases hil : i = line
  · by_contra hne
    have hpos := pos hj hb fun h0 => hne (hil.trans h0.symm)
    subst hil
    have := zero hi
    omega
  by_cases hjl : j = line
  · have hpos := pos hi ha hil
    subst hjl
    have := zero hj
    omega
  obtain ⟨c, hc⟩ := other hi ha hil
  obtain ⟨d, hd'⟩ := other hj hb hjl
  have hcase := hd.touched hlen hwidth hline hbound hc hi
  have hcase' := hd.touched hlen hwidth hline hbound hd' hj
  have hbelow := habove i c hc
  have hbelow' := habove j d hd'
  by_cases hle : c.getLRU ≤ s.lruAt line
  · by_cases hle' : d.getLRU ≤ s.lruAt line
    · -- both are numbered, in the order of their slots
      obtain ⟨hc₁, hva⟩ := hc.touched hlen hwidth hline hi
      obtain ⟨hd₁, hvb⟩ := hd'.touched hlen hwidth hline hj
      have hcn : Numbered line (s.lruAt line) i c := ⟨hc.1, hc.2.2, hle⟩
      have hdn : Numbered line (s.lruAt line) j d := ⟨hd'.1, hd'.2.2, hle'⟩
      rw [if_pos hcn] at hva
      rw [if_pos hdn] at hvb
      rcases Nat.lt_trichotomy i j with hlt | rfl | hgt
      · have := numberedBefore_lt_of_lt hc₁ (by rwa [Nat.zero_add]) hlt
        omega
      · rfl
      · have := numberedBefore_lt_of_lt hd₁ (by rwa [Nat.zero_add]) hgt
        omega
    · omega
  · by_cases hle' : d.getLRU ≤ s.lruAt line
    · omega
    · exact hd i j c d hc hd' (by omega)

/-! ## What each call does to the ranks -/

theorem usedSlots_congr (hvalid : s'.lineArry.map CacheLine.isValid = s.lineArry.map CacheLine.isValid) :
    s'.usedSlots = s.usedSlots := by
  have hlen := congrArg List.length hvalid
  rw [List.length_map, List.length_map] at hlen
  have hat : s'.validAt = s.validAt := by
    funext i
    rw [validAt, validAt, ← List.getElem?_map, ← List.getElem?_map, hvalid]
  rw [usedSlots, usedSlots, hlen, hat]

theorem SameLines.usedSlots (hs : SameLines s s') : s'.usedSlots = s.usedSlots := by
  have hvalid := congrArg (List.map CacheLine.isValid) hs
  rw [List.map_map, List.map_map] at hvalid
  exact usedSlots_congr hvalid

theorem ranked_congr (hvalid : s'.lineArry.map CacheLine.isValid = s.lineArry.map CacheLine.isValid)
    (hlru : s'.lineArry.map CacheLine.getLRU = s.lineArry.map CacheLine.getLRU) :
    s'.Ranked ↔ s.Ranked := by
  have hat : s'.lruAt = s.lruAt := by
    funext i
    rw [lruAt, lruAt, ← List.getElem?_map, ← List.getElem?_map, hlru]
  rw [Ranked, Ranked, usedSlots_congr hvalid, hat]

/-- **A touch of a line in use** keeps the ranks: the values below its own move up by one. -/
theorem Ranked.updateLRUAt (hr : s.Ranked) (ok : Ok g s) (ha : s.lineArry[line]? = some a)
    (hva : a.isValid = true) : (s.updateLRUAt line).Ranked := by
  obtain ⟨hd, hlt⟩ := ranked_iff.mp hr
  have hlen := ok.tags.length
  have hline : line < g.lines := hlen ▸ (List.getElem?_eq_some_iff.mp ha).1
  have hold := lruAt_eq ha
  have hothers : s.OthersDistinct line := fun i j b c hb hc =>
    hd i j b c hb.2.1 hc.2.1 hb.2.2 hc.2.2
  have hbound : ∀ i b, s.OtherLine line i b → b.getLRU ≤ s.lruAt line →
      b.getLRU < s.lruAt line := by
    intro i b hb hle
    refine Nat.lt_of_le_of_ne hle fun heq => hb.1 ?_
    exact hd i line b a hb.2.1 ha hb.2.2 hva (heq.trans hold)
  have htouched := hothers.updateLRUAt hlen ok.lru.width hline hbound fun _ _ _ h0 => h0
  refine ranked_iff.mpr ⟨htouched, fun i b hi hb => ?_⟩
  rw [(sameLines_updateLRUAt s line).usedSlots]
  have hmost := hlt line a ha hva
  by_cases hil : i = line
  · subst hil
    rw [updateLRUAt_zero hlen ok.lru.width hline hi]
    omega
  · obtain ⟨c, hc, hvc, _⟩ := (sameLines_updateLRUAt s line).getElem? hi
    have hvc := hvc.trans hb
    have := hlt i c hc hvc
    rcases hothers.touched hlen ok.lru.width hline hbound ⟨hil, hc, hvc⟩ hi with h0 | h0 <;> omega

/-- There is one slot more in use. -/
theorem usedSlots_streamIn (hfree : s.getEmptyLine = some line) (tag : Nat) :
    s.usedSlots.length + 1 ≤ (s.streamIn line tag).usedSlots.length := by
  obtain ⟨hslot, _, _⟩ := List.findIdx?_eq_some_iff_getElem.mp hfree
  have hused : (s.streamIn line tag).usedSlots = (s.filled line tag).usedSlots :=
    (sameLines_updateLRUAt (s.filled line tag) line).usedSlots
  have hnew : line ∉ s.usedSlots := by
    intro h0
    obtain ⟨c, hc, hvc⟩ := mem_usedSlots.mp h0
    rw [SlotStore.dead_of_findIdx? hfree hc] at hvc
    cases hvc
  rw [hused]
  refine length_le_usedSlots (List.nodup_cons.mpr ⟨hnew, usedSlots_nodup s⟩) fun i hi => ?_
  rcases List.mem_cons.mp hi with rfl | hi
  · exact ⟨_, SlotStore.getElem?_modify_self (List.getElem?_eq_getElem hslot), rfl⟩
  · obtain ⟨c, hc, hvc⟩ := mem_usedSlots.mp hi
    have hne : i ≠ line := fun h0 => hnew (h0 ▸ mem_usedSlots.mpr ⟨c, hc, hvc⟩)
    exact ⟨c, modifyLine_getElem?_of_ne hne hc, hvc⟩

/-- **An insertion keeps the ranks exactly when** the value its slot was left with is at least the
greatest of the others. -/
theorem Ranked.streamIn (hr : s.Ranked) (ok : Ok g s) (hfree : s.getEmptyLine = some line)
    (tag : Nat) : (s.streamIn line tag).Ranked ↔ s.usedSlots.length ≤ s.lruAt line + 1 := by
  obtain ⟨hd, hlt⟩ := ranked_iff.mp hr
  obtain ⟨hslot, _, _⟩ := List.findIdx?_eq_some_iff_getElem.mp hfree
  have hmore := usedSlots_streamIn hfree tag
  have hstream : s.streamIn line tag = (s.filled line tag).updateLRUAt line := rfl
  have hold : (s.filled line tag).lruAt line = s.lruAt line := lruAt_filled s line tag line
  have hline : line < g.lines := ok.tags.length ▸ hslot
  obtain ⟨hlen, hwidth⟩ := ok.filled_shape line tag
  have hothers : (s.filled line tag).OthersDistinct line := fun i j b c hb hc =>
    hd i j b c hb.of_modifyLine.2.1 hc.of_modifyLine.2.1 hb.2.2 hc.2.2
  have hbelow {i : Nat} {c : CacheLine} (hc : (s.filled line tag).OtherLine line i c) :
      c.getLRU < s.usedSlots.length := hlt i c hc.of_modifyLine.2.1 hc.2.2
  -- the line of a used slot, before and after
  have value (bound : Nat) {i : Nat} {b : CacheLine}
      (hbound : ∀ i c, (s.filled line tag).OtherLine line i c →
        c.getLRU ≤ (s.filled line tag).lruAt line → c.getLRU < bound)
      (hi : ((s.filled line tag).updateLRUAt line).lineArry[i]? = some b)
      (hb : b.isValid = true) : b.getLRU = 0 ∨ b.getLRU ≤ bound
        ∨ s.lruAt line < b.getLRU ∧ b.getLRU < s.usedSlots.length := by
    by_cases hil : i = line
    · subst hil
      exact Or.inl (updateLRUAt_zero hlen hwidth hline hi)
    · obtain ⟨c, hc, hvc, _⟩ := (sameLines_updateLRUAt (s.filled line tag) line).getElem? hi
      have hc : (s.filled line tag).OtherLine line i c := ⟨hil, hc, hvc.trans hb⟩
      have := hbelow hc
      rw [← hold]
      rcases hothers.touched hlen hwidth hline hbound hc hi with h0 | h0
      · exact Or.inr (Or.inl h0.2.2)
      · exact Or.inr (Or.inr (by omega))
  rw [hstream] at hmore ⊢
  constructor
  · intro hr'
    by_contra hsmall
    -- nobody has reached the greatest rank
    obtain ⟨i, b, hi, hb, hrank⟩ := hr'.exists_rank hmore
    have hcase := value (s.lruAt line + 1)
      (fun i c _ hle => by rw [hold] at hle; omega) hi hb
    omega
  · intro hlarge
    refine ranked_iff.mpr ⟨hothers.updateLRUAt hlen hwidth hline (fun i c hc _ => hbelow hc)
      fun i c hc habove => ?_, fun i b hi hb => ?_⟩
    · have := hbelow hc
      rw [hold] at habove
      omega
    · have hcase := value _ (fun i c hc _ => hbelow hc) hi hb
      omega

theorem Distinct.withoutLine (hd : s.Distinct) (k : Nat) : (s.withoutLine k).Distinct := by
  intro i j a b hi hj ha hb heq
  have hia := otherLine_of_withoutLine hi ha
  have hjb := otherLine_of_withoutLine hj hb
  exact hd i j a b hia.2.1 hjb.2.1 ha hb heq

/-- **No line is left out of the map** if the values are different: each gets its place in it. -/
theorem Distinct.place (hd : s.Distinct) {m : OrdMap Nat} (hw : LruWalk s m)
    (hlen : s.lineArry.length = g.lines) (hwidth : ∀ l ∈ s.lineArry, l.lruMask = 2 ^ g.lruLen - 1)
    (ha : s.lineArry[i]? = some a) (hva : a.isValid = true)
    (hb : s.checkAndFixLRU.lineArry[i]? = some b) : m[b.getLRU]? = some (a.getLRU, i) := by
  rcases hw.renumbered hlen hwidth ha hva hb with h0 | ⟨_, n, hn, hmem⟩
  · exact h0
  · -- a later line would carry the same value
    obtain ⟨c, hc, hvc, hkc⟩ := hw.ok.entry _ hmem
    have hsame := hd i n a c ha hc hva hvc hkc.symm
    omega

/-- **A removal ranks anew**, if the values are different. -/
theorem Distinct.ranked_invalidateAt (hd : s.Distinct) (ok : Ok g s) (i : Nat) :
    (s.invalidateAt i).Ranked := by
  obtain ⟨hlen, hwidth⟩ := ok.withoutLine_shape i
  obtain ⟨m, hw⟩ := checkAndFixLRU_walk (s.withoutLine i)
  have hsame := sameLines_checkAndFixLRU (s.withoutLine i)
  have hplace {k : Nat} {b : CacheLine} (hk : (s.invalidateAt i).lineArry[k]? = some b)
      (hb : b.isValid = true) : ∃ v, m[b.getLRU]? = some (v, k) := by
    obtain ⟨c, hc, hvc, _⟩ := hsame.getElem? hk
    exact ⟨_, (hd.withoutLine i).place hw hlen hwidth hc (hvc.trans hb) hk⟩
  refine ranked_iff.mpr ⟨fun k l b c hk hl hb hc heq => ?_, fun k b hk hb => ?_⟩
  · obtain ⟨v, hv⟩ := hplace hk hb
    obtain ⟨w, hw⟩ := hplace hl hc
    rw [heq, hw] at hv
    cases hv
    rfl
  · obtain ⟨v, hv⟩ := hplace hk hb
    have hlt := (List.getElem?_eq_some_iff.mp hv).1
    have hle : (m.map Prod.snd).length ≤ (s.withoutLine i).usedSlots.length := by
      refine length_le_usedSlots hw.nodup fun j hj => ?_
      obtain ⟨p, hp, rfl⟩ := List.mem_map.mp hj
      obtain ⟨c, hc, hvc, _⟩ := hw.ok.entry p hp
      exact ⟨c, hc, hvc⟩
    rw [List.length_map] at hle
    have hused : (s.invalidateAt i).usedSlots = (s.withoutLine i).usedSlots := hsame.usedSlots
    rw [hused]
    omega

/-- **One call**: what it takes to keep the ranks. -/
theorem Ranked.call (hr : s.Ranked) (ok : Ok g s) {line : Option CacheLine}
    (hp : Performed s op line s') : s'.Ranked ↔ op.FillsAbove s := by
  have vacuous {op : Op} (hno : ∀ tag, ¬ op.Uses tag) : op.FillsAbove s := by
    cases op with
    | insertLine tag => exact absurd (Or.inl rfl) (hno tag)
    | _ => trivial
  cases hp with
  | @inserted i tag hfree =>
      rw [hr.streamIn ok hfree tag]
      refine ⟨fun hle j hj => ?_, fun hfills => hfills i hfree⟩
      rw [hfree] at hj; cases hj
      exact hle
  | @touched i tag hline =>
      obtain ⟨m, hm⟩ := stateOf_of_getLine ok.tags hline
      obtain ⟨j, l, hline', hl, hv, _⟩ := getLine_spec ok.tags hm
      rw [hline] at hline'; cases hline'
      exact iff_of_true (hr.updateLRUAt ok hl hv) trivial
  | @set _ i value hno =>
      refine (ranked_congr ?_ ?_).trans (iff_of_true hr (vacuous hno))
      · exact map_modify_of_comp (p := CacheLine.isValid)
          (f := fun l : CacheLine => l.setMESI value) (fun _ => rfl) _ _
      · exact map_modify_of_comp (p := CacheLine.getLRU)
          (f := fun l : CacheLine => l.setMESI value) (fun _ => rfl) _ _
  | @invalidated _ i _ hno =>
      exact iff_of_true ((ranked_iff.mp hr).1.ranked_invalidateAt ok i) (vacuous hno)
  | kept hno => exact iff_of_true hr (vacuous hno)

theorem ranked_new (setNum linesPerSet tagSize : Nat) :
    (CacheSet.new setNum linesPerSet tagSize).Ranked := by
  refine ranked_iff.mpr ⟨fun i j a b hi _ ha => ?_, fun i a hi ha => ?_⟩
  · rw [getElem?_new hi] at ha
    cases ha
  · rw [getElem?_new hi] at ha
    cases ha

/-- **When LRU values are ranks.** After every call the values of the lines in use are `0 … k - 1`,
each of them once, exactly when every insertion finds a slot whose value is at least `k - 1`. A free
slot still has the value of the line that was in it last, and a new one has 0. So in a set of
three or more lines no insertion may find two lines in use: the first slot that a third line
would go to is a new one. -/
theorem lru_values_ranked (setNum linesPerSet tagSize : Nat) (hlines : 2 ≤ linesPerSet)
    (hlines' : linesPerSet < 2 ^ 32) (h : List CallRecord) (s : CacheSet)
    (hseq : Sequence setNum linesPerSet tagSize h s) :
    (∀ x ∈ h, x.after.Ranked) ↔ ∀ x ∈ h, x.op.FillsAbove x.before := by
  have hkeep : ((∀ x ∈ h, x.after.Ranked) ↔ ∀ x ∈ h, x.op.FillsAbove x.before)
      ∧ ((∀ x ∈ h, x.after.Ranked) → s.Ranked) := by
    induction hseq with
    | new => exact ⟨Iff.rfl.trans (by simp), fun _ => ranked_new setNum linesPerSet tagSize⟩
    | @call h s s' line op hseq _ heq ih =>
        obtain ⟨hiff, hnow⟩ := ih
        have hcall (hr : s.Ranked) := hr.call (hseq.ok hlines hlines') (performed heq)
        rw [List.forall_mem_cons, List.forall_mem_cons]
        refine ⟨⟨fun ⟨hr', hold⟩ => ?_, fun ⟨hfills, hold⟩ => ?_⟩, And.left⟩
        · exact ⟨(hcall (hnow hold)).mp hr', hiff.mp hold⟩
        · exact ⟨(hcall (hnow (hiff.mpr hold))).mpr hfills, hiff.mpr hold⟩
  exact hkeep.1

/-- Three lines are inserted into new slots: the first two both end up with the value 1. -/
theorem not_ranksHold : ¬ RanksHold 3 32 := by
  intro hclaim
  have hseq : Sequence 0 3 32 _ _ :=
    .call (.insertLine 3) (.call (.insertLine 2) (.call (.insertLine 1) .new
      (by decide) rfl) (by decide) rfl) (by decide) rfl
  have hranked := hclaim _ _ hseq _ List.mem_cons_self
  exact absurd hranked (by decide)

/-- Two lines in three slots, the first of them used again. -/
theorem lru_values_ranked_two_lines : ∃ h s, Sequence 0 3 32 h s ∧ h.length = 3
    ∧ ∀ x ∈ h, x.after.Ranked := by
  have hseq : Sequence 0 3 32 _ _ :=
    .call (.updateLRU 1) (.call (.insertLine 2) (.call (.insertLine 1) .new
      (by decide) rfl) (by decide) rfl) (by decide) rfl
  exact ⟨_, _, hseq, rfl,
    (lru_values_ranked 0 3 32 (by decide) (by decide) _ _ hseq).mpr (by decide)⟩

end CacheSet

end CoherenceSim
