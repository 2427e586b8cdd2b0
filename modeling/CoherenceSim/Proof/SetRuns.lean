import CoherenceSim.Proof.SetLRU

/-!
# Sequences of calls on a cache set

What a set of two or more lines holds after any sequence of calls is what the calls say: a tag
that was inserted, and neither invalidated nor evicted since, in the state last set for it.
-/

namespace CoherenceSim

/-! ## The masks -/

/-- Shift counts from 32 on bring no new bits. -/
theorem testBit_bitMask (len i : Nat) : (bitMask len).testBit i = decide (i < min len 32) := by
  induction len with
  | zero => simp [bitMask]
  | succ len ih =>
      have hstep : bitMask (len + 1) = bitMask len ||| (1 <<< (len % 32)) % 2 ^ 32 := by
        rw [bitMask, List.range_succ, List.foldl_append]
        rfl
      have hbit : ((1 <<< (len % 32)) % 2 ^ 32).testBit i = decide (len % 32 = i) := by
        have hlt : 2 ^ (len % 32) < 2 ^ 32 := Nat.pow_lt_pow_right (by decide) (Nat.mod_lt _ (by decide))
        rw [Nat.one_shiftLeft, Nat.mod_eq_of_lt hlt, Nat.testBit_two_pow]
      rw [hstep, Nat.testBit_or, ih, hbit, ← Bool.decide_or, decide_eq_decide]
      omega

theorem bitMask_eq (len : Nat) : bitMask len = 2 ^ min len 32 - 1 :=
  Nat.eq_of_testBit_eq fun i => by rw [testBit_bitMask, Nat.testBit_two_pow_sub_one]

theorem le_two_pow_ceilLog2 (n : Nat) : n ≤ 2 ^ ceilLog2 n := by
  unfold ceilLog2
  split
  · simpa using ‹n ≤ 1›
  · have := Nat.lt_log2_self (n := n - 1)
    omega

theorem ceilLog2_le {n : Nat} (hn : n < 2 ^ 32) : ceilLog2 n ≤ 32 := by
  unfold ceilLog2
  split
  · exact Nat.zero_le _
  · have : (n - 1).log2 < 32 := (Nat.log2_lt (by omega)).mpr (by omega)
    omega

namespace CacheSet

/-- The parameters of `CacheSet`'s constructor, as a shape. -/
def shapeOf (linesPerSet tagSize : Nat) : SetShape where
  lines := linesPerSet
  tagMask := bitMask tagSize
  lruLen := ceilLog2 linesPerSet
  tagMask_lt := by
    rw [bitMask_eq]
    have : 2 ^ min tagSize 32 ≤ 2 ^ 32 := Nat.pow_le_pow_right (by decide) (Nat.min_le_right ..)
    have : 0 < 2 ^ min tagSize 32 := Nat.two_pow_pos _
    omega
  fits := le_two_pow_ceilLog2 _

/-- Tags that the comparison sees whole. -/
def Fits (tagSize tag : Nat) : Prop := tag < 2 ^ 32 ∧ tag < 2 ^ tagSize

instance (tagSize tag : Nat) : Decidable (Fits tagSize tag) := by
  unfold Fits; infer_instance

theorem key_of_fits {linesPerSet tagSize tag : Nat} (h : Fits tagSize tag) :
    (shapeOf linesPerSet tagSize).key tag = tag := by
  have hlt : tag < 2 ^ min tagSize 32 := by
    rcases Nat.le_total tagSize 32 with hle | hle
    · rw [Nat.min_eq_left hle]; exact h.2
    · rw [Nat.min_eq_right hle]; exact h.1
  show (tag % 2 ^ 32) &&& bitMask tagSize = tag
  rw [bitMask_eq, Nat.and_two_pow_sub_one_eq_mod, Nat.mod_eq_of_lt h.1, Nat.mod_eq_of_lt hlt]

variable {setNum linesPerSet tagSize : Nat}

theorem getElem?_new {i : Nat} {l : CacheLine}
    (h : (CacheSet.new setNum linesPerSet tagSize).lineArry[i]? = some l) :
    l = CacheLine.new tagSize (ceilLog2 linesPerSet) i setNum := by
  simp only [CacheSet.new, List.getElem?_map, Option.map_eq_some_iff] at h
  obtain ⟨i', hi', rfl⟩ := h
  obtain ⟨_, hi⟩ := List.getElem?_eq_some_iff.mp hi'
  rw [List.getElem_range] at hi
  rw [hi]

/-- A new set is empty and in order. -/
theorem ok_new (setNum : Nat) {linesPerSet : Nat} (hlines : linesPerSet < 2 ^ 32) (tagSize : Nat) :
    Ok (shapeOf linesPerSet tagSize) (CacheSet.new setNum linesPerSet tagSize) := by
  have hdead : ∀ (i : Nat) (l : CacheLine),
      (CacheSet.new setNum linesPerSet tagSize).lineArry[i]? = some l → l.isValid = false := by
    intro i l h
    rw [getElem?_new h]; rfl
  have hall : ∀ P : CacheLine → Prop,
      (∀ i, P (CacheLine.new tagSize (ceilLog2 linesPerSet) i setNum)) →
      ∀ l ∈ (CacheSet.new setNum linesPerSet tagSize).lineArry, P l := by
    intro P hP l hl
    obtain ⟨i, hi⟩ := List.mem_iff_getElem?.mp hl
    rw [getElem?_new hi]; exact hP i
  have hlru : bitMask (ceilLog2 linesPerSet) = 2 ^ ceilLog2 linesPerSet - 1 := by
    rw [bitMask_eq, Nat.min_eq_left (ceilLog2_le hlines)]
  refine ⟨⟨?_, hall _ fun _ => rfl, ?_, hall _ fun _ _ => rfl, hall _ fun _ => rfl⟩,
    ⟨hall _ fun _ => hlru, ?_⟩⟩
  · simp [CacheSet.new, shapeOf]
  · intro i j a b _ _ hj hb
    rw [hdead j b hj] at hb; cases hb
  · intro i j a b hi _ ha
    rw [hdead i a hi] at ha; cases ha

theorem stateOf_new (k : Nat) : (CacheSet.new setNum linesPerSet tagSize).stateOf k = none := by
  refine Option.map_eq_none_iff.mpr (SlotStore.lookup_none.mpr fun i l hi hl => ?_)
  rw [getElem?_new hi] at hl
  cases hl

/-! ## Calls -/

/-- The calls that change a set. -/
inductive Op
  | insertLine (tag : Nat)
  | invalidate (tag : Nat)
  | setExclusive (tag : Nat)
  | setModified (tag : Nat)
  | setShared (tag : Nat)
  | updateLRU (tag : Nat)
  | evict
  deriving Repr, DecidableEq

/-- Make a call. The line that `evict` returns is returned as well. -/
def perform (s : CacheSet) : Op → Outcome (Option CacheLine × CacheSet)
  | .insertLine tag => do pure (none, ← s.insertLine tag)
  | .invalidate tag => do pure (none, ← s.invalidate tag)
  | .setExclusive tag => do pure (none, ← s.setExclusive tag)
  | .setModified tag => do pure (none, ← s.setModified tag)
  | .setShared tag => do pure (none, ← s.setShared tag)
  | .updateLRU tag => do pure (none, ← s.updateLRU tag)
  | .evict => s.evict

/-- What a set may be asked for: a line is inserted into a free slot, and once; and a line
that anything else is done to is there. -/
def Op.Allowed (tagSize : Nat) (s : CacheSet) : Op → Prop
  | .insertLine tag => Fits tagSize tag ∧ s.isFull = false ∧ s.contains tag = false
  | .invalidate tag | .setExclusive tag | .setModified tag | .setShared tag | .updateLRU tag =>
      Fits tagSize tag ∧ s.contains tag = true
  | .evict => True

instance (tagSize : Nat) (s : CacheSet) (op : Op) : Decidable (op.Allowed tagSize s) := by
  unfold Op.Allowed; split <;> infer_instance

/-- A call, and the set around it. -/
structure CallRecord where
  before : CacheSet
  op : Op
  line : Option CacheLine
  after : CacheSet

/-- A new set and a sequence of calls on it, the latest first. -/
inductive Calls (setNum linesPerSet tagSize : Nat) : List CallRecord → CacheSet → Prop
  | new : Calls setNum linesPerSet tagSize [] (CacheSet.new setNum linesPerSet tagSize)
  | call {h : List CallRecord} {s s' : CacheSet} {line : Option CacheLine} (op : Op) :
      Calls setNum linesPerSet tagSize h s → op.Allowed tagSize s →
      s.perform op = .ok (line, s') →
      Calls setNum linesPerSet tagSize (⟨s, op, line, s'⟩ :: h) s'

/-- What a call makes of a map from tags to states. Until its state is set a line that was
inserted counts as `INVALID`. -/
def Op.apply (line : Option CacheLine) (f : Nat → Option MESI) : Op → Nat → Option MESI
  | .insertLine tag, t => if t = tag then some .invalid else f t
  | .invalidate tag, t => if t = tag then none else f t
  | .setExclusive tag, t => if t = tag then some .exclusive else f t
  | .setModified tag, t => if t = tag then some .modified else f t
  | .setShared tag, t => if t = tag then some .shared else f t
  | .updateLRU _, t => f t
  | .evict, t => if line.map CacheLine.getTag = some t then none else f t

/-- **What the calls say**: which tags were inserted, and neither invalidated nor evicted since,
and which state was set last. -/
def recorded : List CallRecord → Nat → Option MESI
  | [] => fun _ => none
  | x :: older => x.op.apply x.line (recorded older)

/-- The tag that a call is about. -/
def Op.On (line : Option CacheLine) (tag : Nat) : Op → Prop
  | .insertLine t | .invalidate t | .setExclusive t | .setModified t | .setShared t
  | .updateLRU t => t = tag
  | .evict => line.map CacheLine.getTag = some tag

/-- What is known of one tag after some calls. -/
structure Holds (tagSize : Nat) (h : List CallRecord) (s : CacheSet) (tag : Nat) : Prop where
  contains : s.contains tag = (recorded h tag).isSome
  once : ∀ (i j : Nat) (a b : CacheLine), s.lineArry[i]? = some a → s.lineArry[j]? = some b →
    a.isValid = true → b.isValid = true → a.getTag = tag → b.getTag = tag → i = j
  getLine : ∀ m, recorded h tag = some m → ∃ (i : Nat) (l : CacheLine), s.getLine tag = .ok i
    ∧ s.lineArry[i]? = some l ∧ l.isValid = true ∧ l.getTag = tag
  state : ∀ m, recorded h tag = some m → s.isExclusive tag = .ok (decide (m = .exclusive))
    ∧ s.isModified tag = .ok (decide (m = .modified)) ∧ s.isShared tag = .ok (decide (m = .shared))
  frame : ∀ (op : Op) (line : Option CacheLine) (s' : CacheSet), op.Allowed tagSize s →
    s.perform op = .ok (line, s') → s.contains tag = true → ¬ op.On line tag →
    s'.contains tag = true ∧ s'.getMESI tag = s.getMESI tag

variable {h : List CallRecord} {s s' : CacheSet} {tag : Nat} {op : Op}

/-- Calls about other tags leave a tag alone. -/
theorem Op.apply_of_not_on {line : Option CacheLine} {f : Nat → Option MESI}
    (hon : ¬ op.On line tag) : op.apply line f tag = f tag := by
  cases op with
  | updateLRU => rfl
  | evict => exact if_neg hon
  | insertLine t | invalidate t | setExclusive t | setModified t | setShared t =>
      exact if_neg fun h0 => hon h0.symm

/-- The set is in order, and holds this map. -/
structure Maps (linesPerSet tagSize : Nat) (f : Nat → Option MESI) (s : CacheSet) : Prop where
  ok : Ok (shapeOf linesPerSet tagSize) s
  stateOf : ∀ k, s.stateOf k = f k

variable {f : Nat → Option MESI}

theorem Maps.contains (hm : Maps linesPerSet tagSize f s) (hfits : Fits tagSize tag) :
    s.contains tag = (f tag).isSome := by
  rw [contains_eq hm.ok.tags, key_of_fits hfits, hm.stateOf]

theorem Maps.held (hm : Maps linesPerSet tagSize f s) (hfits : Fits tagSize tag)
    (hc : s.contains tag = true) :
    ∃ m, s.stateOf ((shapeOf linesPerSet tagSize).key tag) = some m ∧ f tag = some m := by
  rw [hm.contains hfits] at hc
  obtain ⟨m, hf⟩ := Option.isSome_iff_exists.mp hc
  exact ⟨m, by rw [key_of_fits hfits, hm.stateOf, hf], hf⟩

theorem Maps.setMESI (hm : Maps linesPerSet tagSize f s) (hfits : Fits tagSize tag)
    (hc : s.contains tag = true) (value : MESI) : ∃ s', s.setMESI tag value = .ok s'
      ∧ Maps linesPerSet tagSize (fun t => if t = tag then some value else f t) s' := by
  obtain ⟨m, hst, _⟩ := hm.held hfits hc
  obtain ⟨s', hs', hok, hst'⟩ := hm.ok.setMESI_spec hst value
  refine ⟨s', hs', hok, fun k => ?_⟩
  rw [hst', key_of_fits hfits, hm.stateOf]

/-- **Every call goes through**, and does to the set what it should do to the map. -/
theorem Maps.perform (hlines : 2 ≤ linesPerSet) (hm : Maps linesPerSet tagSize f s)
    (hallowed : op.Allowed tagSize s) : ∃ line s', s.perform op = .ok (line, s')
      ∧ Maps linesPerSet tagSize (op.apply line f) s' := by
  cases op with
  | insertLine tag =>
      obtain ⟨hfits, hroom, hc⟩ := hallowed
      have hnew : s.stateOf ((shapeOf linesPerSet tagSize).key tag) = none := by
        rw [hm.contains hfits] at hc
        rw [key_of_fits hfits, hm.stateOf]
        simpa using hc
      obtain ⟨s', hs', hok, hst⟩ := hm.ok.insertLine_spec hroom hnew
      refine ⟨none, s', by simp [CacheSet.perform, hs'], hok, fun k => ?_⟩
      rw [hst, key_of_fits hfits, hm.stateOf]
      rfl
  | invalidate tag =>
      obtain ⟨hfits, hc⟩ := hallowed
      obtain ⟨m, hst, _⟩ := hm.held hfits hc
      obtain ⟨s', hs', hok, hst'⟩ := hm.ok.invalidate_spec hst
      refine ⟨none, s', by simp [CacheSet.perform, hs'], hok, fun k => ?_⟩
      rw [hst', key_of_fits hfits, hm.stateOf]
      rfl
  | setExclusive tag =>
      obtain ⟨s', hs', hm'⟩ := hm.setMESI hallowed.1 hallowed.2 .exclusive
      exact ⟨none, s', by simp [CacheSet.perform, CacheSet.setExclusive, hs'], hm'⟩
  | setModified tag =>
      obtain ⟨s', hs', hm'⟩ := hm.setMESI hallowed.1 hallowed.2 .modified
      exact ⟨none, s', by simp [CacheSet.perform, CacheSet.setModified, hs'], hm'⟩
  | setShared tag =>
      obtain ⟨s', hs', hm'⟩ := hm.setMESI hallowed.1 hallowed.2 .shared
      exact ⟨none, s', by simp [CacheSet.perform, CacheSet.setShared, hs'], hm'⟩
  | updateLRU tag =>
      obtain ⟨hfits, hc⟩ := hallowed
      obtain ⟨m, hst, _⟩ := hm.held hfits hc
      obtain ⟨s', hs', hok, hst'⟩ := hm.ok.updateLRU_spec hst
      exact ⟨none, s', by simp [CacheSet.perform, hs'], hok, fun k => (hst' k).trans (hm.stateOf k)⟩
  | evict =>
      cases hfull : s.isFull with
      | true =>
          obtain ⟨l, s', k₀, m, hs', hok, htag, _, _, _, hst⟩ := hm.ok.evict_spec hlines hfull
          refine ⟨some l, s', hs', hok, fun k => ?_⟩
          rw [hst, hm.stateOf, Op.apply, Option.map_some, htag]
          simp only [Option.some.injEq, eq_comm]
      | false =>
          exact ⟨none, s, evict_of_not_full hfull, hm.ok, hm.stateOf⟩

theorem Calls.maps (hlines : 2 ≤ linesPerSet) (hlines' : linesPerSet < 2 ^ 32)
    (hcalls : Calls setNum linesPerSet tagSize h s) : Maps linesPerSet tagSize (recorded h) s := by
  induction hcalls with
  | new => exact ⟨ok_new setNum hlines' tagSize, stateOf_new⟩
  | call op _ hallowed heq ih =>
      obtain ⟨line', s₁, heq', hm'⟩ := ih.perform hlines hallowed
      rw [heq] at heq'; cases heq'
      exact hm'

/-- **A set is a finite map from tags to states**, whatever sequence of calls was made on it. -/
theorem set_is_map (setNum linesPerSet tagSize : Nat) (hlines : 2 ≤ linesPerSet)
    (hlines' : linesPerSet < 2 ^ 32) (h : List CallRecord) (s : CacheSet)
    (hcalls : Calls setNum linesPerSet tagSize h s) (tag : Nat) (hfits : Fits tagSize tag) :
    Holds tagSize h s tag := by
  have hm := hcalls.maps hlines hlines'
  have key {m : MESI} (hr : recorded h tag = some m) :
      s.stateOf ((shapeOf linesPerSet tagSize).key tag) = some m := by
    rw [key_of_fits hfits, hm.stateOf, hr]
  refine ⟨hm.contains hfits, fun i j a b hi hj ha hb hta htb => ?_, fun m hr => ?_, fun m hr => ?_,
    fun op line s' hallowed heq hc hon => ?_⟩
  · exact hm.ok.tags.ordered.index_eq hi hj ha hb (hta.trans htb.symm)
  · obtain ⟨i, l, hg, hi, hv, ht, _⟩ := getLine_spec hm.ok.tags (key hr)
    exact ⟨i, l, hg, hi, hv, ht.trans (key_of_fits hfits)⟩
  · have hmesi := getMESI_spec hm.ok.tags (key hr)
    simp [CacheSet.isExclusive, CacheSet.isModified, CacheSet.isShared, hmesi]
  · obtain ⟨line', s₁, heq', hm'⟩ := hm.perform hlines hallowed
    rw [heq] at heq'; cases heq'
    have hsame : op.apply line (recorded h) tag = recorded h tag := Op.apply_of_not_on hon
    obtain ⟨m, hst, hr⟩ := hm.held hfits hc
    have hst' : s'.stateOf ((shapeOf linesPerSet tagSize).key tag) = some m := by
      rw [key_of_fits hfits, hm'.stateOf, hsame, hr]
    refine ⟨by rw [hm'.contains hfits, hsame, hr]; rfl, ?_⟩
    rw [getMESI_spec hm'.ok.tags hst', getMESI_spec hm.ok.tags hst]

/-- A tag that is inserted again in front of its old slot. -/
theorem set_is_map_inserted_again : ∃ h s, Calls 0 2 32 h s ∧ Holds 32 h s 7
    ∧ recorded h 7 = some .modified := by
  have hcalls : Calls 0 2 32 _ _ :=
    .call (.setModified 7) (.call (.insertLine 7) (.call (.invalidate 5) (.call (.invalidate 7)
      (.call (.insertLine 7) (.call (.insertLine 5) .new (by decide) rfl) (by decide) rfl)
      (by decide) rfl) (by decide) rfl) (by decide) rfl) (by decide) rfl
  exact ⟨_, _, hcalls, set_is_map 0 2 32 (by decide) (by decide) _ _ hcalls 7 (by decide), rfl⟩

/-! ## What a call does to the slots -/

/-- The calls that use a line. -/
def Op.Uses (tag : Nat) (op : Op) : Prop := op = .insertLine tag ∨ op = .updateLRU tag

instance (tag : Nat) (op : Op) : Decidable (op.Uses tag) := by
  unfold Op.Uses; infer_instance

theorem Op.Uses.inj {t t' : Nat} (h₁ : op.Uses t) (h₂ : op.Uses t') : t = t' := by
  rcases h₁ with rfl | rfl <;> rcases h₂ with h₂ | h₂
  · exact Op.insertLine.inj h₂
  · cases h₂
  · cases h₂
  · exact Op.updateLRU.inj h₂

/-- The slot whose line a call takes away. -/
def Op.Removes (s : CacheSet) (i : Nat) : Op → Prop
  | .invalidate tag => s.getLine tag = .ok i
  | .evict => s.selectLineForEviction = .ok (some i)
  | _ => False

/-- What a call can make of a set. -/
inductive Performed (s : CacheSet) : Op → Option CacheLine → CacheSet → Prop
  | inserted {i tag : Nat} : s.getEmptyLine = some i →
      Performed s (.insertLine tag) none (s.streamIn i tag)
  | touched {i tag : Nat} : s.getLine tag = .ok i →
      Performed s (.updateLRU tag) none (s.updateLRUAt i)
  | set {op : Op} {i : Nat} {value : MESI} : (∀ tag, ¬ op.Uses tag) →
      Performed s op none (s.modifyLine i (·.setMESI value))
  | invalidated {op : Op} {i : Nat} {line : Option CacheLine} : (∀ tag, ¬ op.Uses tag) →
      i < s.lineArry.length → op.Removes s i → Performed s op line (s.invalidateAt i)
  | kept {op : Op} : (∀ tag, ¬ op.Uses tag) → Performed s op none s

theorem getLine_lt {i : Nat} (hi : s.getLine tag = .ok i) : i < s.lineArry.length := by
  obtain ⟨_, _, hi⟩ := Outcome.bind_eq_ok.mp hi
  split at hi
  · rename_i hfind
    cases hi
    exact (List.findIdx?_eq_some_iff_getElem.mp hfind).1
  · cases hi

theorem selectLineForEviction_lt {i : Nat} (hi : s.selectLineForEviction = .ok (some i)) :
    i < s.lineArry.length := by
  have range {p : Nat → Bool} (hsel : s.findLRU ((List.range s.lineArry.length).filter p) = some i) :
      i < s.lineArry.length := List.mem_range.mp (List.mem_filter.mp (findLRU_mem hsel)).1
  unfold selectLineForEviction at hi
  split at hi
  · cases hi
  · dsimp only at hi
    split at hi
    · rename_i hsel
      cases hi
      split at hsel
      · exact range hsel
      · exact range hsel
    · cases hi

theorem performed {op : Op} {line : Option CacheLine} (heq : s.perform op = .ok (line, s')) :
    Performed s op line s' := by
  have unused {op : Op} (h₁ : ∀ t, op ≠ .insertLine t) (h₂ : ∀ t, op ≠ .updateLRU t) (tag : Nat) :
      ¬ op.Uses tag := fun h0 => h0.elim (h₁ tag) (h₂ tag)
  have state {op : Op} {tag : Nat} {value : MESI} {s' : CacheSet} (h₀ : ∀ t, ¬ op.Uses t)
      (hs : s.setMESI tag value = .ok s') : Performed s op none s' := by
    obtain ⟨i, _, hs⟩ := Outcome.bind_eq_ok.mp hs
    cases hs
    exact .set h₀
  cases op with
  | insertLine tag =>
      obtain ⟨s₁, hs, heq⟩ := Outcome.bind_eq_ok.mp heq
      cases heq
      unfold CacheSet.insertLine at hs
      split at hs
      · rename_i i hi
        cases hs
        exact .inserted hi
      · cases hs
  | updateLRU tag =>
      obtain ⟨s₁, hs, heq⟩ := Outcome.bind_eq_ok.mp heq
      cases heq
      obtain ⟨i, hi, hs⟩ := Outcome.bind_eq_ok.mp hs
      cases hs
      exact .touched hi
  | setExclusive tag | setModified tag | setShared tag =>
      obtain ⟨s₁, hs, heq⟩ := Outcome.bind_eq_ok.mp heq
      cases heq
      exact state (unused (by simp) (by simp)) hs
  | invalidate tag =>
      obtain ⟨s₁, hs, heq⟩ := Outcome.bind_eq_ok.mp heq
      cases heq
      obtain ⟨i, hi, hs⟩ := Outcome.bind_eq_ok.mp hs
      cases hs
      exact .invalidated (unused (by simp) (by simp)) (getLine_lt hi) hi
  | evict =>
      obtain ⟨o, ho, hs⟩ := Outcome.bind_eq_ok.mp (show s.evict = _ from heq)
      cases o with
      | none => cases hs; exact .kept (unused (by simp) (by simp))
      | some i =>
          cases hs
          exact .invalidated (unused (by simp) (by simp)) (selectLineForEviction_lt ho) ho

/-- A slot after lines were changed in nothing but their LRU values. -/
theorem SameLines.getElem? (hs : SameLines s s') {j : Nat} {b : CacheLine}
    (hb : s'.lineArry[j]? = some b) : ∃ a, s.lineArry[j]? = some a ∧ a.isValid = b.isValid
      ∧ a.getTag = b.getTag := by
  have hmap := congrArg (·[j]?) hs
  simp only [List.getElem?_map, hb, Option.map_some] at hmap
  obtain ⟨a, ha, he⟩ := Option.map_eq_some_iff.mp hmap.symm
  refine ⟨a, ha, ?_, ?_⟩
  · rw [← CacheLine.eraseLRU_isValid, he, CacheLine.eraseLRU_isValid]
  · rw [← CacheLine.eraseLRU_getTag, he, CacheLine.eraseLRU_getTag]

theorem modifyLine_of_ne {i j : Nat} {f : CacheLine → CacheLine} {b : CacheLine} (hne : j ≠ i)
    (hb : (s.modifyLine i f).lineArry[j]? = some b) : s.lineArry[j]? = some b := by
  have hb : (s.lineArry.modify i f)[j]? = some b := hb
  rw [List.getElem?_modify] at hb
  obtain ⟨a, ha, he⟩ := Option.map_eq_some_iff.mp hb
  rw [if_neg fun h0 => hne h0.symm] at he
  rw [ha, ← he]

theorem modifyLine_getElem?_of_ne {i j : Nat} {f : CacheLine → CacheLine} {b : CacheLine}
    (hne : j ≠ i) (hb : s.lineArry[j]? = some b) : (s.modifyLine i f).lineArry[j]? = some b :=
  (List.getElem?_modify_ne f s.lineArry (Ne.symm hne)).trans hb

theorem modifyLine_self {i : Nat} {f : CacheLine → CacheLine} {b : CacheLine}
    (hb : (s.modifyLine i f).lineArry[i]? = some b) : ∃ a, s.lineArry[i]? = some a ∧ b = f a := by
  have hb : (s.lineArry.modify i f)[i]? = some b := hb
  rw [List.getElem?_modify] at hb
  obtain ⟨a, ha, he⟩ := Option.map_eq_some_iff.mp hb
  exact ⟨a, ha, by simpa using he.symm⟩

/-- A slot that was invalidated is free. -/
theorem invalidateAt_self {i : Nat} {b : CacheLine}
    (hb : (s.invalidateAt i).lineArry[i]? = some b) : b.isValid = false := by
  obtain ⟨b₁, hb₁, hv₁, _⟩ := (sameLines_checkAndFixLRU _).getElem? hb
  obtain ⟨a, ha, rfl⟩ := modifyLine_self hb₁
  exact hv₁.symm

/-- The slot that is filled holds what a line keeps of the tag. -/
theorem TagsOk.filled {g : SetShape} (ok : TagsOk g s) {i : Nat} {b : CacheLine}
    (hb : (s.streamIn i tag).lineArry[i]? = some b) : b.getTag = g.key tag := by
  obtain ⟨b₁, hb₁, _, ht₁⟩ := (sameLines_updateLRUAt _ i).getElem? hb
  obtain ⟨a, ha, rfl⟩ := modifyLine_self hb₁
  rw [← ht₁]
  show a.tagMask &&& tag = _
  rw [ok.masked a (List.mem_of_getElem? ha), and_tagMask]

/-- **A valid line was there before**, in the same slot, or it was inserted into a free one. -/
theorem Performed.slot {g : SetShape} {line : Option CacheLine} (hp : Performed s op line s')
    (ok : TagsOk g s) {j : Nat} {b : CacheLine} (hb : s'.lineArry[j]? = some b)
    (hv : b.isValid = true) : ∃ a, s.lineArry[j]? = some a
      ∧ ((a.isValid = true ∧ a.getTag = b.getTag)
        ∨ a.isValid = false ∧ ∃ tag, op = .insertLine tag ∧ b.getTag = g.key tag) := by
  cases hp with
  | @inserted i tag hfree =>
      obtain ⟨b₁, hb₁, hv₁, ht₁⟩ := (sameLines_updateLRUAt _ i).getElem? hb
      by_cases hj : j = i
      · subst hj
        obtain ⟨a, ha, _⟩ := modifyLine_self hb₁
        exact ⟨a, ha, Or.inr ⟨SlotStore.dead_of_findIdx? hfree ha, tag, rfl, ok.filled hb⟩⟩
      · exact ⟨b₁, modifyLine_of_ne hj hb₁, Or.inl ⟨hv₁.trans hv, ht₁⟩⟩
  | touched =>
      obtain ⟨a, ha, hva, hta⟩ := (sameLines_updateLRUAt s _).getElem? hb
      exact ⟨a, ha, Or.inl ⟨hva.trans hv, hta⟩⟩
  | @set _ i value =>
      by_cases hj : j = i
      · subst hj
        obtain ⟨a, ha, rfl⟩ := modifyLine_self hb
        exact ⟨a, ha, Or.inl ⟨hv, rfl⟩⟩
      · exact ⟨b, modifyLine_of_ne hj hb, Or.inl ⟨hv, rfl⟩⟩
  | @invalidated _ i _ =>
      obtain ⟨b₁, hb₁, hv₁, ht₁⟩ := (sameLines_checkAndFixLRU _).getElem? hb
      by_cases hj : j = i
      · subst hj
        rw [invalidateAt_self hb] at hv
        cases hv
      · exact ⟨b₁, modifyLine_of_ne hj hb₁, Or.inl ⟨hv₁.trans hv, ht₁⟩⟩
  | kept => exact ⟨b, hb, Or.inl ⟨hv, rfl⟩⟩

/-- Nobody ever writes the number of the set. -/
theorem Performed.getSetNumber {line : Option CacheLine} (hp : Performed s op line s')
    (hs : ∀ l ∈ s.lineArry, l.getSetNumber = 0) : ∀ l ∈ s'.lineArry, l.getSetNumber = 0 := by
  have modified {i : Nat} {f : CacheLine → CacheLine}
      (hf : ∀ l, (f l).getSetNumber = l.getSetNumber) :
      ∀ l ∈ (s.modifyLine i f).lineArry, l.getSetNumber = 0 :=
    forall_mem_modify hs fun l hl => (hf l).trans hl
  have same {s₁ s₂ : CacheSet} (h : SameLines s₁ s₂)
      (h₁ : ∀ l ∈ s₁.lineArry, l.getSetNumber = 0) : ∀ l ∈ s₂.lineArry, l.getSetNumber = 0 :=
    h.forall_mem (P := fun l => l.getSetNumber = 0) (fun _ => Iff.rfl) h₁
  cases hp with
  | inserted => exact same (sameLines_updateLRUAt _ _) (modified fun _ => rfl)
  | touched => exact same (sameLines_updateLRUAt _ _) hs
  | set => exact modified fun _ => rfl
  | invalidated => exact same (sameLines_checkAndFixLRU _) (modified fun _ => rfl)
  | kept => exact hs

end CacheSet

end CoherenceSim
