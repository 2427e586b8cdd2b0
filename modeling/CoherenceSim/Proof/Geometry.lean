import CoherenceSim.Lib.AddressSplit
import CoherenceSim.Proof.LineOwners
import CoherenceSim.Proof.SetSequences

/-!
# Geometries of a cache

`CacheParams.h` is one choice of sizes among many. An address is split in the same way under
all of them, as long as the shifts stay within the 32 bits of an `unsigned int`.

Not all of them can be used: widths are rounded up to whole bits, while the array of sets has
the exact size, and a set of one line has no bits to tell the least recently used one by.
-/

namespace CoherenceSim

namespace Cache

/-- A cache that the constructor has made, with anything in its sets. -/
def Built (adxLength numSets lps bpl : Nat) (c : Cache) : Prop :=
  ∃ sets, c = { Cache.new adxLength numSets lps bpl with setArry := sets }

/-! ## Splitting and joining addresses -/

theorem ceilLog2_two_pow (s : Nat) : ceilLog2 (2 ^ s) = s := by
  have hlow : s ≤ ceilLog2 (2 ^ s) :=
    (Nat.pow_le_pow_iff_right (by decide)).mp (le_two_pow_ceilLog2 (2 ^ s))
  have hhigh : ceilLog2 (2 ^ s) ≤ s := by
    unfold ceilLog2
    split
    · exact Nat.zero_le _
    · have hpos := Nat.two_pow_pos s
      have : (2 ^ s - 1).log2 < s := (Nat.log2_lt (by omega)).mpr (by omega)
      omega
  omega

/-- How a cache with `2 ^ s` sets and lines of `2 ^ p` bytes takes an address apart. -/
structure Splits (s p : Nat) (c : Cache) : Prop where
  bits : s + p < 32
  paragraphBitSize : c.paragraphBitSize = p
  setBitMask : c.setBitMask = 2 ^ s - 1
  shift : subU32 c.addressLen c.tagSize = p + s

variable {c : Cache} {s p a n t : Nat}

theorem Built.splits {adxLength lps : Nat} (hb : Built adxLength (2 ^ s) lps (2 ^ p) c)
    (hbits : s + p < 32) (hlow : s + p ≤ adxLength) (hhigh : adxLength ≤ 64) : Splits s p c := by
  obtain ⟨sets, rfl⟩ := hb
  have hmask : bitMask s = 2 ^ s - 1 := by rw [bitMask_eq, Nat.min_eq_left (by omega)]
  refine ⟨hbits, ceilLog2_two_pow p, ?_, ?_⟩
  · show bitMask (ceilLog2 (2 ^ s)) = _
    rw [ceilLog2_two_pow, hmask]
  · show subU32 adxLength
      (subU32 (subU32 adxLength (ceilLog2 (2 ^ p))) (ceilLog2 (2 ^ s))) = p + s
    rw [ceilLog2_two_pow, ceilLog2_two_pow]
    unfold subU32
    omega

open AddressSplit

theorem Splits.getAdxSetNum (hs : Splits s p c) (a : Nat) : c.getAdxSetNum a = field p s a := by
  rw [Cache.getAdxSetNum, hs.paragraphBitSize, hs.setBitMask, Nat.shiftRight_eq_div_pow,
    Nat.and_two_pow_sub_one_eq_mod, field]

theorem Splits.getTag (hs : Splits s p c) (a : Nat) : c.getTag a = rest p s a := by
  rw [Cache.getTag, hs.shift, Nat.shiftRight_eq_div_pow, rest]

/-- The set number is shifted in 32 bits, and loses nothing. -/
theorem Splits.getAddress (hs : Splits s p c) (hn : n < 2 ^ s) (ht : t < 2 ^ (64 - (p + s))) :
    c.getAddress n t = join p s n t := by
  have hbits := hs.bits
  have hjoin : join p s n t < 2 ^ 64 := join_lt (by omega) hn ht
  have hset : n * 2 ^ p < 2 ^ (p + s) := by
    rw [Nat.pow_add, Nat.mul_comm]
    exact Nat.mul_lt_mul_of_pos_left hn (Nat.two_pow_pos p)
  have hword : 2 ^ (p + s) ≤ 2 ^ 32 := Nat.pow_le_pow_right (by decide) (by omega)
  have htag : t * 2 ^ (p + s) < 2 ^ 64 := by
    rw [join] at hjoin
    omega
  rw [Cache.getAddress, hs.paragraphBitSize, hs.shift, Nat.shiftLeft_eq,
    Nat.mod_eq_of_lt (by omega), Nat.shiftLeft_eq t, Nat.mod_eq_of_lt htag, Nat.or_comm,
    ← Nat.shiftLeft_eq, ← Nat.shiftLeft_add_eq_or_of_lt hset, Nat.shiftLeft_eq, join]

theorem Splits.rest_lt (hs : Splits s p c) (ha : a < 2 ^ 64) : rest p s a < 2 ^ (64 - (p + s)) := by
  have hbits := hs.bits
  rw [rest, Nat.div_lt_iff_lt_mul (Nat.two_pow_pos _), ← Nat.pow_add]
  rwa [show 64 - (p + s) + (p + s) = 64 by omega]

theorem Splits.getLineAlignedAddress (hs : Splits s p c) (ha : a < 2 ^ 64) :
    c.getLineAlignedAddress a = a - a % 2 ^ p := by
  rw [Cache.getLineAlignedAddress, hs.getAdxSetNum, hs.getTag,
    hs.getAddress (field_lt ..) (hs.rest_lt ha), join_split]

/-- **Splitting and joining are inverse.** Whatever the sizes, `getLineAlignedAddress` clears the
offset, a set number and a tag come back from the address that is joined of them, and addresses
agree in both exactly when they are on one line. -/
theorem address_split_join (adxLength lps s p : Nat) (hbits : s + p < 32)
    (hlow : s + p ≤ adxLength) (hhigh : adxLength ≤ 64) (c : Cache)
    (hbuilt : Built adxLength (2 ^ s) lps (2 ^ p) c) :
    (∀ a < 2 ^ 64, c.getLineAlignedAddress a = a - a % 2 ^ p
      ∧ c.getLineAlignedAddress (c.getLineAlignedAddress a) = c.getLineAlignedAddress a)
    ∧ (∀ set < 2 ^ s, ∀ tag < 2 ^ (64 - s - p), c.getAdxSetNum (c.getAddress set tag) = set
      ∧ c.getTag (c.getAddress set tag) = tag)
    ∧ ∀ a < 2 ^ 64, ∀ b < 2 ^ 64, c.getAdxSetNum a = c.getAdxSetNum b ∧ c.getTag a = c.getTag b
      ↔ c.getLineAlignedAddress a = c.getLineAlignedAddress b := by
  have hs := hbuilt.splits hbits hlow hhigh
  refine ⟨fun a ha => ?_, fun set hset tag htag => ?_, fun a ha b hb => ?_⟩
  · have halign := hs.getLineAlignedAddress ha
    have hle := Nat.mod_le a (2 ^ p)
    have hzero : (a - a % 2 ^ p) % 2 ^ p = 0 := by
      rw [← join_split p s a, join_eq, Nat.mul_mod_left]
    refine ⟨halign, ?_⟩
    rw [halign, hs.getLineAlignedAddress (by omega), hzero]
    rfl
  · have htag' : tag < 2 ^ (64 - (p + s)) := by rwa [show 64 - (p + s) = 64 - s - p by omega]
    rw [hs.getAddress hset htag', hs.getAdxSetNum, hs.getTag]
    exact ⟨field_join hset, rest_join hset⟩
  · rw [hs.getAdxSetNum, hs.getAdxSetNum, hs.getTag, hs.getTag, hs.getLineAlignedAddress ha,
      hs.getLineAlignedAddress hb]
    exact split_inj

/-- The geometry of the program's own test, and addresses off the start of a line and above the 32
bits of the geometry. -/
theorem address_split_join_test : ∃ c, Built 32 1024 4 32 c
    ∧ c.getLineAlignedAddress 47571234506749 = 47571234506720
    ∧ c.getAdxSetNum (c.getAddress 1019 1451758) = 1019
    ∧ c.getTag (c.getAddress 1019 1451758) = 1451758
    ∧ c.getAdxSetNum 47571234506749 = c.getAdxSetNum 47571234506721
    ∧ c.getTag 47571234506749 = c.getTag 47571234506721 := by
  have hbuilt : Built 32 (2 ^ 10) 4 (2 ^ 5) (Cache.new 32 1024 4 32) := ⟨_, rfl⟩
  obtain ⟨halign, hjoin, hsame⟩ :=
    address_split_join 32 4 10 5 (by decide) (by decide) (by decide) _ hbuilt
  have hline (a : Nat) (ha : a < 2 ^ 64) := (halign a ha).1
  obtain ⟨hset, htag⟩ := hjoin 1019 (by decide) 1451758 (by decide)
  refine ⟨_, hbuilt, hline _ (by decide), hset, htag, (hsame _ (by decide) _ (by decide)).mpr ?_⟩
  exact (hline _ (by decide)).trans (hline 47571234506721 (by decide)).symm

/-! ## Sequences of calls -/

/-- A line is inserted where there is room and it is not there yet. -/
def Op.Guarded (c : Cache) : Op → Prop
  | .insertLine adx => c.contains adx = .ok false ∧ c.isFull adx = .ok false
  | _ => True

instance (c : Cache) (op : Op) : Decidable (op.Guarded c) :=
  match op with
  | .insertLine adx =>
      inferInstanceAs (Decidable (c.contains adx = .ok false ∧ c.isFull adx = .ok false))
  | .invalidate _ | .evictLineInSet _ | .setExclusive _ | .setModified _ | .setShared _
  | .updateLRU _ => .isTrue trivial

/-- A new cache of any geometry, and what a sequence of calls makes of it. -/
inductive Reachable (adxLength numSets lps bpl : Nat) : Cache → Prop
  | new : Reachable adxLength numSets lps bpl (Cache.new adxLength numSets lps bpl)
  | call {c c' : Cache} {line : Option CacheLine} (op : Op) :
      Reachable adxLength numSets lps bpl c → op.address < 2 ^ 64 → op.Guarded c →
      c.perform op = .ok (line, c') →
      Reachable adxLength numSets lps bpl c'

/-- `evictLineInSet` invalidates a valid line of the set, and returns it. -/
def EvictsFrom (c : Cache) (adx : Nat) (set : CacheSet) : Prop :=
  ∃ (i : Nat) (l l' : CacheLine) (c' : Cache) (set' : CacheSet), set.lineArry[i]? = some l
    ∧ l.isValid = true ∧ c.evictLineInSet adx = .ok (some l', c') ∧ c'.setOf adx = .ok set'
    ∧ set'.lineArry[i]? = some l' ∧ l'.getTag = l.getTag ∧ l'.isValid = false

/-- Every address has a set, and there is a victim in it when it is full. -/
def Safe (c : Cache) : Prop := ∀ adx < 2 ^ 64, ∃ set, c.setOf adx = .ok set
  ∧ (set.isFull = true → EvictsFrom c adx set)

/-- In every geometry, every address has a set and every full set a victim, whatever calls were
made. -/
def GeometriesSafe (adxLength : Nat) : Prop := ∀ numSets lps bpl, 1 ≤ numSets → 1 ≤ lps →
  lps < 2 ^ 32 → 1 ≤ bpl → ceilLog2 numSets + ceilLog2 bpl < 32 →
  ∀ c, Reachable adxLength numSets lps bpl c → Safe c

/-- The invariant: a built cache of `2 ^ s` sets in order. -/
structure Sound (adxLength s lps bpl : Nat) (c : Cache) : Prop where
  built : Built adxLength (2 ^ s) lps bpl c
  length : c.setArry.length = 2 ^ s
  sets : ∀ set ∈ c.setArry, CacheSet.Ok (CacheSet.shapeOf lps c.tagSize) set

variable {adxLength lps bpl : Nat} {op : Op} {c' : Cache} {set set' : CacheSet} {adx : Nat}
  {line : Option CacheLine}

theorem Sound.setOf (hs : Sound adxLength s lps bpl c) (hbits : s < 32) (adx : Nat) :
    ∃ set, c.setOf adx = .ok set ∧ c.setArry[c.getAdxSetNum adx]? = some set
      ∧ CacheSet.Ok (CacheSet.shapeOf lps c.tagSize) set := by
  have hlt : c.getAdxSetNum adx < c.setArry.length := by
    obtain ⟨sets, hc⟩ := hs.built
    have hmask : c.setBitMask = 2 ^ s - 1 := by
      rw [hc]
      show bitMask (ceilLog2 (2 ^ s)) = _
      rw [ceilLog2_two_pow, bitMask_eq, Nat.min_eq_left (by omega)]
    rw [hs.length, Cache.getAdxSetNum, hmask, Nat.and_two_pow_sub_one_eq_mod]
    exact Nat.mod_lt _ (Nat.two_pow_pos s)
  have hget := List.getElem?_eq_getElem hlt
  exact ⟨c.setArry[c.getAdxSetNum adx], setOf_of_getElem? hget, hget,
    hs.sets _ (List.mem_of_getElem? hget)⟩

/-- Only the low 32 bits of a tag are compared, wherever it is cut. -/
theorem contains_mod (s : CacheSet) (tag : Nat) : s.contains (tag % 2 ^ 32) = s.contains tag := by
  simp only [CacheSet.contains, CacheLine.tagMatches, Nat.mod_mod]

theorem setContains (hset : c.setOf adx = .ok set) {b : Bool} (hc : c.contains adx = .ok b) :
    set.contains (c.getTag adx) = b := by
  rw [Cache.contains, hset] at hc
  rw [← contains_mod]
  exact Except.ok.inj hc

/-- What a cache is asked for is something that its set may be asked for. -/
theorem Op.Guarded.onSet (hguarded : op.Guarded c) (hset : c.setOf op.address = .ok set)
    (heq : c.perform op = .ok (line, c')) : (op.onSet c).Permitted set := by
  cases op with
  | insertLine adx =>
      obtain ⟨hcontains, hroom⟩ := hguarded
      rw [Cache.isFull, show c.setOf adx = _ from hset] at hroom
      exact ⟨Except.ok.inj hroom, setContains hset hcontains⟩
  | invalidate adx =>
      obtain ⟨_, hinvalidate, _⟩ := Outcome.bind_eq_ok.mp heq
      obtain ⟨_, hasserted, _⟩ := Outcome.bind_eq_ok.mp hinvalidate
      obtain ⟨b, hcontains, hasserted⟩ := Outcome.bind_eq_ok.mp hasserted
      exact (setContains hset hcontains).trans (assertThat_eq_ok.mp hasserted)
  | _ => trivial

/-- **Preserved by every call.** -/
theorem Sound.call (hs : Sound adxLength s lps bpl c) (hbits : s < 32) (htwo : 2 ≤ lps)
    (hguarded : op.Guarded c) (heq : c.perform op = .ok (line, c')) :
    Sound adxLength s lps bpl c' := by
  obtain ⟨set, set', hset, hop, rfl⟩ := performed heq
  obtain ⟨set₀, hset₀, hget, hok⟩ := hs.setOf hbits op.address
  rw [hset] at hset₀; cases hset₀
  have hok' := hok.call htwo (hguarded.onSet hset heq) hop
  obtain ⟨sets, hc⟩ := hs.built
  refine ⟨⟨_, by rw [hc]; rfl⟩, ?_, fun x hx => ?_⟩
  · rw [← hs.length]
    exact List.length_set
  · rcases List.mem_or_eq_of_mem_set hx with hx | rfl
    · exact hs.sets x hx
    · exact hok'

theorem sound_new (adxLength s bpl : Nat) (hlps : lps < 2 ^ 32) :
    Sound adxLength s lps bpl (Cache.new adxLength (2 ^ s) lps bpl) := by
  refine ⟨⟨_, rfl⟩, ?_, fun set hset => ?_⟩
  · rw [Cache.new, List.length_map, List.length_range]
  · obtain ⟨i, _, rfl⟩ := List.mem_map.mp hset
    exact CacheSet.ok_new i hlps _

theorem Reachable.sound (hc : Reachable adxLength (2 ^ s) lps bpl c) (hbits : s < 32)
    (htwo : 2 ≤ lps) (hlps : lps < 2 ^ 32) : Sound adxLength s lps bpl c := by
  induction hc with
  | new => exact sound_new adxLength s bpl hlps
  | call op _ _ hguarded heq ih => exact ih.call hbits htwo hguarded heq

theorem Sound.safe (hs : Sound adxLength s lps bpl c) (hbits : s < 32) (htwo : 2 ≤ lps) :
    Safe c := by
  intro adx _
  obtain ⟨set, hset, hget, hok⟩ := hs.setOf hbits adx
  refine ⟨set, hset, fun hfull => ?_⟩
  obtain ⟨i, l, hsel, hl, hv⟩ := CacheSet.selectLineForEviction_spec hok.tags hok.lru htwo hfull
  obtain ⟨l', hev, hl', htag, _, hdead⟩ := CacheSet.evict_of_select hsel hl
  refine ⟨i, l, l', c.putSet adx (set.invalidateAt i), set.invalidateAt i, hl, hv, ?_,
    setOf_putSet hget _, hl', htag, hdead⟩
  simp [Cache.evictLineInSet, hset, hev]

/-! ## Geometries that fail -/

/-- The set bits of an address can be all ones, and there is such a set only when the number of
sets is a power of two. -/
theorem two_pow_of_setOf {numSets : Nat}
    (hbits : ceilLog2 numSets + ceilLog2 bpl < 32)
    (hall : ∀ adx < 2 ^ 64, ∃ set, (Cache.new adxLength numSets lps bpl).setOf adx = .ok set) :
    numSets = 2 ^ ceilLog2 numSets := by
  have hle := le_two_pow_ceilLog2 numSets
  have hpos := Nat.two_pow_pos (ceilLog2 numSets)
  have hlt : (2 ^ ceilLog2 numSets - 1) * 2 ^ ceilLog2 bpl < 2 ^ 64 := by
    calc (2 ^ ceilLog2 numSets - 1) * 2 ^ ceilLog2 bpl
        < 2 ^ ceilLog2 numSets * 2 ^ ceilLog2 bpl :=
          Nat.mul_lt_mul_of_pos_right (by omega) (Nat.two_pow_pos _)
      _ = 2 ^ (ceilLog2 numSets + ceilLog2 bpl) := (Nat.pow_add ..).symm
      _ ≤ 2 ^ 64 := Nat.pow_le_pow_right (by decide) (by omega)
  obtain ⟨set, hset⟩ := hall _ hlt
  have hnum : (Cache.new adxLength numSets lps bpl).getAdxSetNum
      ((2 ^ ceilLog2 numSets - 1) * 2 ^ ceilLog2 bpl) = 2 ^ ceilLog2 numSets - 1 := by
    show ((2 ^ ceilLog2 numSets - 1) * 2 ^ ceilLog2 bpl) >>> ceilLog2 bpl
      &&& bitMask (ceilLog2 numSets) = _
    rw [bitMask_eq, Nat.min_eq_left (by omega), Nat.shiftRight_eq_div_pow,
      Nat.mul_div_cancel _ (Nat.two_pow_pos _), Nat.and_self]
  have hidx := (List.getElem?_eq_some_iff.mp (getElem?_of_setOf hset)).1
  rw [hnum, Cache.new, List.length_map, List.length_range] at hidx
  omega

/-- A set of one line is full after one insertion. Its LRU mask is 0, so there is no victim. -/
theorem insertLine_one_line (setNum tagSize tag : Nat) : ∃ set,
    (CacheSet.new setNum 1 tagSize).insertLine tag = .ok set ∧ set.isFull = true
      ∧ set.evict = .error .noVictim := by
  have hmask : bitMask (ceilLog2 1) = 0 := rfl
  have hstream : (CacheSet.new setNum 1 tagSize).streamIn 0 tag
      = ⟨[⟨bitMask tagSize &&& tag, bitMask tagSize, 0, 0, 0, .invalid, 0, false, true⟩],
        setNum⟩ := by
    simp [CacheSet.new, CacheLine.new, hmask, CacheSet.streamIn, CacheSet.modifyLine,
      CacheSet.updateLRUAt, CacheSet.updateLRULoop, CacheLine.setValid, CacheLine.setDirty,
      CacheLine.setTag, CacheLine.setLRU]
  exact ⟨_, rfl, by rw [hstream]; rfl, by rw [hstream]; rfl⟩

theorem not_safe_of_one_line {numSets : Nat} (hsets : 1 ≤ numSets) :
    ∃ c, Reachable adxLength numSets 1 bpl c ∧ ¬ Safe c := by
  obtain ⟨n, rfl⟩ : ∃ n, numSets = n + 1 := ⟨numSets - 1, by omega⟩
  have hnew : Reachable adxLength (n + 1) 1 bpl (Cache.new adxLength (n + 1) 1 bpl) := .new
  have hnum : (Cache.new adxLength (n + 1) 1 bpl).getAdxSetNum 0 = 0 := by
    rw [Cache.getAdxSetNum, Nat.zero_shiftRight, Nat.zero_and]
  have hget : (Cache.new adxLength (n + 1) 1 bpl).setArry[0]?
      = some (CacheSet.new 0 1 (Cache.new adxLength (n + 1) 1 bpl).tagSize) := by
    rw [Cache.new, List.getElem?_map, List.getElem?_range (by omega)]
    rfl
  generalize Cache.new adxLength (n + 1) 1 bpl = c at hnew hnum hget
  rw [← hnum] at hget
  have hset : c.setOf 0 = .ok (CacheSet.new 0 1 c.tagSize) := by
    rw [setOf_of_getElem? hget, hnum]
  have hroom : c.isFull 0 = .ok false := by rw [Cache.isFull, hset]; rfl
  have hcontains : c.contains 0 = .ok false := by rw [Cache.contains, hset]; rfl
  obtain ⟨set, hins, hfull, hev⟩ := insertLine_one_line 0 c.tagSize (c.getTag 0)
  have hset' : (c.putSet 0 set).setOf 0 = .ok set := setOf_putSet hget set
  have heq : c.perform (.insertLine 0) = .ok (none, c.putSet 0 set) := by
    simp [Cache.perform, Cache.insertLine, hroom, hset, hins]
  refine ⟨c.putSet 0 set, hnew.call (.insertLine 0) (by decide) ⟨hcontains, hroom⟩ heq,
    fun hsafe => ?_⟩
  · obtain ⟨set₁, hset₁, hvictim⟩ := hsafe 0 (by decide)
    rw [hset'] at hset₁; cases hset₁
    obtain ⟨_, _, _, _, _, _, _, hevict, _⟩ := hvictim hfull
    rw [Cache.evictLineInSet, hset', Outcome.ok_bind, hev] at hevict
    cases hevict

/-- **Which geometries are safe.** Whatever sequence of calls is made, every address has a set and
every full set a victim, exactly when the number of sets is a power of two and a set has at least
two lines. -/
theorem geometry_safe (adxLength numSets lps bpl : Nat) (hsets : 1 ≤ numSets) (hlines : 1 ≤ lps)
    (hlines' : lps < 2 ^ 32) (hbits : ceilLog2 numSets + ceilLog2 bpl < 32) :
    (∀ c, Reachable adxLength numSets lps bpl c → Safe c)
      ↔ (∃ s, numSets = 2 ^ s) ∧ 2 ≤ lps := by
  constructor
  · intro hall
    refine ⟨⟨ceilLog2 numSets, ?_⟩, ?_⟩
    · have hset (adx : Nat) (hadx : adx < 2 ^ 64) :
          ∃ set, (Cache.new adxLength numSets lps bpl).setOf adx = .ok set := by
        obtain ⟨set, hset, _⟩ := hall _ .new adx hadx
        exact ⟨set, hset⟩
      exact two_pow_of_setOf hbits hset
    · by_contra hone
      obtain rfl : lps = 1 := by omega
      obtain ⟨c, hc, hunsafe⟩ := not_safe_of_one_line hsets
      exact hunsafe (hall c hc)
  · intro ⟨⟨s, hs⟩, htwo⟩ c hc
    subst hs
    rw [ceilLog2_two_pow] at hbits
    exact (hc.sound (by omega) htwo hlines').safe (by omega) htwo

/-- Three sets take two bits: the addresses with both of them set have no set. -/
theorem not_geometriesSafe : ¬ GeometriesSafe 64 := by
  intro hclaim
  obtain ⟨set, hset, _⟩ := hclaim 3 4 32 (by decide) (by decide) (by decide) (by decide) (by decide)
    _ .new 96 (by decide)
  cases hset

/-- The shipped geometry is one of them. -/
theorem geometry_safe_shipped : ((∃ s, NUM_SETS = 2 ^ s) ∧ 2 ≤ LINES_PER_SET)
    ∧ ∀ c, Reachable ADX_LEN NUM_SETS LINES_PER_SET BYTES_PER_LINE c → Safe c :=
  have hshipped : (∃ s, NUM_SETS = 2 ^ s) ∧ 2 ≤ LINES_PER_SET := ⟨⟨10, rfl⟩, by decide⟩
  ⟨hshipped, (geometry_safe ADX_LEN NUM_SETS LINES_PER_SET BYTES_PER_LINE (by decide) (by decide)
    (by decide) (by decide)).mpr hshipped⟩

end Cache

end CoherenceSim
