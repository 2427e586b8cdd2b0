import CoherenceSim.Model.Cache
import CoherenceSim.Proof.SetRuns

/-!
# The cache is a map from lines to MESI states

With the shipped geometry an address has 5 offset bits, 10 set bits and a 49-bit tag, of
which the cache keeps and compares the low 32. What it distinguishes is therefore the
number `lineKey a` of 42 bits: two addresses with the same `lineKey` are one line to it.

Every operation that the controllers use is given here by its effect on that map.
-/

namespace CoherenceSim

/-- The geometry of `CacheParams.h`, as one set sees it. -/
def shipped : SetShape where
  lines := 4
  tagMask := 2 ^ 32 - 1
  lruLen := 2
  tagMask_lt := by decide
  fits := by decide

/-- What the cache knows of an address. -/
def lineKey (adx : Nat) : Nat := adx / 32 % 2 ^ 42

/-- Line-aligned 64-bit addresses: what travels on the bus. -/
structure Aligned (adx : Nat) : Prop where
  lt : adx < 2 ^ 64
  dvd : adx % 32 = 0

namespace Cache

variable {c : Cache}

/-- The invariant of a cache. -/
structure Ok (c : Cache) : Prop where
  addressLen : c.addressLen = 64
  tagSize : c.tagSize = 49
  paragraphBitSize : c.paragraphBitSize = 5
  setBitMask : c.setBitMask = 1023
  length : c.setArry.length = 1024
  sets : ∀ set ∈ c.setArry, CacheSet.Ok shipped set

/-- The state of the line with this key. -/
def stateAt (c : Cache) (k : Nat) : Option MESI :=
  (c.setArry[k % 1024]?).bind fun set => set.stateOf (k / 1024)

/-- The state of the line of this address. -/
def get (c : Cache) (adx : Nat) : Option MESI := c.stateAt (lineKey adx)

/-- `c'` is `c` with the line of this address in another state. -/
structure Put (c : Cache) (adx : Nat) (v : Option MESI) (c' : Cache) : Prop where
  ok : c'.Ok
  stateAt : ∀ k, c'.stateAt k = if k = lineKey adx then v else c.stateAt k

theorem Put.get_self {adx : Nat} {v : Option MESI} {c' : Cache} (h : Put c adx v c') :
    c'.get adx = v := by
  rw [Cache.get, h.stateAt, if_pos rfl]

theorem Put.get_of_ne {adx adx' : Nat} {v : Option MESI} {c' : Cache} (h : Put c adx v c')
    (hne : lineKey adx' ≠ lineKey adx) : c'.get adx' = c.get adx' := by
  rw [Cache.get, h.stateAt, if_neg hne, Cache.get]

/-! ## Splitting and joining addresses -/

theorem Ok.getAdxSetNum (ok : Ok c) (adx : Nat) : c.getAdxSetNum adx = lineKey adx % 1024 := by
  rw [Cache.getAdxSetNum, ok.paragraphBitSize, ok.setBitMask, Nat.shiftRight_eq_div_pow,
    show (1023 : Nat) = 2 ^ 10 - 1 from rfl, Nat.and_two_pow_sub_one_eq_mod, lineKey]
  omega

theorem Ok.getTag (ok : Ok c) (adx : Nat) : c.getTag adx = adx / 2 ^ 15 := by
  rw [Cache.getTag, ok.addressLen, ok.tagSize, Nat.shiftRight_eq_div_pow]
  rfl

theorem shipped_key (tag : Nat) : shipped.key tag = tag % 2 ^ 32 := by
  show (tag % 2 ^ 32) &&& (2 ^ 32 - 1) = tag % 2 ^ 32
  rw [Nat.and_two_pow_sub_one_eq_mod]
  omega

theorem Ok.key_getTag (ok : Ok c) (adx : Nat) :
    shipped.key (c.getTag adx) = lineKey adx / 1024 := by
  rw [ok.getTag, shipped_key, lineKey]
  omega

/-- `getLineAlignedAddress` clears the five low bits. -/
theorem Ok.getLineAlignedAddress (ok : Ok c) {adx : Nat} (h : adx < 2 ^ 64) :
    c.getLineAlignedAddress adx = adx - adx % 32 := by
  rw [Cache.getLineAlignedAddress, getAddress, ok.getAdxSetNum, ok.getTag, ok.paragraphBitSize,
    ok.addressLen, ok.tagSize, show subU32 64 49 = 15 by rfl, lineKey, Nat.or_comm]
  have hset : (adx / 32 % 2 ^ 42 % 1024) <<< 5 % 2 ^ 32 = adx / 32 % 1024 * 32 := by
    rw [Nat.shiftLeft_eq]; omega
  have htag : (adx / 2 ^ 15) <<< 15 % 2 ^ 64 = (adx / 2 ^ 15) <<< 15 := by
    rw [Nat.shiftLeft_eq]; omega
  rw [hset, htag, ← Nat.shiftLeft_add_eq_or_of_lt (by omega), Nat.shiftLeft_eq]
  omega

theorem Ok.aligned_getLineAlignedAddress (ok : Ok c) {adx : Nat} (h : adx < 2 ^ 64) :
    Aligned (c.getLineAlignedAddress adx) := by
  rw [ok.getLineAlignedAddress h]
  exact ⟨by omega, by omega⟩

theorem Ok.getLineAlignedAddress_of_aligned (ok : Ok c) {adx : Nat} (h : Aligned adx) :
    c.getLineAlignedAddress adx = adx := by
  rw [ok.getLineAlignedAddress h.lt, h.dvd]
  rfl

theorem Ok.lineKey_getLineAlignedAddress (ok : Ok c) {adx : Nat} (h : adx < 2 ^ 64) :
    lineKey (c.getLineAlignedAddress adx) = lineKey adx := by
  rw [ok.getLineAlignedAddress h, lineKey, lineKey]
  omega

theorem Ok.get_getLineAlignedAddress (ok : Ok c) {adx : Nat} (h : adx < 2 ^ 64) :
    c.get (c.getLineAlignedAddress adx) = c.get adx := by
  rw [Cache.get, ok.lineKey_getLineAlignedAddress h, ← Cache.get]

/-! ## One set of the cache -/

section

variable {adx : Nat} {set : CacheSet}

theorem setOf_of_getElem? (hget : c.setArry[c.getAdxSetNum adx]? = some set) :
    c.setOf adx = .ok set := by
  rw [Cache.setOf, hget]
  rfl

theorem getElem?_of_setOf (hset : c.setOf adx = .ok set) :
    c.setArry[c.getAdxSetNum adx]? = some set := by
  rw [Cache.setOf] at hset
  split at hset
  · cases hset
    assumption
  · cases hset

/-- Replacing the set of an address leaves the others. -/
theorem getElem?_putSet (hget : c.setArry[c.getAdxSetNum adx]? = some set) (set' : CacheSet)
    (k : Nat) : (c.putSet adx set').setArry[k]?
      = if k = c.getAdxSetNum adx then some set' else c.setArry[k]? := by
  have hlt := (List.getElem?_eq_some_iff.mp hget).1
  show (c.setArry.set (c.getAdxSetNum adx) set')[k]? = _
  rw [List.getElem?_set]
  by_cases hk : k = c.getAdxSetNum adx
  · rw [if_pos hk.symm, if_pos hlt, if_pos hk]
  · rw [if_neg fun h0 => hk h0.symm, if_neg hk]

theorem setOf_putSet (hget : c.setArry[c.getAdxSetNum adx]? = some set) (set' : CacheSet) :
    (c.putSet adx set').setOf adx = .ok set' :=
  setOf_of_getElem? ((getElem?_putSet hget set' _).trans (if_pos rfl))

end

theorem Ok.setOf_spec (ok : Ok c) (adx : Nat) :
    ∃ set, c.setOf adx = .ok set ∧ CacheSet.Ok shipped set
      ∧ c.setArry[lineKey adx % 1024]? = some set := by
  have hlt : lineKey adx % 1024 < c.setArry.length := by rw [ok.length]; omega
  have hget := List.getElem?_eq_getElem hlt
  refine ⟨c.setArry[lineKey adx % 1024], ?_, ok.sets _ (List.mem_of_getElem? hget), hget⟩
  exact setOf_of_getElem? (by rw [ok.getAdxSetNum, hget])

theorem stateAt_of_setArry {k : Nat} {set : CacheSet} (h : c.setArry[k % 1024]? = some set) :
    c.stateAt k = set.stateOf (k / 1024) := by
  rw [stateAt, h]; rfl

/-- Replacing the set of an address, when one key of the set changes its state. -/
theorem Ok.putSet (ok : Ok c) {adx t : Nat} {set set' : CacheSet} {v : Option MESI}
    (hset : c.setArry[lineKey adx % 1024]? = some set) (hok : CacheSet.Ok shipped set')
    (hst : ∀ t', set'.stateOf t' = if t' = t then v else set.stateOf t') :
    Ok (c.putSet adx set') ∧ ∀ k, (c.putSet adx set').stateAt k
      = if k = 1024 * t + lineKey adx % 1024 then v else c.stateAt k := by
  refine ⟨⟨ok.addressLen, ok.tagSize, ok.paragraphBitSize, ok.setBitMask, ?_, ?_⟩, fun k => ?_⟩
  · rw [← ok.length]; exact List.length_set
  · intro s hs
    rcases List.mem_or_eq_of_mem_set hs with hs | rfl
    · exact ok.sets s hs
    · exact hok
  · have hget : c.setArry[c.getAdxSetNum adx]? = some set := by rw [ok.getAdxSetNum, hset]
    rw [stateAt, getElem?_putSet hget, ok.getAdxSetNum]
    by_cases hk : k % 1024 = lineKey adx % 1024
    · rw [if_pos hk, Option.bind_some, hst]
      by_cases hkt : k / 1024 = t
      · rw [if_pos hkt, if_pos (by omega)]
      · rw [if_neg hkt, if_neg (by omega), stateAt_of_setArry (by rw [hk, hset])]
    · rw [if_neg hk, if_neg (by omega), stateAt]

/-- The same when the operation worked on the address's own line. -/
theorem Ok.putSet_own (ok : Ok c) {adx : Nat} {set set' : CacheSet} {v : Option MESI}
    (hset : c.setArry[lineKey adx % 1024]? = some set) (hok : CacheSet.Ok shipped set')
    (hst : ∀ t', set'.stateOf t' = if t' = shipped.key (c.getTag adx) then v else set.stateOf t') :
    Put c adx v (c.putSet adx set') := by
  obtain ⟨hok', hst'⟩ := ok.putSet hset hok hst
  refine ⟨hok', fun k => ?_⟩
  rw [hst' k, ok.key_getTag, Nat.div_add_mod]

/-! ## The operations -/

theorem Ok.stateOf_own (ok : Ok c) {adx : Nat} {set : CacheSet}
    (hset : c.setArry[lineKey adx % 1024]? = some set) :
    set.stateOf (shipped.key (c.getTag adx)) = c.get adx := by
  rw [ok.key_getTag, Cache.get, stateAt_of_setArry hset]

theorem Ok.contains (ok : Ok c) (adx : Nat) : c.contains adx = .ok (c.get adx).isSome := by
  obtain ⟨set, hset, hok, hget⟩ := ok.setOf_spec adx
  have hkey : shipped.key (c.getTag adx % 2 ^ 32) = shipped.key (c.getTag adx) := by
    rw [shipped_key, shipped_key]; omega
  rw [Cache.contains, hset]
  show Except.ok (set.contains (c.getTag adx % 2 ^ 32)) = _
  rw [CacheSet.contains_eq hok.tags, hkey, ok.stateOf_own hget]

variable {adx : Nat} {m : MESI}

theorem Ok.assertContains (ok : Ok c) (h : c.get adx = some m) : c.assertContains adx = .ok () := by
  simp [Cache.assertContains, ok.contains, h]

theorem Ok.getMESI_own (ok : Ok c) (h : c.get adx = some m) :
    ∃ set, c.setOf adx = .ok set ∧ set.getMESI (c.getTag adx) = .ok m := by
  obtain ⟨set, hset, hok, hget⟩ := ok.setOf_spec adx
  exact ⟨set, hset, CacheSet.getMESI_spec hok.tags (by rw [ok.stateOf_own hget, h])⟩

theorem Ok.isExclusive (ok : Ok c) (h : c.get adx = some m) :
    c.isExclusive adx = .ok (decide (m = .exclusive)) := by
  obtain ⟨set, hset, hm⟩ := ok.getMESI_own h
  simp [Cache.isExclusive, ok.assertContains h, hset, CacheSet.isExclusive, hm]

theorem Ok.isModified (ok : Ok c) (h : c.get adx = some m) :
    c.isModified adx = .ok (decide (m = .modified)) := by
  obtain ⟨set, hset, hm⟩ := ok.getMESI_own h
  simp [Cache.isModified, ok.assertContains h, hset, CacheSet.isModified, hm]

theorem Ok.isShared (ok : Ok c) (h : c.get adx = some m) :
    c.isShared adx = .ok (decide (m = .shared)) := by
  obtain ⟨set, hset, hm⟩ := ok.getMESI_own h
  simp [Cache.isShared, ok.assertContains h, hset, CacheSet.isShared, hm]

theorem Ok.isInvalid (ok : Ok c) (h : c.get adx = some m) :
    c.isInvalid adx = .ok (decide (m = .invalid)) := by
  obtain ⟨set, hset, hm⟩ := ok.getMESI_own h
  simp [Cache.isInvalid, ok.assertContains h, hset, CacheSet.isInvalid, hm]

theorem Ok.isModified_iff (ok : Ok c) : c.isModified adx = .ok true ↔ c.get adx = some .modified := by
  cases h : c.get adx with
  | none => simp [Cache.isModified, Cache.assertContains, ok.contains, h]
  | some m => simp [ok.isModified h]

theorem Ok.isExclusive_iff (ok : Ok c) :
    c.isExclusive adx = .ok true ↔ c.get adx = some .exclusive := by
  cases h : c.get adx with
  | none => simp [Cache.isExclusive, Cache.assertContains, ok.contains, h]
  | some m => simp [ok.isExclusive h]

theorem Ok.isShared_iff (ok : Ok c) : c.isShared adx = .ok true ↔ c.get adx = some .shared := by
  cases h : c.get adx with
  | none => simp [Cache.isShared, Cache.assertContains, ok.contains, h]
  | some m => simp [ok.isShared h]

/-- What `setMESI` through a set does to the cache. -/
theorem Ok.setMESI_own (ok : Ok c) (h : c.get adx = some m) (value : MESI) :
    ∃ set set', c.setOf adx = .ok set ∧ set.setMESI (c.getTag adx) value = .ok set'
      ∧ Put c adx (some value) (c.putSet adx set') := by
  obtain ⟨set, hset, hok, hget⟩ := ok.setOf_spec adx
  have hst : set.stateOf (shipped.key (c.getTag adx)) = some m := by rw [ok.stateOf_own hget, h]
  obtain ⟨set', hset', hok', hst'⟩ := hok.setMESI_spec hst value
  exact ⟨set, set', hset, hset', ok.putSet_own hget hok' hst'⟩

theorem Ok.setExclusive (ok : Ok c) (h : c.get adx = some m) :
    ∃ c', c.setExclusive adx = .ok c' ∧ Put c adx (some .exclusive) c' := by
  obtain ⟨set, set', hset, hset', hres⟩ := ok.setMESI_own h .exclusive
  exact ⟨c.putSet adx set',
    by simp [Cache.setExclusive, ok.assertContains h, hset, CacheSet.setExclusive, hset'], hres⟩

theorem Ok.setModified (ok : Ok c) (h : c.get adx = some m) :
    ∃ c', c.setModified adx = .ok c' ∧ Put c adx (some .modified) c' := by
  obtain ⟨set, set', hset, hset', hres⟩ := ok.setMESI_own h .modified
  exact ⟨c.putSet adx set',
    by simp [Cache.setModified, ok.assertContains h, hset, CacheSet.setModified, hset'], hres⟩

theorem Ok.setShared (ok : Ok c) (h : c.get adx = some m) :
    ∃ c', c.setShared adx = .ok c' ∧ Put c adx (some .shared) c' := by
  obtain ⟨set, set', hset, hset', hres⟩ := ok.setMESI_own h .shared
  exact ⟨c.putSet adx set',
    by simp [Cache.setShared, ok.assertContains h, hset, CacheSet.setShared, hset'], hres⟩

theorem Ok.invalidate (ok : Ok c) (h : c.get adx = some m) :
    ∃ c', c.invalidate adx = .ok c' ∧ Put c adx none c' := by
  obtain ⟨set, hset, hok, hget⟩ := ok.setOf_spec adx
  have hst : set.stateOf (shipped.key (c.getTag adx)) = some m := by rw [ok.stateOf_own hget, h]
  obtain ⟨set', hset', hok', hst'⟩ := hok.invalidate_spec hst
  exact ⟨c.putSet adx set', by simp [Cache.invalidate, ok.assertContains h, hset, hset'],
    ok.putSet_own hget hok' hst'⟩

theorem Ok.updateLRU (ok : Ok c) (h : c.get adx = some m) :
    ∃ c', c.updateLRU adx = .ok c' ∧ Put c adx (some m) c' := by
  obtain ⟨set, hset, hok, hget⟩ := ok.setOf_spec adx
  have hst : set.stateOf (shipped.key (c.getTag adx)) = some m := by rw [ok.stateOf_own hget, h]
  obtain ⟨set', hset', hok', hst'⟩ := hok.updateLRU_spec hst
  have hsame : ∀ t', set'.stateOf t'
      = if t' = shipped.key (c.getTag adx) then some m else set.stateOf t' := by
    intro t'
    rw [hst' t']
    split
    · rename_i he; rw [he, hst]
    · rfl
  exact ⟨c.putSet adx set', by simp [Cache.updateLRU, ok.assertContains h, hset, hset'],
    ok.putSet_own hget hok' hsame⟩

theorem Ok.isFull (ok : Ok c) (adx : Nat) : ∃ full, c.isFull adx = .ok full := by
  obtain ⟨set, hset, _, _⟩ := ok.setOf_spec adx
  exact ⟨set.isFull, by simp [Cache.isFull, hset]⟩

/-- Insertion adds the line; until its state is set it reads as `INVALID`. -/
theorem Ok.insertLine (ok : Ok c) (hroom : c.isFull adx = .ok false) (hnew : c.get adx = none) :
    ∃ c', c.insertLine adx = .ok c' ∧ Put c adx (some .invalid) c' := by
  obtain ⟨set, hset, hok, hget⟩ := ok.setOf_spec adx
  have hfree : set.isFull = false := by simpa [Cache.isFull, hset] using hroom
  have hst : set.stateOf (shipped.key (c.getTag adx)) = none := by rw [ok.stateOf_own hget, hnew]
  obtain ⟨set', hset', hok', hst'⟩ := hok.insertLine_spec hfree hst
  exact ⟨c.putSet adx set', by simp [Cache.insertLine, hroom, hset, hset'],
    ok.putSet_own hget hok' hst'⟩

/-- Eviction removes one line of the address's set, and shows it to the caller with its
MESI bits already `INVALID`. -/
theorem Ok.evictLineInSet (ok : Ok c) (hfull : c.isFull adx = .ok true) :
    ∃ (line : CacheLine) (c' : Cache) (k₀ : Nat) (m : MESI),
      c.evictLineInSet adx = .ok (some line, c') ∧ Ok c' ∧ c.stateAt k₀ = some m
      ∧ k₀ % 1024 = lineKey adx % 1024 ∧ line.getTag = k₀ / 1024 ∧ line.getMESI = .invalid
      ∧ c'.isFull adx = .ok false
      ∧ ∀ k, c'.stateAt k = if k = k₀ then none else c.stateAt k := by
  obtain ⟨set, hset, hok, hget⟩ := ok.setOf_spec adx
  have hf : set.isFull = true := by simpa [Cache.isFull, hset] using hfull
  obtain ⟨line, set', t₀, m, hev, hok', htag, hmesi, hheld, hroom, hst'⟩ :=
    hok.evict_spec (by decide) hf
  obtain ⟨hok'', hst''⟩ := ok.putSet hget hok' hst'
  have hset' : (c.putSet adx set').setOf adx = .ok set' :=
    setOf_putSet (by rw [ok.getAdxSetNum, hget]) set'
  refine ⟨line, c.putSet adx set', 1024 * t₀ + lineKey adx % 1024, m,
    by simp [Cache.evictLineInSet, hset, hev], hok'', ?_, by omega, by omega, hmesi,
    by simp [Cache.isFull, hset', hroom], hst''⟩
  have hidx : (1024 * t₀ + lineKey adx % 1024) % 1024 = lineKey adx % 1024 := by omega
  rw [stateAt_of_setArry (hidx ▸ hget), ← hheld]
  congr 1
  omega

end Cache

/-! ## The cache as built -/

theorem shipped_eq : CacheSet.shapeOf LINES_PER_SET 49 = shipped := by
  have htag : bitMask 49 = 2 ^ 32 - 1 := by decide
  have hlru : ceilLog2 LINES_PER_SET = 2 := by decide
  simp only [CacheSet.shapeOf, shipped, htag, hlru]
  rfl

namespace Cache

theorem mem_setArry_new {set : CacheSet}
    (h : set ∈ (Cache.new ADX_LEN NUM_SETS LINES_PER_SET BYTES_PER_LINE).setArry) :
    ∃ i, set = CacheSet.new i LINES_PER_SET 49 := by
  have htag : subU32 (subU32 ADX_LEN (ceilLog2 BYTES_PER_LINE)) (ceilLog2 NUM_SETS) = 49 := by decide
  simp only [Cache.new, htag, List.mem_map] at h
  obtain ⟨i, _, hi⟩ := h
  exact ⟨i, hi.symm⟩

theorem ok_new : Ok (Cache.new ADX_LEN NUM_SETS LINES_PER_SET BYTES_PER_LINE) where
  addressLen := rfl
  tagSize := by decide
  paragraphBitSize := by decide
  setBitMask := by decide
  length := by simp [Cache.new, NUM_SETS]
  sets := by
    intro set hset
    obtain ⟨i, rfl⟩ := mem_setArry_new hset
    exact shipped_eq ▸ CacheSet.ok_new i (by decide) 49

theorem stateAt_new (k : Nat) :
    (Cache.new ADX_LEN NUM_SETS LINES_PER_SET BYTES_PER_LINE).stateAt k = none := by
  rw [stateAt, Option.bind_eq_none_iff]
  intro set hset
  obtain ⟨i, rfl⟩ := mem_setArry_new (List.mem_of_getElem? hset)
  exact CacheSet.stateOf_new _

end Cache

end CoherenceSim
