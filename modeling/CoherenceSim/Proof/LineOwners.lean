import CoherenceSim.Proof.CacheMap

/-!
# Which lines are in the cache

The calls say it: a line that was inserted is there until it is invalidated or evicted. The cache
knows less of an address than its line. A tag is cut to 32 bits when it is stored and whenever it is
compared, so two lines can be one to the cache, and what a call makes of one of them is true of the
other. The number of the set is not stored at all.
-/

namespace CoherenceSim

namespace Cache

/-- The calls of the controllers that change a cache. -/
inductive Op
  | insertLine (adx : Nat)
  | invalidate (adx : Nat)
  | evictLineInSet (adx : Nat)
  | setExclusive (adx : Nat)
  | setModified (adx : Nat)
  | setShared (adx : Nat)
  | updateLRU (adx : Nat)
  deriving Repr, DecidableEq

def Op.address : Op → Nat
  | .insertLine adx | .invalidate adx | .evictLineInSet adx | .setExclusive adx
  | .setModified adx | .setShared adx | .updateLRU adx => adx

/-- Make a call. The line that `evictLineInSet` returns is returned as well. -/
def perform (c : Cache) : Op → Outcome (Option CacheLine × Cache)
  | .insertLine adx => do pure (none, ← c.insertLine adx)
  | .invalidate adx => do pure (none, ← c.invalidate adx)
  | .evictLineInSet adx => c.evictLineInSet adx
  | .setExclusive adx => do pure (none, ← c.setExclusive adx)
  | .setModified adx => do pure (none, ← c.setModified adx)
  | .setShared adx => do pure (none, ← c.setShared adx)
  | .updateLRU adx => do pure (none, ← c.updateLRU adx)

/-- What the controllers check before they make a call. -/
def Op.Checked (c : Cache) : Op → Prop
  | .insertLine adx => c.contains adx = .ok false ∧ c.isFull adx = .ok false
  | .evictLineInSet adx => c.isFull adx = .ok true
  | .invalidate adx | .setExclusive adx | .setModified adx | .setShared adx | .updateLRU adx =>
      c.contains adx = .ok true

instance (c : Cache) (op : Op) : Decidable (op.Checked c) := by
  unfold Op.Checked; split <;> infer_instance

/-- A call, and the line that it returned. -/
structure CallRecord where
  op : Op
  line : Option CacheLine

/-- A new cache of the shipped geometry and a sequence of calls on it, the latest first. -/
inductive Calls : List CallRecord → Cache → Prop
  | new : Calls [] (Cache.new ADX_LEN NUM_SETS LINES_PER_SET BYTES_PER_LINE)
  | call {h : List CallRecord} {c c' : Cache} {line : Option CacheLine} (op : Op) : Calls h c →
      op.address < 2 ^ 64 → op.Checked c → c.perform op = .ok (line, c') →
      Calls (⟨op, line⟩ :: h) c'

/-! ## What the calls say -/

/-- The line of an address comes in, or goes. -/
inductive Change
  | inserted (adx : Nat)
  | removed (adx : Nat)
  deriving Repr, DecidableEq

def Change.address : Change → Nat
  | .inserted adx | .removed adx => adx

def Change.IsInsertion (x : Change) : Prop := x = .inserted x.address

instance (x : Change) : Decidable x.IsInsertion := inferInstanceAs (Decidable (x = _))

theorem Change.isInsertion_iff {x : Change} : x.IsInsertion ↔ ∃ a, x = .inserted a :=
  ⟨fun hx => ⟨_, hx⟩, by rintro ⟨a, rfl⟩; rfl⟩

/-- The last change to a line with these low 42 bits: the number of its set, and the low 32 bits of
its tag. -/
def lastWithKey (key : Nat) (changes : List Change) : Option Change :=
  changes.find? fun x => lineKey x.address = key

/-- What a call changes. An eviction removes the line that was inserted last into the set with the
tag that the returned line carries. -/
def CallRecord.change (older : List Change) (x : CallRecord) : Option Change :=
  match x.op, x.line with
  | .insertLine adx, _ => some (.inserted adx)
  | .invalidate adx, _ => some (.removed adx)
  | .evictLineInSet adx, some line =>
      (lastWithKey (line.getTag * 1024 + lineKey adx % 1024)
        (older.filter fun x => x.IsInsertion)).map fun x => .removed x.address
  | _, _ => none

/-- All that the calls changed, the latest first. -/
def changes : List CallRecord → List Change
  | [] => []
  | x :: older => (x.change (changes older)).toList ++ changes older

/-- An address of the same line was inserted, and the line was neither invalidated nor evicted
since. -/
def Held (h : List CallRecord) (c : Cache) (adx : Nat) : Prop :=
  ∃ a, (changes h).find? (fun x => c.getLineAlignedAddress x.address = c.getLineAlignedAddress adx)
    = some (.inserted a)

instance (h : List CallRecord) (c : Cache) (adx : Nat) : Decidable (Held h c adx) :=
  decidable_of_iff (((changes h).find? fun x =>
      c.getLineAlignedAddress x.address = c.getLineAlignedAddress adx).any
      fun x => decide x.IsInsertion) (by
    rw [Held, Option.any_eq_true]
    simp only [decide_eq_true_eq, Change.isInsertion_iff]
    constructor
    · rintro ⟨x, hx, a, rfl⟩
      exact ⟨a, hx⟩
    · rintro ⟨a, ha⟩
      exact ⟨_, ha, a, rfl⟩)

/-- The last change to a line with the set and the low 32 tag bits of this address was to another
line, which came in while the address's own line was not held, or went while it was. -/
def Clash (h : List CallRecord) (c : Cache) (adx : Nat) : Prop :=
  ∃ x, lastWithKey (lineKey adx) (changes h) = some x
    ∧ c.getLineAlignedAddress x.address ≠ c.getLineAlignedAddress adx
    ∧ (x.IsInsertion ↔ ¬ Held h c adx)

instance (h : List CallRecord) (c : Cache) (adx : Nat) : Decidable (Clash h c adx) :=
  decidable_of_iff ((lastWithKey (lineKey adx) (changes h)).any fun x =>
      c.getLineAlignedAddress x.address ≠ c.getLineAlignedAddress adx
        ∧ (x.IsInsertion ↔ ¬ Held h c adx)) (by
    rw [Clash, Option.any_eq_true]
    simp only [decide_eq_true_eq])

/-- The line in slot `j` of set `k`. -/
def lineAt (c : Cache) (k j : Nat) : Option CacheLine :=
  (c.setArry[k]?).bind fun set => set.lineArry[j]?

/-- The line `l` of set `k` came in with this address. -/
def CameWith (h : List CallRecord) (k : Nat) (l : CacheLine) (a : Nat) : Prop :=
  lastWithKey (l.getTag * 1024 + k) (changes h) = some (.inserted a)

/-- The cache holds what the calls say, and a line's set and tag give back its address. -/
def Distinguishes : Prop := ∀ h c, Calls h c →
  (∀ adx < 2 ^ 64, c.contains adx = .ok true ↔ Held h c adx)
    ∧ ∀ k j l a, c.lineAt k j = some l → l.isValid = true → CameWith h k l a →
      c.getAddress l.getSetNumber l.getTag = c.getLineAlignedAddress a

variable {h : List CallRecord} {c c' : Cache} {op : Op} {adx key : Nat} {x : Change}
  {older : List Change} {line : Option CacheLine}

theorem lastWithKey_cons : lastWithKey key (x :: older)
    = if lineKey x.address = key then some x else lastWithKey key older := by
  rw [lastWithKey, List.find?_cons]
  split <;> simp_all [lastWithKey]

theorem lineKey_of_lastWithKey (hx : lastWithKey key older = some x) : lineKey x.address = key := by
  simpa using List.find?_some hx

/-- The last change of a kind is also the last of a kind within it. -/
theorem find?_of_find? {p q : Change → Bool} (hpq : ∀ y ∈ older, q y = true → p y = true)
    (hx : older.find? p = some x) (hq : q x = true) : older.find? q = some x := by
  obtain ⟨hp, as, bs, rfl, has⟩ := List.find?_eq_some_iff_append.mp hx
  refine List.find?_eq_some_iff_append.mpr ⟨hq, as, bs, rfl, fun y hy => ?_⟩
  have hnot := has y hy
  cases hqy : q y with
  | false => rfl
  | true => rw [hpq y (List.mem_append_left _ hy) hqy] at hnot; exact hnot

/-! ## One call -/

/-- The cache is in order, and has a line for a key if the last change to such a line is an
insertion. -/
structure Tracks (cs : List Change) (c : Cache) : Prop where
  ok : Ok c
  present : ∀ k, (c.stateAt k).isSome = true ↔ ∃ a, lastWithKey k cs = some (.inserted a)
  lt : ∀ x ∈ cs, x.address < 2 ^ 64

variable {cs : List Change}

/-- One line comes in or goes. -/
theorem Tracks.cons (ht : Tracks cs c) {v : Option MESI} (hput : Put c x.address v c')
    (hlt : x.address < 2 ^ 64) (hv : v.isSome = true ↔ x.IsInsertion) : Tracks (x :: cs) c' := by
  refine ⟨hput.ok, fun k => ?_, List.forall_mem_cons.mpr ⟨hlt, ht.lt⟩⟩
  rw [hput.stateAt, lastWithKey_cons]
  by_cases hk : k = lineKey x.address
  · rw [if_pos hk, if_pos hk.symm, hv, Change.isInsertion_iff]
    simp only [Option.some.injEq]
  · rw [if_neg hk, if_neg (Ne.symm hk)]
    exact ht.present k

/-- Only the state of a line changes. -/
theorem Tracks.put_held (ht : Tracks cs c) {m m' : MESI} (hput : Put c adx (some m') c')
    (hm : c.get adx = some m) : Tracks cs c' := by
  refine ⟨hput.ok, fun k => ?_, ht.lt⟩
  rw [hput.stateAt, ← ht.present]
  split
  · rename_i hk
    subst hk
    rw [Cache.get] at hm
    simp [hm]
  · rfl

/-- **Preserved by every call.** -/
theorem Tracks.perform (ht : Tracks cs c) (hlt : op.address < 2 ^ 64) (hchecked : op.Checked c)
    (heq : c.perform op = .ok (line, c')) :
    Tracks ((CallRecord.change cs ⟨op, line⟩).toList ++ cs) c' := by
  have ok := ht.ok
  have held {adx : Nat} (hc : c.contains adx = .ok true) : ∃ m, c.get adx = some m := by
    rw [ok.contains] at hc
    exact Option.isSome_iff_exists.mp (Except.ok.inj hc)
  -- the calls that return no line
  have peel {adx : Nat} {v : Option MESI} {u : Outcome Cache}
      (hu : ∃ c₁, u = .ok c₁ ∧ Put c adx v c₁)
      (h0 : (do pure (none, ← u)) = Except.ok (line, c')) : line = none ∧ Put c adx v c' := by
    obtain ⟨c₁, rfl, hput⟩ := hu
    cases h0
    exact ⟨rfl, hput⟩
  have state {adx : Nat} {m m' : MESI} (hm : c.get adx = some m) {u : Outcome Cache}
      (hu : ∃ c₁, u = .ok c₁ ∧ Put c adx (some m') c₁)
      (h0 : (do pure (none, ← u)) = Except.ok (line, c')) : Tracks cs c' :=
    ht.put_held (peel hu h0).2 hm
  cases op with
  | insertLine adx =>
      obtain ⟨hc, hroom⟩ := hchecked
      have hnew : c.get adx = none := by
        rw [ok.contains] at hc
        simpa using Except.ok.inj hc
      obtain ⟨rfl, hput⟩ := peel (ok.insertLine hroom hnew) heq
      exact ht.cons (x := .inserted adx) hput hlt (by simp [Change.isInsertion_iff])
  | invalidate adx =>
      obtain ⟨m, hm⟩ := held hchecked
      obtain ⟨rfl, hput⟩ := peel (ok.invalidate hm) heq
      exact ht.cons (x := .removed adx) hput hlt (by simp [Change.isInsertion_iff])
  | evictLineInSet adx =>
      obtain ⟨l, c₁, k₀, m, hev, hok, hm, hset, htag, _, _, hst⟩ := ok.evictLineInSet hchecked
      rw [show c.perform (.evictLineInSet adx) = c.evictLineInSet adx from rfl, hev] at heq
      cases heq
      obtain ⟨a, ha⟩ := (ht.present k₀).mp (by rw [hm]; rfl)
      have hkey : l.getTag * 1024 + lineKey adx % 1024 = k₀ := by omega
      have ha_key : lineKey a = k₀ := lineKey_of_lastWithKey ha
      have hput : Put c a none c' := ⟨hok, fun k => by rw [hst, ha_key]⟩
      have ha' : lastWithKey k₀ (cs.filter fun x => x.IsInsertion) = some (.inserted a) := by
        rw [lastWithKey, List.find?_filter]
        exact find?_of_find? (fun y _ hy => by simp_all) ha
          (by simp [Change.address, Change.IsInsertion, ha_key])
      simp only [CallRecord.change, hkey, ha']
      exact ht.cons (x := .removed a) hput (ht.lt (.inserted a) (List.mem_of_find?_eq_some ha))
        (by simp [Change.isInsertion_iff])
  | setExclusive adx =>
      obtain ⟨m, hm⟩ := held hchecked
      exact state hm (ok.setExclusive hm) heq
  | setModified adx =>
      obtain ⟨m, hm⟩ := held hchecked
      exact state hm (ok.setModified hm) heq
  | setShared adx =>
      obtain ⟨m, hm⟩ := held hchecked
      exact state hm (ok.setShared hm) heq
  | updateLRU adx =>
      obtain ⟨m, hm⟩ := held hchecked
      exact state hm (ok.updateLRU hm) heq

/-- The call on the set of the address. -/
def Op.onSet (c : Cache) : Op → CacheSet.Op
  | .insertLine adx => .insertLine (c.getTag adx)
  | .invalidate adx => .invalidate (c.getTag adx)
  | .evictLineInSet _ => .evict
  | .setExclusive adx => .setExclusive (c.getTag adx)
  | .setModified adx => .setModified (c.getTag adx)
  | .setShared adx => .setShared (c.getTag adx)
  | .updateLRU adx => .updateLRU (c.getTag adx)

theorem performed (heq : c.perform op = .ok (line, c')) : ∃ set set',
    c.setOf op.address = .ok set ∧ set.perform (op.onSet c) = .ok (line, set')
      ∧ c' = c.putSet op.address set' := by
  have peel {f : CacheSet → Outcome CacheSet} {adx : Nat} {u : Outcome Unit} {c₁ : Cache}
      (h0 : (do u; pure (c.putSet adx (← f (← c.setOf adx)))) = Except.ok c₁) :
      ∃ set set', c.setOf adx = .ok set ∧ f set = .ok set' ∧ c₁ = c.putSet adx set' := by
    obtain ⟨_, _, h0⟩ := Outcome.bind_eq_ok.mp h0
    obtain ⟨set, hset, h0⟩ := Outcome.bind_eq_ok.mp h0
    obtain ⟨set', hset', h0⟩ := Outcome.bind_eq_ok.mp h0
    cases h0
    exact ⟨set, set', hset, hset', rfl⟩
  cases op with
  | insertLine adx =>
      obtain ⟨c₁, h0, hc⟩ := Outcome.bind_eq_ok.mp heq
      obtain ⟨full, _, h0⟩ := Outcome.bind_eq_ok.mp (show c.insertLine adx = _ from h0)
      obtain ⟨set, set', hset, hset', rfl⟩ := peel h0
      cases hc
      exact ⟨set, set', hset, by simp [CacheSet.perform, Op.onSet, hset'], rfl⟩
  | evictLineInSet adx =>
      obtain ⟨set, hset, h0⟩ := Outcome.bind_eq_ok.mp (show c.evictLineInSet adx = _ from heq)
      obtain ⟨⟨line', set'⟩, hset', h0⟩ := Outcome.bind_eq_ok.mp h0
      cases h0
      exact ⟨set, set', hset, hset', rfl⟩
  | invalidate adx | setExclusive adx | setModified adx | setShared adx | updateLRU adx =>
      obtain ⟨c₁, h0, hc⟩ := Outcome.bind_eq_ok.mp heq
      obtain ⟨set, set', hset, hset', rfl⟩ := peel h0
      cases hc
      exact ⟨set, set', hset, by simp [CacheSet.perform, Op.onSet, hset'], rfl⟩

/-! ## Runs -/

/-- No line ever carries the number of its set. -/
def SetNumsZero (c : Cache) : Prop := ∀ set ∈ c.setArry, ∀ l ∈ set.lineArry, l.getSetNumber = 0

theorem setNumsZero_perform (hz : SetNumsZero c) (heq : c.perform op = .ok (line, c')) :
    SetNumsZero c' := by
  obtain ⟨set, set', hset, hop, rfl⟩ := performed heq
  intro set₁ hset₁
  rcases List.mem_or_eq_of_mem_set hset₁ with hset₁ | rfl
  · exact hz set₁ hset₁
  · have hmem := List.mem_of_getElem? (getElem?_of_setOf hset)
    exact (CacheSet.performed hop).getSetNumber (hz set hmem)

theorem Calls.tracks (hcalls : Calls h c) : Tracks (changes h) c := by
  induction hcalls with
  | new => exact ⟨ok_new, fun k => by simp [stateAt_new, changes, lastWithKey], by simp [changes]⟩
  | call op _ hlt hchecked heq ih => exact ih.perform hlt hchecked heq

theorem Calls.setNumsZero (hcalls : Calls h c) : SetNumsZero c := by
  induction hcalls with
  | new =>
      intro set hset l hl
      obtain ⟨i, rfl⟩ := mem_setArry_new hset
      obtain ⟨j, hj⟩ := List.mem_iff_getElem?.mp hl
      rw [CacheSet.getElem?_new hj]; rfl
  | call op _ _ _ heq ih => exact setNumsZero_perform ih heq

/-- The cache finds whatever has the same key. -/
theorem Tracks.contains_iff (ht : Tracks cs c) (adx : Nat) :
    c.contains adx = .ok true ↔ ∃ a, lastWithKey (lineKey adx) cs = some (.inserted a) := by
  rw [ht.ok.contains, Except.ok.injEq, Cache.get, ht.present]

/-- `getAddress` puts the number of the set below the stored tag. -/
theorem Ok.getAddress_eq (ok : Ok c) {n tag : Nat} (hn : n < 1024) (htag : tag < 2 ^ 32) :
    c.getAddress n tag = tag * 2 ^ 15 + n * 32 := by
  have hset : (n <<< 5) % 2 ^ 32 = n * 32 := by
    rw [Nat.shiftLeft_eq]; omega
  have hshift : (tag <<< 15) % 2 ^ 64 = tag <<< 15 := by
    rw [Nat.shiftLeft_eq]; omega
  rw [getAddress, ok.paragraphBitSize, ok.addressLen, ok.tagSize, show subU32 64 49 = 15 by rfl,
    hset, hshift, Nat.or_comm, ← Nat.shiftLeft_add_eq_or_of_lt (by omega), Nat.shiftLeft_eq]

/-- With the 32 bits of the tag that a line keeps, `getAddress` gets back to its address from the
right set, if no more bits were needed. -/
theorem Ok.getAddress_iff (ok : Ok c) {n a : Nat} (hn : n < 1024) (ha : a < 2 ^ 64) :
    c.getAddress n (lineKey a / 1024) = c.getLineAlignedAddress a
      ↔ n = c.getAdxSetNum a ∧ a < 2 ^ 47 := by
  have htag : lineKey a / 1024 < 2 ^ 32 := by
    rw [lineKey]; omega
  rw [ok.getAddress_eq hn htag, ok.getLineAlignedAddress ha, ok.getAdxSetNum, lineKey]
  omega

/-- Every line in the cache came in with some address, of which it keeps the set and 32 bits of
the tag. -/
theorem Tracks.cameWith (ht : Tracks (changes h) c) {k j : Nat} {l : CacheLine}
    (hl : c.lineAt k j = some l) (hv : l.isValid = true) : ∃ a, CameWith h k l a ∧ a < 2 ^ 64
      ∧ k = lineKey a % 1024 ∧ l.getTag = lineKey a / 1024 := by
  obtain ⟨set, hset, hj⟩ := Option.bind_eq_some_iff.mp hl
  have hk : k < 1024 := by
    rw [← ht.ok.length]
    exact (List.getElem?_eq_some_iff.mp hset).1
  have hmod : (l.getTag * 1024 + k) % 1024 = k := by omega
  have hdiv : (l.getTag * 1024 + k) / 1024 = l.getTag := by omega
  have hst : c.stateAt (l.getTag * 1024 + k) = some l.getMESI := by
    rw [stateAt_of_setArry (by rw [hmod]; exact hset), hdiv]
    exact (CacheSet.stateOf_eq_some (ht.ok.sets set (List.mem_of_getElem? hset)).tags).mpr
      ⟨j, l, hj, hv, rfl, rfl⟩
  obtain ⟨a, ha⟩ := (ht.present _).mp (by rw [hst]; rfl)
  have hkey : lineKey a = l.getTag * 1024 + k := lineKey_of_lastWithKey ha
  exact ⟨a, ha, ht.lt (.inserted a) (List.mem_of_find?_eq_some ha), by rw [hkey, hmod],
    by rw [hkey, hdiv]⟩

/-- **What the cache distinguishes.** `contains` is right about an address unless the last change to
a line that agrees with it in the set and in the low 32 bits of the tag was to another line, and
was not the change its own line would have needed. From the number of the set in which a line is,
`getAddress` gives back its address exactly when that is below `2 ^ 47`; from the number that the
line itself carries, this takes in addition that it is the right one. -/
theorem cache_distinguishes (h : List CallRecord) (c : Cache) (hcalls : Calls h c) :
    (∀ adx < 2 ^ 64, (c.contains adx = .ok true ↔ Held h c adx) ↔ ¬ Clash h c adx)
      ∧ ∀ k j l, c.lineAt k j = some l → l.isValid = true → ∃ a, CameWith h k l a
        ∧ (c.getAddress k l.getTag = c.getLineAlignedAddress a ↔ a < 2 ^ 47)
        ∧ (c.getAddress l.getSetNumber l.getTag = c.getLineAlignedAddress a
          ↔ l.getSetNumber = c.getAdxSetNum a ∧ a < 2 ^ 47) := by
  have ht := hcalls.tracks
  refine ⟨fun adx hadx => ?_, fun k j l hl hv => ?_⟩
  · have sameKey {x : Change} (hx : x ∈ changes h)
        (hline : c.getLineAlignedAddress x.address = c.getLineAlignedAddress adx) :
        lineKey x.address = lineKey adx := by
      rw [← ht.ok.lineKey_getLineAlignedAddress (ht.lt x hx), hline,
        ht.ok.lineKey_getLineAlignedAddress hadx]
    rw [ht.contains_iff]
    cases hlast : lastWithKey (lineKey adx) (changes h) with
    | none =>
        have hnone : ¬ Held h c adx := fun ⟨a, ha⟩ => by
          have hmem := List.mem_of_find?_eq_some ha
          have hno := List.find?_eq_none.mp hlast (.inserted a) hmem
          exact hno (by simpa using sameKey hmem (by simpa using List.find?_some ha))
        simp [Clash, hlast, hnone]
    | some x =>
        have hx := List.mem_of_find?_eq_some hlast
        by_cases hline : c.getLineAlignedAddress x.address = c.getLineAlignedAddress adx
        · have hfind : (changes h).find?
              (fun x => c.getLineAlignedAddress x.address = c.getLineAlignedAddress adx) = some x :=
            find?_of_find? (fun y hy hq => by simpa using sameKey hy (by simpa using hq)) hlast
              (by simpa using hline)
          simp [Clash, Held, hlast, hfind, hline]
        · -- the change to the other line decides what `contains` says
          simp only [Clash, hlast, Option.some.injEq, exists_eq_left', ← Change.isInsertion_iff]
          tauto
  · obtain ⟨a, ha, hlt, hk, htag⟩ := ht.cameWith hl hv
    rw [← ht.ok.getAdxSetNum] at hk
    have hk_lt : k < 1024 := by
      rw [hk, ht.ok.getAdxSetNum]; omega
    obtain ⟨set, hset, hmem⟩ := Option.bind_eq_some_iff.mp hl
    have hzero := hcalls.setNumsZero set (List.mem_of_getElem? hset) l (List.mem_of_getElem? hmem)
    refine ⟨a, ha, ?_⟩
    rw [htag]
    refine ⟨?_, ht.ok.getAddress_iff (by omega) hlt⟩
    rw [ht.ok.getAddress_iff hk_lt hlt]
    exact and_iff_right hk

/-- The calls of a list, the latest first, if each is checked and goes through. -/
def performAll : List Op → Option (List CallRecord × Cache)
  | [] => some ([], Cache.new ADX_LEN NUM_SETS LINES_PER_SET BYTES_PER_LINE)
  | op :: older => do
      let (h, c) ← performAll older
      guard (op.address < 2 ^ 64 ∧ op.Checked c)
      let (line, c') ← (c.perform op).toOption
      pure (⟨op, line⟩ :: h, c')

theorem calls_of_performAll {ops : List Op} (hops : performAll ops = some (h, c)) : Calls h c := by
  induction ops generalizing h c with
  | nil => cases hops; exact .new
  | cons op older ih =>
      obtain ⟨⟨h₀, c₀⟩, hold, hops⟩ := Option.bind_eq_some_iff.mp hops
      obtain ⟨_, hguard, hops⟩ := Option.bind_eq_some_iff.mp hops
      obtain ⟨⟨line, c'⟩, hop, hops⟩ := Option.bind_eq_some_iff.mp hops
      cases hops
      have hok : op.address < 2 ^ 64 ∧ op.Checked c₀ := by
        simpa [guard] using hguard
      have hop : c₀.perform op = .ok (line, c) := by
        cases hr : c₀.perform op <;> simp_all [Except.toOption]
      exact .call op (ih hold) hok.1 hok.2 hop

/-- A run that exists because it can be computed. -/
theorem exists_calls (ops : List Op) (p : List CallRecord → Cache → Bool)
    (hp : (performAll ops).any (fun hc => p hc.1 hc.2) = true) :
    ∃ h c, Calls h c ∧ p h c = true := by
  obtain ⟨⟨h, c⟩, hops, hp⟩ := (Option.any_eq_true _ _).mp hp
  exact ⟨h, c, calls_of_performAll hops, hp⟩

/-- The address `2 ^ 47` further on is found as well. -/
theorem not_distinguishes : ¬ Distinguishes := by
  intro hclaim
  obtain ⟨h, c, hcalls, hp⟩ := exists_calls [.insertLine 64]
    (fun h c => decide (c.contains (64 + 2 ^ 47) = .ok true ∧ ¬ Held h c (64 + 2 ^ 47)))
    (by decide +kernel)
  obtain ⟨hcontains, hheld⟩ := of_decide_eq_true hp
  exact hheld (((hclaim h c hcalls).1 (64 + 2 ^ 47) (by decide)).mp hcontains)

/-- The line of 64 is evicted from a full set, and the line `2 ^ 47` further on takes its place. -/
theorem cache_distinguishes_fill_and_evict : ∃ h c, Calls h c ∧ Clash h c 64
    ∧ c.contains 64 = .ok true ∧ ¬ Held h c 64 ∧ Held h c (64 + 2 ^ 15)
    ∧ (c.contains (64 + 2 ^ 15) = .ok true ↔ Held h c (64 + 2 ^ 15)) := by
  obtain ⟨h, c, hcalls, hp⟩ := exists_calls
    [.insertLine (64 + 2 ^ 47), .evictLineInSet (64 + 2 ^ 47), .insertLine (64 + 3 * 2 ^ 15),
      .insertLine (64 + 2 * 2 ^ 15), .insertLine (64 + 2 ^ 15), .insertLine 64]
    (fun h c => decide (Clash h c 64 ∧ c.contains 64 = .ok true ∧ ¬ Held h c 64
      ∧ Held h c (64 + 2 ^ 15) ∧ ¬ Clash h c (64 + 2 ^ 15))) (by decide +kernel)
  obtain ⟨hclash, hcontains, hgone, hheld, hno⟩ := of_decide_eq_true hp
  exact ⟨h, c, hcalls, hclash, hcontains, hgone, hheld,
    ((cache_distinguishes h c hcalls).1 (64 + 2 ^ 15) (by decide)).mpr hno⟩

end Cache

end CoherenceSim
