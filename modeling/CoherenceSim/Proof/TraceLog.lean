import CoherenceSim.Model.Main
import CoherenceSim.Model.MemTrace
import CoherenceSim.Lib.Outcome

/-!
# The tracer writes what was referenced

A thread's log holds frames: a pointer to the header of a trace, and the addresses of its
references, or zeros for those that were not made. Behind the frames there is at least one empty
slot. `Holds` says this, and that the cursor stands behind the last frame. The file and the frames
together are at every moment what was referenced so far, whether or not the log was flushed in
between; and the file is one that the simulator reads.
-/

namespace CoherenceSim.MemTrace

/-! ## Headers -/

/-- The references of an instruction, in the order in which they are logged. -/
def Ins.references (ins : Ins) : List Ref :=
  (if ins.isMemoryRead && ins.isStandardMemop then [⟨ins.address, true⟩] else [])
    ++ (if ins.isMemoryWrite && ins.isStandardMemop then [⟨ins.address, false⟩] else [])
    ++ (if ins.hasMemoryRead2 && ins.isStandardMemop then [⟨ins.address, true⟩] else [])

/-- The references of a trace. -/
def references (trace : List (List Ins)) : List Ref := trace.flatten.flatMap Ins.references

/-- The header of a trace with these references. -/
def header (refs : List Ref) : TraceHeader where
  logBytes := sizeofADDRINT * (refs.length + 1)
  cmds := List.replicate refs.length .immediate
  refs := refs

/-- Where the frames of a trace with `n` references have the addresses from the `j`-th on, seen from
their ends. -/
def offsetsFrom (n j m : Nat) : List Int :=
  (List.range' j m).map fun i => ((sizeofADDRINT * (i + 1) : Nat) : Int) - (sizeofADDRINT * (n + 1) : Nat)

/-- The temporary header after these references. -/
structure Scratch (made : List Ref) (h : ScratchTraceHeader) : Prop where
  frameOffset : h.frameOffset = sizeofADDRINT * (made.length + 1)
  cmds : h.cmds = List.replicate made.length .immediate
  refs : h.refs = made
  offsets : h.calls.map Call.offset
    = (List.range' 0 made.length).map fun i => sizeofADDRINT * (i + 1)

namespace Scratch

variable {refs : List Ref} {h : ScratchTraceHeader}

theorem recordLogImmediate (hs : Scratch refs h) (ins : Ins) (itype : IargType) :
    Scratch (refs ++ [⟨ins.address, itype ≠ .memoryWriteEA⟩]) (h.recordLogImmediate ins itype) where
  frameOffset := by
    rw [ScratchTraceHeader.recordLogImmediate, hs.frameOffset, List.length_append]
    rfl
  cmds := by
    rw [ScratchTraceHeader.recordLogImmediate, hs.cmds, List.length_append, List.replicate_add]
    rfl
  refs := by rw [ScratchTraceHeader.recordLogImmediate, hs.refs]
  offsets := by
    rw [ScratchTraceHeader.recordLogImmediate, List.map_append, hs.offsets, List.length_append,
      ← List.range'_append, List.map_append, hs.frameOffset]
    simp

/-- What a test of `InstrumentBBL` adds. -/
theorem recordIf (hs : Scratch refs h) (b : Bool) (ins : Ins) (itype : IargType) :
    Scratch (refs ++ if b then [⟨ins.address, itype ≠ .memoryWriteEA⟩] else [])
      (if b then h.recordLogImmediate ins itype else h) := by
  cases b with
  | true => exact hs.recordLogImmediate ins itype
  | false => simpa using hs

theorem instrumentIns (hs : Scratch refs h) (ins : Ins) :
    Scratch (refs ++ ins.references) (h.instrumentIns ins) := by
  rw [Ins.references, ← List.append_assoc, ← List.append_assoc]
  exact ((hs.recordIf _ ins .memoryReadEA).recordIf _ ins .memoryWriteEA).recordIf _ ins
    .memoryRead2EA

theorem instrumentBBL (bbl : List Ins) : ∀ {refs : List Ref} {h : ScratchTraceHeader},
    Scratch refs h → Scratch (refs ++ bbl.flatMap Ins.references) (h.instrumentBBL bbl) := by
  induction bbl with
  | nil =>
      intro refs h hs
      rw [List.flatMap_nil, List.append_nil]
      exact hs
  | cons ins bbl ih =>
      intro refs h hs
      rw [List.flatMap_cons, ← List.append_assoc]
      exact ih (hs.instrumentIns ins)

theorem instrumentTrace (trace : List (List Ins)) : ∀ {refs : List Ref} {h : ScratchTraceHeader},
    Scratch refs h →
      Scratch (refs ++ references trace) (trace.foldl ScratchTraceHeader.instrumentBBL h) := by
  induction trace with
  | nil => intro refs h hs; simpa [references] using hs
  | cons bbl trace ih =>
      intro refs h hs
      rw [references, List.flatten_cons, List.flatMap_append, ← List.append_assoc]
      exact ih (hs.instrumentBBL bbl)

end Scratch

/-- **What is put into a trace.** -/
theorem instrumentTrace_eq (trace : List (List Ins)) : instrumentTrace trace
    = if references trace = [] then none
      else some ⟨header (references trace),
        offsetsFrom (references trace).length 0 (references trace).length⟩ := by
  have hnew : Scratch [] .new := ⟨rfl, rfl, rfl, rfl⟩
  have hs := Scratch.instrumentTrace trace hnew
  rw [List.nil_append] at hs
  rw [instrumentTrace, ScratchTraceHeader.numCmds, hs.cmds, List.length_replicate]
  by_cases hnil : references trace = []
  · rw [if_pos hnil, if_pos (by rw [hnil]; rfl)]
  · rw [if_neg hnil, if_neg fun h0 => hnil (List.eq_nil_of_length_eq_zero h0)]
    congr 1
    rw [Instrumented.mk.injEq]
    constructor
    · rw [TraceHeader.new, header, hs.frameOffset, hs.cmds, hs.refs]
    · have hoffsets := congrArg (List.map fun o : Nat =>
        (o : Int) - (sizeofADDRINT * ((references trace).length + 1) : Nat)) hs.offsets
      rw [List.map_map, List.map_map] at hoffsets
      rw [offsetsFrom, hs.frameOffset]
      exact hoffsets

/-! ## Slots -/

section

variable {m : Mlog} {pre post : List Slot} {s : Slot}

theorem Mlog.slot_eq (h : m.data = pre ++ s :: post) :
    m.slot ((sizeofADDRINT * pre.length : Nat) : Int) = .ok pre.length := by
  have hlen : m.data.length = pre.length + (post.length + 1) := by
    rw [h, List.length_append, List.length_cons]
  rw [Mlog.slot, Mlog.logEnd, hlen, sizeofADDRINT, if_pos (by omega)]
  congr 1
  omega

theorem Mlog.load_eq (h : m.data = pre ++ s :: post) :
    m.load (sizeofADDRINT * pre.length) = .ok s := by
  rw [Mlog.load, Mlog.slot_eq h, Outcome.ok_bind, h, List.getElem?_append_right (Nat.le_refl _),
    Nat.sub_self]
  rfl

theorem Mlog.store_eq (h : m.data = pre ++ s :: post) (s' : Slot) :
    m.store ((sizeofADDRINT * pre.length : Nat) : Int) s'
      = .ok { m with data := pre ++ s' :: post } := by
  rw [Mlog.store, Mlog.slot_eq h, Outcome.ok_bind, h, List.set_append_right _ _ (Nat.le_refl _),
    Nat.sub_self]
  rfl

end

/-! ## Frames -/

/-- A trace that was run, with an address for every reference it can make. -/
structure Frame where
  refs : List Ref
  addresses : List UInt64
  complete : addresses.length = refs.length

namespace Frame

def slots (f : Frame) : List Slot := .pointer (header f.refs) :: f.addresses.map .value

/-- The references that were made. -/
def madeOf : List Ref → List UInt64 → List Ref
  | ref :: refs, a :: addresses => (if a = 0 then [] else [ref]) ++ madeOf refs addresses
  | _, _ => []

def made (f : Frame) : List Ref := madeOf f.refs f.addresses

theorem length_slots (f : Frame) : f.slots.length = f.refs.length + 1 := by
  rw [slots, List.length_cons, List.length_map, f.complete]

end Frame

/-- The slots of some frames. -/
def slotsOf (frames : List Frame) : List Slot := frames.flatMap Frame.slots

theorem slotsOf_append (frames : List Frame) (f : Frame) :
    slotsOf (frames ++ [f]) = slotsOf frames ++ f.slots := by
  simp [slotsOf]

/-- The lines of these references. -/
def linesOf (refs : List Ref) : List Char := refs.flatMap Mlog.line

theorem linesOf_append (refs refs' : List Ref) :
    linesOf (refs ++ refs') = linesOf refs ++ linesOf refs' := List.flatMap_append

theorem linesOf_singleton (ref : Ref) : linesOf [ref] = Mlog.line ref := List.append_nil _

/-- **A frame is expanded** to the lines of its references that were made. -/
theorem Mlog.expandTrace_eq {m : Mlog} {post : List Slot} (refs : List Ref) :
    ∀ (addresses : List UInt64) (pre : List Slot), addresses.length = refs.length →
      m.data = pre ++ (addresses.map Slot.value ++ post) →
      m.expandTrace true (List.replicate refs.length .immediate) refs (sizeofADDRINT * pre.length)
        = .ok (linesOf (Frame.madeOf refs addresses)) := by
  induction refs with
  | nil => exact fun _ _ _ _ => rfl
  | cons ref refs ih =>
      intro addresses pre hlen hdata
      cases addresses with
      | nil => cases hlen
      | cons a addresses =>
          rw [List.map_cons, List.cons_append] at hdata
          have hrest := ih addresses (pre ++ [.value a]) (Nat.succ.inj hlen)
            (by rw [hdata, List.append_assoc]; rfl)
          rw [List.length_append, List.length_singleton, Nat.mul_succ] at hrest
          have hslot : (Slot.value a = EMPTY_SLOT) = (a = 0) := by
            rw [EMPTY_SLOT, Slot.value.injEq]
          simp only [List.length_cons, List.replicate_succ, expandTrace, expandRef, load_eq hdata,
            Outcome.ok_bind, Outcome.pure_eq_ok, numLogBytes, hrest, if_true, hslot, Frame.madeOf,
            linesOf_append]
          by_cases ha : a = 0
          · rw [if_pos ha, if_pos ha]
            rfl
          · rw [if_neg ha, if_neg ha, linesOf_singleton]

/-- The loop of `Expand` goes through the frames. -/
theorem Mlog.expandFrames_eq {m : Mlog} {k : Nat} (frames : List Frame) :
    ∀ (fuel : Nat) (pre : List Slot), frames.length < fuel →
      m.data = pre ++ (slotsOf frames ++ List.replicate (k + 1) EMPTY_SLOT) →
      m.expandFrames true fuel (sizeofADDRINT * pre.length)
        = .ok (linesOf (frames.flatMap Frame.made)) := by
  induction frames with
  | nil =>
      intro fuel pre hfuel hdata
      obtain ⟨fuel, rfl⟩ := Nat.exists_eq_add_of_lt hfuel
      rw [slotsOf, List.flatMap_nil, List.nil_append, List.replicate_succ] at hdata
      rw [expandFrames, load_eq hdata, Outcome.ok_bind, if_pos rfl]
      rfl
  | cons f frames ih =>
      intro fuel pre hfuel hdata
      obtain ⟨fuel, rfl⟩ := Nat.exists_eq_add_of_lt hfuel
      have hslots : m.data = pre ++ (.pointer (header f.refs) :: (f.addresses.map Slot.value
          ++ (slotsOf frames ++ List.replicate (k + 1) EMPTY_SLOT))) := by
        rw [hdata, slotsOf, List.flatMap_cons, List.append_assoc]
        rfl
      have htext := expandTrace_eq (m := m) f.refs f.addresses (pre ++ [.pointer (header f.refs)])
        f.complete (by rw [hslots, List.append_assoc]; rfl)
      have hrest := ih ((f :: frames).length + fuel) (pre ++ f.slots)
        (by rw [List.length_cons]; omega)
        (by rw [hdata, slotsOf, List.flatMap_cons, List.append_assoc, List.append_assoc]; rfl)
      rw [List.length_append, List.length_singleton, Nat.mul_succ] at htext
      rw [List.length_append, f.length_slots, Nat.mul_add] at hrest
      rw [expandFrames, load_eq hslots, Outcome.ok_bind, if_neg (by exact fun h => by cases h)]
      dsimp only [header] at htext ⊢
      rw [htext, Outcome.ok_bind, hrest, Outcome.ok_bind, List.flatMap_cons, linesOf_append]
      rfl

/-- The frames of a log of `size` slots, and the cursor behind them. -/
structure Holds (size : Nat) (frames : List Frame) (t : Thread) : Prop where
  data : t.mlog.data = slotsOf frames ++ List.replicate (size - (slotsOf frames).length) EMPTY_SLOT
  room : (slotsOf frames).length < size
  logCursor : t.logCursor = sizeofADDRINT * (slotsOf frames).length

namespace Holds

variable {size : Nat} {frames : List Frame} {t : Thread}

theorem length_le (frames : List Frame) : frames.length ≤ (slotsOf frames).length := by
  induction frames with
  | nil => exact Nat.le_refl _
  | cons f frames ih =>
      rw [slotsOf, List.flatMap_cons, List.length_append, f.length_slots, List.length_cons]
      have : (slotsOf frames).length = (frames.flatMap Frame.slots).length := rfl
      omega

theorem length_data (h : Holds size frames t) : t.mlog.data.length = size := by
  rw [h.data, List.length_append, List.length_replicate]
  have := h.room
  omega

/-- **A flush** writes what was referenced and leaves an empty log. -/
theorem expand (h : Holds size frames t) : t.mlog.expand true
    = .ok ⟨List.replicate size EMPTY_SLOT, t.mlog.ofile ++ linesOf (frames.flatMap Frame.made)⟩ := by
  have hroom := h.room
  have hlen := length_le frames
  have hdata := h.data
  rw [show size - (slotsOf frames).length = (size - (slotsOf frames).length - 1) + 1 by omega] at hdata
  have htext := Mlog.expandFrames_eq frames (t.mlog.data.length + 1) []
    (by rw [h.length_data]; omega) hdata
  rw [Mlog.expand, if_neg (by decide)]
  rw [List.length_nil, Nat.mul_zero] at htext
  rw [htext, Outcome.ok_bind, Mlog.emptied, Mlog.logEnd, h.length_data, sizeofADDRINT,
    Nat.mul_div_cancel_left _ (by omega)]
  rfl

theorem start (hsize : 0 < size) : Holds size [] (.start (sizeofADDRINT * size)) where
  data := by
    rw [Thread.start, Mlog.new, Mlog.emptied, sizeofADDRINT, Nat.mul_div_cancel_left _ (by omega)]
    rfl
  room := hsize
  logCursor := rfl

end Holds

/-! ## Running a trace -/

/-- The addresses that were passed to the first calls, and zeros for the others. -/
def padded : Nat → List UInt64 → List UInt64
  | 0, _ => []
  | n + 1, a :: addresses => a :: padded n addresses
  | n + 1, [] => 0 :: padded n []

theorem length_padded (n : Nat) : ∀ addresses : List UInt64, (padded n addresses).length = n := by
  induction n with
  | zero => exact fun _ => rfl
  | succ n ih =>
      intro addresses
      cases addresses with
      | nil => rw [padded, List.length_cons, ih]
      | cons a addresses => rw [padded, List.length_cons, ih]

theorem map_padded_nil (n : Nat) : (padded n []).map Slot.value = List.replicate n EMPTY_SLOT := by
  induction n with
  | zero => rfl
  | succ n ih =>
      rw [padded, List.map_cons, ih, List.replicate_succ]
      rfl

theorem madeOf_padded (refs : List Ref) : ∀ addresses : List UInt64,
    Frame.madeOf refs (padded refs.length addresses) = Frame.madeOf refs addresses := by
  induction refs with
  | nil => exact fun _ => rfl
  | cons ref refs ih =>
      intro addresses
      cases addresses with
      | nil =>
          rw [List.length_cons, padded, Frame.madeOf, ih, if_pos rfl]
          cases refs <;> rfl
      | cons a addresses => rw [List.length_cons, padded, Frame.madeOf, Frame.madeOf, ih]

/-- The frame that is left by a trace with these references. -/
def frameOf (refs : List Ref) (addresses : List UInt64) : Frame :=
  ⟨refs, padded refs.length addresses, length_padded _ _⟩

/-- **The calls fill the frame** from its front. -/
theorem Thread.recordImmediates (n k : Nat) (m : Nat) : ∀ (j : Nat) (addresses : List UInt64)
    (pre : List Slot) (t : Thread), j + m = n →
      t.mlog.data = pre ++ List.replicate (m + k) EMPTY_SLOT →
      t.logCursor = sizeofADDRINT * (pre.length + m) →
      ((offsetsFrom n j m).zip addresses).foldlM (fun t c => t.recordImmediate c.1 c.2) t
        = .ok { t with mlog := { t.mlog with
            data := pre ++ ((padded m addresses).map Slot.value ++ List.replicate k EMPTY_SLOT) } } := by
  induction m with
  | zero =>
      intro j addresses pre t _ hdata _
      rw [Nat.zero_add] at hdata
      simp only [offsetsFrom, List.range'_zero, List.map_nil, List.zip_nil_left, List.foldlM_nil,
        padded, List.nil_append, ← hdata]
      rfl
  | succ m ih =>
      intro j addresses pre t hj hdata hcursor
      cases addresses with
      | nil =>
          rw [List.zip_nil_right, List.foldlM_nil, map_padded_nil, ← List.replicate_add, ← hdata]
          rfl
      | cons a addresses =>
          -- the first slot of the rest is as far from the end as its offset says
          have hoffset : (t.logCursor : Int) + (((sizeofADDRINT * (j + 1) : Nat) : Int)
              - (sizeofADDRINT * (n + 1) : Nat)) = (sizeofADDRINT * pre.length : Nat) := by
            rw [hcursor, sizeofADDRINT]
            omega
          rw [show m + 1 + k = (m + k) + 1 by omega, List.replicate_succ] at hdata
          have hrest := ih (j + 1) addresses (pre ++ [.value a])
            { t with mlog := { t.mlog with
              data := pre ++ (.value a :: List.replicate (m + k) EMPTY_SLOT) } } (by omega)
            (by rw [List.append_assoc]; rfl)
            (by
              rw [List.length_append, List.length_singleton]
              exact hcursor.trans (by congr 1; omega))
          rw [offsetsFrom, List.range'_succ, List.map_cons, List.zip_cons_cons, List.foldlM_cons,
            Thread.recordImmediate, hoffset, Mlog.store_eq hdata]
          refine hrest.trans ?_
          rw [padded, List.map_cons, List.append_assoc]
          rfl

/-- A trace fits if its frame, where it has one, leaves room in an empty log. -/
def Fits (size : Nat) (e : Execution) : Prop :=
  references e.trace ≠ [] → (references e.trace).length + 1 < size

/-- The references that were made. -/
def Execution.made (e : Execution) : List Ref := Frame.madeOf (references e.trace) e.addresses

/-- What was referenced so far is in the file, or in the log. -/
def Logged (size : Nat) (refs : List Ref) (t : Thread) : Prop :=
  ∃ frames, Holds size frames t
    ∧ t.mlog.ofile ++ linesOf (frames.flatMap Frame.made) = linesOf refs

/-- A frame is put behind the others. -/
theorem Holds.push {size : Nat} {frames : List Frame} {t : Thread} (h : Holds size frames t)
    {refs : List Ref} (hroom : (slotsOf frames).length + (refs.length + 1) < size)
    (addresses : List UInt64) : ∃ t', t.recordTraceBegin (header refs) (header refs).logBytes = .ok t'
      ∧ ∃ t'', ((offsetsFrom refs.length 0 refs.length).zip addresses).foldlM
          (fun t c => t.recordImmediate c.1 c.2) t' = .ok t''
        ∧ Holds size (frames ++ [frameOf refs addresses]) t'' ∧ t''.mlog.ofile = t.mlog.ofile := by
  have hdata := h.data
  rw [show size - (slotsOf frames).length = (refs.length
    + (size - (slotsOf frames).length - (refs.length + 1))) + 1 by omega, List.replicate_succ] at hdata
  have hlen : (slotsOf (frames ++ [frameOf refs addresses])).length
      = (slotsOf frames).length + (refs.length + 1) := by
    rw [slotsOf_append, List.length_append, Frame.length_slots]
    rfl
  have hbegin : t.recordTraceBegin (header refs) (header refs).logBytes = .ok ⟨⟨slotsOf frames
      ++ (.pointer (header refs) :: List.replicate (refs.length
        + (size - (slotsOf frames).length - (refs.length + 1))) EMPTY_SLOT), t.mlog.ofile⟩,
      sizeofADDRINT * (slotsOf frames).length + (header refs).logBytes⟩ := by
    rw [Thread.recordTraceBegin, h.logCursor, Mlog.store_eq hdata]
    rfl
  have hcursor : sizeofADDRINT * (slotsOf frames).length + (header refs).logBytes
      = sizeofADDRINT * ((slotsOf frames).length + (refs.length + 1)) := (Nat.mul_add _ _ _).symm
  refine ⟨_, hbegin, _, Thread.recordImmediates refs.length
    (size - (slotsOf frames).length - (refs.length + 1)) refs.length 0 addresses
    (slotsOf frames ++ [.pointer (header refs)]) _ (by omega) (by rw [List.append_assoc]; rfl) ?_,
    ⟨?_, by rw [hlen]; exact hroom, ?_⟩, rfl⟩
  · rw [List.length_append, List.length_singleton]
    refine hcursor.trans ?_
    congr 1
    omega
  · dsimp only
    rw [hlen, slotsOf_append, List.append_assoc, List.append_assoc, Nat.sub_sub]
    rfl
  · rw [hlen]
    exact hcursor

/-- There is room for a frame that fits: behind the others, or in a flushed log. -/
theorem Logged.room {size n : Nat} {refs : List Ref} {t : Thread} (h : Logged size refs t)
    (hn : n + 1 < size) : ∃ t', (if t.traceAllocIf (sizeofADDRINT * (n + 1))
        then t.traceAllocThen true (sizeofADDRINT * (n + 1)) else pure t) = .ok t'
      ∧ ∃ frames, Holds size frames t' ∧ (slotsOf frames).length + (n + 1) < size
        ∧ t'.mlog.ofile ++ linesOf (frames.flatMap Frame.made) = linesOf refs := by
  obtain ⟨frames, hholds, hlines⟩ := h
  by_cases hfull : t.logCursor + sizeofADDRINT * (n + 1) ≥ t.mlog.logEnd
  · have hempty : t.traceAllocThen true (sizeofADDRINT * (n + 1)) = .ok ⟨⟨List.replicate size EMPTY_SLOT,
        t.mlog.ofile ++ linesOf (frames.flatMap Frame.made)⟩, 0⟩ := by
      rw [Thread.traceAllocThen, if_pos hfull, hholds.expand]
      rfl
    rw [Thread.traceAllocIf, if_pos (decide_eq_true hfull), hempty]
    refine ⟨_, rfl, [], ⟨rfl, Nat.lt_of_le_of_lt (Nat.zero_le _) hn, rfl⟩, ?_, ?_⟩
    · rw [slotsOf, List.flatMap_nil, List.length_nil]
      omega
    · rw [hlines]
      exact List.append_nil _
  · rw [Thread.traceAllocIf, if_neg (by rw [decide_eq_true_eq]; exact hfull)]
    refine ⟨t, rfl, frames, hholds, ?_, hlines⟩
    rw [hholds.logCursor, Mlog.logEnd, hholds.length_data, sizeofADDRINT] at hfull
    omega

theorem Thread.beginTrace_eq (emit : Bool) (t : Thread) (theader : TraceHeader) :
    t.beginTrace emit theader = (if t.traceAllocIf theader.logBytes
      then t.traceAllocThen emit theader.logBytes else pure t)
        >>= fun t => t.recordTraceBegin theader theader.logBytes := by
  rw [beginTrace]
  split <;> rfl

/-- **A trace that is run is logged**, whether there was a flush before it or not. -/
theorem Logged.execute {size : Nat} {refs : List Ref} {t : Thread} (h : Logged size refs t)
    {e : Execution} (hfits : Fits size e) :
    ∃ t', t.execute true e = .ok t' ∧ Logged size (refs ++ e.made) t' := by
  rw [Thread.execute, instrumentTrace_eq]
  by_cases hnil : references e.trace = []
  · have hmade : e.made = [] := by
      rw [Execution.made, hnil]
      cases e.addresses <;> rfl
    rw [if_pos hnil, hmade, List.append_nil]
    exact ⟨t, rfl, h⟩
  · rw [if_neg hnil]
    obtain ⟨t₀, hroom, frames, hholds, hlen, hlines⟩ := h.room (hfits hnil)
    obtain ⟨t', ht', t'', ht'', hholds', hofile⟩ := hholds.push hlen e.addresses
    have hmade : (frameOf (references e.trace) e.addresses).made = e.made := madeOf_padded _ _
    have hbegin : t.beginTrace true (header (references e.trace)) = .ok t' := by
      rw [Thread.beginTrace_eq]
      exact Outcome.bind_eq_ok.mpr ⟨t₀, hroom, ht'⟩
    refine ⟨t'', ?_, frames ++ [frameOf (references e.trace) e.addresses], hholds', ?_⟩
    · exact Outcome.bind_eq_ok.mpr ⟨t', hbegin, ht''⟩
    · rw [hofile, List.flatMap_append, linesOf_append, ← List.append_assoc, hlines, linesOf_append,
        List.flatMap_cons, List.flatMap_nil, List.append_nil, hmade]

/-- **A thread logs what it references.** -/
theorem Logged.executions {size : Nat} (executions : List Execution)
    (hfits : ∀ e ∈ executions, Fits size e) : ∀ {refs : List Ref} {t : Thread}, Logged size refs t →
      ∃ t', executions.foldlM (Thread.execute true) t = .ok t'
        ∧ Logged size (refs ++ executions.flatMap Execution.made) t' := by
  induction executions with
  | nil =>
      intro refs t h
      rw [List.flatMap_nil, List.append_nil]
      exact ⟨t, rfl, h⟩
  | cons e rest ih =>
      intro refs t h
      obtain ⟨t₁, ht₁, h₁⟩ := h.execute (hfits e List.mem_cons_self)
      obtain ⟨t', ht', h'⟩ := ih (fun e he => hfits e (List.mem_cons_of_mem _ he)) h₁
      rw [List.foldlM_cons, ht₁, List.flatMap_cons, ← List.append_assoc]
      exact ⟨t', ht', h'⟩

theorem Thread.run_eq {size : Nat} (hsize : 0 < size) (executions : List Execution)
    (hfits : ∀ e ∈ executions, Fits size e) : Thread.run true (sizeofADDRINT * size) executions
      = .ok (linesOf (executions.flatMap Execution.made)) := by
  obtain ⟨t, ht, frames, hholds, hlines⟩ := Logged.executions executions hfits
    ⟨[], Holds.start hsize, rfl⟩
  rw [Thread.run, ht, Outcome.ok_bind, Thread.fini, hholds.expand, Outcome.ok_bind, hlines]
  rfl

/-! ## The file -/

/-- A line, as the simulator reads it. -/
def Ref.traceLine (ref : Ref) : TraceLine := .ofAddress ref.read ref.ip

/-- A reference, as the simulator executes it: the address is that of the instruction. -/
def Ref.instruction (ref : Ref) : Instruction :=
  ⟨if ref.read then .load else .store, ref.ip.toNat, ref.ip.toNat_lt⟩

theorem linesOf_eq (refs : List Ref) :
    linesOf refs = TraceFile.text ⟨refs.map Ref.traceLine, true⟩ := by
  rw [TraceFile.text]
  induction refs with
  | nil => rfl
  | cons ref refs ih =>
      rw [List.map_cons, TraceFile.render, ← ih, linesOf, List.flatMap_cons]
      simp [Mlog.line, TraceLine.text, Ref.traceLine, TraceLine.ofAddress, File.hexMark, linesOf]

theorem instruction_traceLine (ref : Ref) : ref.traceLine.instruction = ref.instruction := by
  rw [TraceLine.instruction, Ref.instruction, Instruction.mk.injEq]
  refine ⟨?_, (hexValue_toDigits _).2⟩
  cases h : ref.read <;> simp [Ref.traceLine, TraceLine.ofAddress, h]

/-- **Everything that is referenced is in the file of its thread**, once and in order, however often
the log is flushed; and the file is a trace that the simulator reads as these references. -/
theorem trace_file_is_what_was_referenced (size : Nat) (executions : List Execution) (hsize : 0 < size)
    (hfits : ∀ e ∈ executions, references e.trace ≠ [] → (references e.trace).length + 1 < size) :
    ∃ f : TraceFile, Thread.run true (sizeofADDRINT * size) executions = .ok f.text
      ∧ f.instructions = (executions.flatMap Execution.made).map Ref.instruction := by
  refine ⟨⟨(executions.flatMap Execution.made).map Ref.traceLine, true⟩, ?_, ?_⟩
  · rw [Thread.run_eq hsize executions hfits, linesOf_eq]
  · rw [TraceFile.instructions, List.map_map]
    exact List.map_congr_left fun ref _ => instruction_traceLine ref

/-- A load and a store, twice, in a log of four slots: it is flushed in between. -/
theorem trace_file_is_what_was_referenced_flush :
    let add : Ins := ⟨0x4005d0, true, true, false, true⟩
    ∃ f : TraceFile, Thread.run true 32 [⟨[[add]], [0x7ffe10, 0x7ffe10]⟩, ⟨[[add]], [0x7ffe18]⟩]
        = .ok f.text
      ∧ f.instructions = [⟨.load, 0x4005d0, by decide⟩, ⟨.store, 0x4005d0, by decide⟩,
        ⟨.load, 0x4005d0, by decide⟩] :=
  trace_file_is_what_was_referenced 4 _ (by decide) (by decide)

/-! ## Traces that do not fit -/

/-- A frame was begun that reaches to the end of the log or over it. -/
structure Overrun (size : Nat) (t : Thread) : Prop where
  length : t.mlog.data.length = size
  logCursor : sizeofADDRINT * size ≤ t.logCursor
  first : ∃ theader, t.mlog.data[0]? = some (.pointer theader)
    ∧ sizeofADDRINT * size ≤ theader.logBytes

namespace Overrun

variable {size : Nat} {t t' : Thread}

/-- **Such a log cannot be flushed**: the loop looks for the next frame behind its end. -/
theorem expand (h : Overrun size t) (m : Mlog) : t.mlog.expand true ≠ .ok m := by
  intro hm
  obtain ⟨theader, hfirst, hbytes⟩ := h.first
  obtain ⟨rest, hdata⟩ : ∃ rest, t.mlog.data = [] ++ (.pointer theader :: rest) := by
    cases hd : t.mlog.data with
    | nil => rw [hd] at hfirst; cases hfirst
    | cons s rest =>
        rw [hd] at hfirst
        cases hfirst
        exact ⟨rest, rfl⟩
  have hload := Mlog.load_eq hdata
  rw [Mlog.expand, if_neg (by decide)] at hm
  obtain ⟨text, htext, _⟩ := Outcome.bind_eq_ok.mp hm
  rw [Mlog.expandFrames, show (0 : Nat) = sizeofADDRINT * ([] : List Slot).length from rfl, hload,
    Outcome.ok_bind, if_neg (by exact fun h0 => by cases h0)] at htext
  obtain ⟨_, _, htext⟩ := Outcome.bind_eq_ok.mp htext
  obtain ⟨_, hnext, _⟩ := Outcome.bind_eq_ok.mp htext
  rw [show t.mlog.data.length = rest.length + 1 by rw [hdata]; rfl, Mlog.expandFrames] at hnext
  obtain ⟨_, hnext, _⟩ := Outcome.bind_eq_ok.mp hnext
  obtain ⟨i, hslot, _⟩ := Outcome.bind_eq_ok.mp hnext
  rw [Mlog.slot, Mlog.logEnd, h.length] at hslot
  split at hslot
  · rename_i hin
    rw [List.length_nil, Nat.mul_zero] at hin
    omega
  · cases hslot

theorem execute (h : Overrun size t) {e : Execution} (heq : t.execute true e = .ok t') :
    Overrun size t' := by
  rw [Thread.execute, instrumentTrace_eq] at heq
  by_cases hnil : references e.trace = []
  · rw [if_pos hnil] at heq
    cases heq
    exact h
  · rw [if_neg hnil] at heq
    obtain ⟨t₀, hbegin, _⟩ := Outcome.bind_eq_ok.mp heq
    rw [Thread.beginTrace_eq] at hbegin
    obtain ⟨t₁, hroom, _⟩ := Outcome.bind_eq_ok.mp hbegin
    have hfull : t.logCursor + (header (references e.trace)).logBytes ≥ t.mlog.logEnd := by
      rw [Mlog.logEnd, h.length]
      exact Nat.le_trans h.logCursor (Nat.le_add_right _ _)
    rw [Thread.traceAllocIf, if_pos (decide_eq_true hfull), Thread.traceAllocThen, if_pos hfull]
      at hroom
    obtain ⟨m, hm, _⟩ := Outcome.bind_eq_ok.mp hroom
    exact absurd hm (h.expand m)

/-- The calls do not touch the first slot. -/
theorem recordImmediates (calls : List (Int × UInt64))
    (hcalls : ∀ c ∈ calls, (sizeofADDRINT : Int) ≤ t.logCursor + c.1) :
    ∀ {u : Thread}, u.logCursor = t.logCursor → Overrun size u →
      calls.foldlM (fun t c => t.recordImmediate c.1 c.2) u = .ok t' → Overrun size t' := by
  induction calls with
  | nil =>
      intro u _ hu heq
      cases heq
      exact hu
  | cons c calls ih =>
      intro u hcursor hu heq
      rw [List.foldlM_cons] at heq
      obtain ⟨u', hu', heq⟩ := Outcome.bind_eq_ok.mp heq
      obtain ⟨m, hm, hu'⟩ := Outcome.bind_eq_ok.mp hu'
      obtain ⟨i, hi, hm⟩ := Outcome.bind_eq_ok.mp hm
      cases hm
      cases hu'
      have hc := hcalls c List.mem_cons_self
      have hpos : 0 < i := by
        rw [Mlog.slot, hcursor] at hi
        split at hi
        · cases hi
          rw [sizeofADDRINT] at hc ⊢
          omega
        · cases hi
      have hset : Overrun size
          ⟨⟨u.mlog.data.set i (.value c.2), u.mlog.ofile⟩, u.logCursor⟩ := by
        refine ⟨List.length_set.trans hu.length, hu.logCursor, ?_⟩
        dsimp only
        rw [List.getElem?_set_ne (by omega)]
        exact hu.first
      refine ih (fun c hc => hcalls c (List.mem_cons_of_mem _ hc)) ?_ hset heq
      exact hcursor

end Overrun

/-- A trace that does not fit is begun in a flushed log, and runs over its end. -/
theorem Logged.overrun {size : Nat} {refs : List Ref} {t t' : Thread} (h : Logged size refs t)
    {e : Execution} (hfits : ¬ Fits size e) (heq : t.execute true e = .ok t') : Overrun size t' := by
  obtain ⟨hnil, hlen⟩ := Classical.not_imp.mp hfits
  obtain ⟨frames, hholds, _⟩ := h
  have hroom := hholds.room
  rw [Thread.execute, instrumentTrace_eq, if_neg hnil] at heq
  obtain ⟨t₀, hbegin, heq⟩ := Outcome.bind_eq_ok.mp heq
  rw [Thread.beginTrace_eq] at hbegin
  obtain ⟨t₁, ht₁, hbegin⟩ := Outcome.bind_eq_ok.mp hbegin
  have hfull : t.logCursor + (header (references e.trace)).logBytes ≥ t.mlog.logEnd := by
    rw [Mlog.logEnd, hholds.length_data, header, sizeofADDRINT]
    dsimp only
    omega
  rw [Thread.traceAllocIf, if_pos (decide_eq_true hfull), Thread.traceAllocThen, if_pos hfull,
    hholds.expand] at ht₁
  cases ht₁
  have hempty : List.replicate size EMPTY_SLOT = [] ++ (EMPTY_SLOT :: List.replicate (size - 1) EMPTY_SLOT) := by
    rw [List.nil_append, ← List.replicate_succ]
    congr 1
    omega
  have hstore := Mlog.store_eq (m := ⟨List.replicate size EMPTY_SLOT,
    t.mlog.ofile ++ linesOf (frames.flatMap Frame.made)⟩) hempty (.pointer (header (references e.trace)))
  rw [List.length_nil, Nat.mul_zero] at hstore
  rw [Thread.recordTraceBegin, hstore] at hbegin
  cases hbegin
  have hbegun : Overrun size ⟨⟨[] ++ (.pointer (header (references e.trace))
      :: List.replicate (size - 1) EMPTY_SLOT), t.mlog.ofile ++ linesOf (frames.flatMap Frame.made)⟩,
      0 + (header (references e.trace)).logBytes⟩ := by
    have hbytes : sizeofADDRINT * size ≤ (header (references e.trace)).logBytes :=
      Nat.mul_le_mul_left _ (by omega)
    refine ⟨?_, by rw [Nat.zero_add]; exact hbytes, header (references e.trace), rfl, hbytes⟩
    rw [List.nil_append, List.length_cons, List.length_replicate]
    omega
  refine Overrun.recordImmediates _ (fun c hc => ?_) rfl hbegun heq
  -- the addresses come behind the header
  obtain ⟨j, hj, hoffset⟩ := List.mem_map.mp (List.of_mem_zip hc).1
  rw [← hoffset, header, sizeofADDRINT]
  dsimp only
  omega

theorem Logged.run_ok {size : Nat} (executions : List Execution) :
    ∀ {refs : List Ref} {t : Thread} {m : Mlog}, Logged size refs t →
      (executions.foldlM (Thread.execute true) t >>= Thread.fini true) = .ok m →
      ∀ e ∈ executions, Fits size e := by
  have overrun (executions : List Execution) : ∀ {t : Thread} {m : Mlog}, Overrun size t →
      (executions.foldlM (Thread.execute true) t >>= Thread.fini true) ≠ .ok m := by
    induction executions with
    | nil => exact fun h heq => h.expand _ heq
    | cons e rest ih =>
        intro t m h heq
        obtain ⟨t', hrest, hfini⟩ := Outcome.bind_eq_ok.mp heq
        rw [List.foldlM_cons] at hrest
        obtain ⟨t₁, ht₁, hrest⟩ := Outcome.bind_eq_ok.mp hrest
        exact ih (h.execute ht₁) (Outcome.bind_eq_ok.mpr ⟨t', hrest, hfini⟩)
  induction executions with
  | nil => exact fun _ _ e he => by cases he
  | cons e rest ih =>
      intro refs t m h heq
      obtain ⟨t', hrest, hfini⟩ := Outcome.bind_eq_ok.mp heq
      rw [List.foldlM_cons] at hrest
      obtain ⟨t₁, ht₁, hrest⟩ := Outcome.bind_eq_ok.mp hrest
      have hrest' := Outcome.bind_eq_ok.mpr ⟨t', hrest, hfini⟩
      by_cases hfits : Fits size e
      · obtain ⟨t₂, ht₂, hlogged⟩ := h.execute hfits
        rw [ht₁] at ht₂
        cases ht₂
        intro e' he'
        rcases List.mem_cons.mp he' with rfl | he'
        · exact hfits
        · exact ih hlogged hrest' e' he'
      · exact absurd hrest' (overrun rest (h.overrun hfits ht₁))

/-- **The log is overrun exactly by a trace that does not fit.** Every access of a thread is in its
log if and only if the frame of every trace that it runs leaves a slot of an empty log free. -/
theorem log_is_overrun_iff (size : Nat) (executions : List Execution) (hsize : 0 < size) :
    (∃ text, Thread.run true (sizeofADDRINT * size) executions = .ok text)
      ↔ ∀ e ∈ executions, references e.trace ≠ [] → (references e.trace).length + 1 < size := by
  constructor
  · rintro ⟨text, hrun⟩
    obtain ⟨t, ht, hrun⟩ := Outcome.bind_eq_ok.mp hrun
    obtain ⟨m, hm, _⟩ := Outcome.bind_eq_ok.mp hrun
    exact Logged.run_ok executions ⟨[], Holds.start hsize, rfl⟩ (Outcome.bind_eq_ok.mpr ⟨t, ht, hm⟩)
  · intro hfits
    exact ⟨_, Thread.run_eq hsize executions hfits⟩

/-- Two references and a header in three slots. -/
theorem log_is_overrun_iff_three_slots :
    let add : Ins := ⟨0x4005d0, true, true, false, true⟩
    (∃ text, Thread.run true 24 [⟨[[add]], [0x7ffe10, 0x7ffe10]⟩] = .ok text)
      ↔ ∀ e ∈ [Execution.mk [[add]] [0x7ffe10, 0x7ffe10]],
        references e.trace ≠ [] → (references e.trace).length + 1 < 3 :=
  log_is_overrun_iff 3 _ (by decide)

end CoherenceSim.MemTrace
