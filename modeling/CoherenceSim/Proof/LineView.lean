import CoherenceSim.Lib.SnoopLine
import CoherenceSim.Proof.ControllerSend

/-!
# A controller as one line sees it

The protocol of `SnoopLine` is about a single line. `Controller.view` is what a controller
amounts to from the point of view of one address; every step of a controller is a step of
its view, or no step at all.

Requests are compared by address, lines by what the cache keeps of an address: the set number
and 32 bits of the tag. So all this is about runs over `Lines`, addresses that differ in what
the cache keeps of them.
-/

namespace CoherenceSim

/-- Line addresses that the cache tells apart. -/
structure Lines where
  Has : Nat → Prop
  aligned : ∀ {adx : Nat}, Has adx → Aligned adx
  apart : ∀ {a b : Nat}, Has a → Has b → lineKey a = lineKey b → a = b

/-- The instruction is about one of these lines. -/
def Instruction.In (L : Lines) (i : Instruction) : Prop := L.Has (i.address - i.address % 32)

theorem aligned_of_plain {adx : Nat} (h : adx < 2 ^ 47 ∧ adx % 32 = 0) : Aligned adx :=
  ⟨by omega, h.2⟩

theorem apart_of_plain {a b : Nat} (ha : a < 2 ^ 47 ∧ a % 32 = 0) (hb : b < 2 ^ 47 ∧ b % 32 = 0)
    (h : lineKey a = lineKey b) : a = b := by
  rw [lineKey, lineKey, Nat.mod_eq_of_lt (by omega), Nat.mod_eq_of_lt (by omega)] at h
  omega

/-- Below `2 ^ 47` the cache tells all lines apart. -/
def Lines.plain : Lines where
  Has adx := adx < 2 ^ 47 ∧ adx % 32 = 0
  aligned h := aligned_of_plain h
  apart ha hb h := apart_of_plain ha hb h

/-- Instructions with an address in that range. -/
def Instruction.Plain (i : Instruction) : Prop := i.address < 2 ^ 47

instance : DecidablePred Instruction.Plain := fun i => Nat.decLt i.address (2 ^ 47)

theorem Instruction.Plain.in_plain {i : Instruction} (h : i.Plain) : i.In .plain := by
  have h : i.address < 2 ^ 47 := h
  exact ⟨by omega, by omega⟩

namespace SnoopLine

/-- How the protocol sees the state of a cache line. -/
def copyOf : MESI → Option Copy
  | .modified | .exclusive => some .owned
  | .shared => some .shared
  | .invalid => none

/-- How the protocol sees a command. -/
def commandOf : CommandCode → Option Command
  | .busRead => some .read
  | .busReadX => some .readX
  | .busWrite => some .write
  | .dataReturnMemory => some .dataMemory
  | .dataReturnProcessor => some .dataAgent
  | .invalidate => some .invalidate
  | .shareMe => some .shareMe
  | .nullBurst => none

theorem copyOf_eq_owned {m : MESI} : copyOf m = some .owned ↔ m = .modified ∨ m = .exclusive := by
  cases m <;> simp [copyOf]

theorem copyOf_ne_none {m : MESI} (h : m ≠ .invalid) : copyOf m ≠ none := by
  cases m <;> simp [copyOf] at h ⊢

theorem delivers_commandOf {c : CommandCode} {cmd : Command} (hc : commandOf c = some cmd) :
    Delivers cmd ↔ c.Delivers := by
  cases c <;> cases hc <;> simp [Delivers, CommandCode.Delivers]

end SnoopLine

open SnoopLine

namespace Controller

/-- The record of a miss. -/
def missView (c : Controller) : Miss where
  excl := c.missCommand = .busReadX
  sent := c.busReqQueue.isEmpty
  answer :=
    if c.awaitingDataLocal then none
    else if c.gotDataReturnFromBusReadMemory then some .memory else some .agent
  sawRead := c.sawBusReadToMyIncomingAddress
  sawReadX := c.sawBusReadXToMyIncomingAddress
  sawInvalidate := c.sawInvalidateToMyIncomingAddress

/-- The urgent commands about a line. -/
def outView (q : List BusRequest) (adx : Nat) : Set Command :=
  {cmd | ∃ r ∈ q, r.payload = adx ∧ commandOf r.commandCode = some cmd}

/-- The controller, from the point of view of a line. -/
def view (c : Controller) (adx : Nat) : Agent where
  line := (c.cache.get adx).bind copyOf
  miss := if c.Missing ∧ c.awaitingDataLocalAddress = adx then some c.missView else none
  out := outView c.maxPriorityQueue adx

variable {L : Lines} {c c' : Controller} {d : BusRequest} {adx : Nat}

/-! ## The queue -/

theorem outView_cons_self {r : BusRequest} {q : List BusRequest} {cmd : Command}
    (hr : r.payload = adx) (hcmd : commandOf r.commandCode = some cmd) :
    outView (r :: q) adx = insert cmd (outView q adx) := by
  ext x
  constructor
  · rintro ⟨r', hr', hp, hx⟩
    rcases List.mem_cons.mp hr' with rfl | hr'
    · rw [hcmd] at hx; cases hx
      exact Set.mem_insert _ _
    · exact Set.mem_insert_of_mem _ ⟨r', hr', hp, hx⟩
  · rintro (rfl | ⟨r', hr', hp, hx⟩)
    · exact ⟨r, List.mem_cons_self, hr, hcmd⟩
    · exact ⟨r', List.mem_cons_of_mem _ hr', hp, hx⟩

theorem outView_cons_of_ne {r : BusRequest} {q : List BusRequest} (hr : r.payload ≠ adx) :
    outView (r :: q) adx = outView q adx := by
  ext x
  constructor
  · rintro ⟨r', hr', hp, hx⟩
    rcases List.mem_cons.mp hr' with rfl | hr'
    · exact absurd hp hr
    · exact ⟨r', hr', hp, hx⟩
  · rintro ⟨r', hr', hp, hx⟩
    exact ⟨r', List.mem_cons_of_mem _ hr', hp, hx⟩

/-- What a delivery cancels. -/
theorem trim_uncancelled {q : List BusRequest} {cmd : Command}
    (hcmd : commandOf d.commandCode = some cmd) :
    Trim cmd (outView q adx) (outView (uncancelled d q) adx) := by
  refine ⟨fun x ⟨r, hr, hp, hx⟩ => ⟨r, mem_uncancelled hr, hp, hx⟩, fun x ⟨r, hr, hp, hx⟩ hno => ?_⟩
  unfold uncancelled at hno
  split at hno
  · rename_i hcode
    by_cases hr' : r.commandCode = .dataReturnProcessor
    · rw [hr'] at hx
      refine ⟨(Option.some.inj hx).symm, (delivers_commandOf hcmd).mpr (Or.inr hcode)⟩
    · exact absurd ⟨r, (List.mem_eraseP_of_neg (by simp [hr'])).mpr hr, hp, hx⟩ hno
  · exact absurd ⟨r, hr, hp, hx⟩ hno

theorem outView_uncancelled_of_ne {q : List BusRequest} (hd : d.payload ≠ adx) :
    outView (uncancelled d q) adx = outView q adx := by
  ext x
  refine ⟨fun ⟨r, hr, hp, hx⟩ => ⟨r, mem_uncancelled hr, hp, hx⟩, fun ⟨r, hr, hp, hx⟩ => ?_⟩
  refine ⟨r, ?_, hp, hx⟩
  unfold uncancelled
  split
  · exact (List.mem_eraseP_of_neg (by simp [hp, Ne.symm hd])).mpr hr
  · exact hr

/-! ## Single views -/

theorem view_eq {l : Option Copy} {m : Option Miss} {o : Set Command}
    (hl : (c.cache.get adx).bind copyOf = l)
    (hm : (if c.Missing ∧ c.awaitingDataLocalAddress = adx then some c.missView else none) = m)
    (ho : outView c.maxPriorityQueue adx = o) : c.view adx = ⟨l, m, o⟩ := by
  rw [view, hl, hm, ho]

theorem view_miss (hm : c.Missing) : (c.view c.awaitingDataLocalAddress).miss = some c.missView :=
  if_pos ⟨hm, rfl⟩

theorem view_miss_of_not (hm : ¬ (c.Missing ∧ c.awaitingDataLocalAddress = adx)) :
    (c.view adx).miss = none := if_neg hm

theorem Inv.view_line (h : c.Inv) {m : MESI} (hm : c.cache.get adx = some m) :
    (c.view adx).line ≠ none := by
  rw [view, hm]
  exact copyOf_ne_none (h.allows _ _ hm).ne_invalid

theorem view_line_none (hm : c.cache.get adx = none) : (c.view adx).line = none := by
  rw [view, hm]; rfl

theorem view_miss_eq {m : Miss} (hm : (c.view adx).miss = some m) :
    (c.Missing ∧ c.awaitingDataLocalAddress = adx) ∧ c.missView = m := by
  unfold view at hm
  split at hm
  · rename_i h0
    exact ⟨h0, Option.some.inj hm⟩
  · cases hm

/-- A miss that has been answered. -/
theorem missView_answer (hw : c.awaitingDataLocal = false) : c.missView.answer ≠ none := by
  rw [missView, hw]
  cases c.gotDataReturnFromBusReadMemory <;> simp

theorem missView_unanswered (hw : c.awaitingDataLocal = true) : c.missView.answer = none := by
  rw [missView, hw]; rfl

/-! ## Snooping -/

/-- A command about another line. -/
theorem Snooped.view_of_ne (hs : Snooped d c c') (h : c.Inv) (hadx : L.Has adx)
    (hne : d.payload ≠ adx) (hd : Aligned d.payload)
    (hline : d.commandCode.Delivers ∨ d.commandCode = .nullBurst ∨ L.Has d.payload) :
    c'.view adx = c.view adx := by
  have pay (code : CommandCode) : (c.makeRequest code d.payload).payload ≠ adx := by
    show c.cache.getLineAlignedAddress d.payload ≠ adx
    rwa [h.cache.getLineAlignedAddress_of_aligned hd]
  -- only a command that works on a line of the cache has to be told from others by its key
  have key (hcode : ¬ d.commandCode.Delivers ∧ d.commandCode ≠ .nullBurst) :
      lineKey adx ≠ lineKey d.payload := by
    intro h0
    rcases hline with h1 | h1 | h1
    · exact hcode.1 h1
    · exact hcode.2 h1
    · exact hne (L.apart hadx h1 h0).symm
  have waits (hw : c.awaitsLocal d.payload = true) :
      ¬ (c.Missing ∧ c.awaitingDataLocalAddress = adx) := by
    rintro ⟨_, h0⟩
    exact hne ((awaitsLocal_iff.mp hw).2.symm.trans h0)
  cases hs with
  | holdRead hcode _ _ hput | holdReadX hcode _ hput | holdInvalidateModified hcode _ hput =>
      exact view_eq (congrArg (·.bind copyOf)
        (hput.get_of_ne (key (by simp [hcode, CommandCode.Delivers])))) rfl
        (outView_cons_of_ne (pay _))
  | holdInvalidate hcode _ _ hput | holdShareMe hcode _ _ hput =>
      exact view_eq (congrArg (·.bind copyOf)
        (hput.get_of_ne (key (by simp [hcode, CommandCode.Delivers])))) rfl rfl
  | waitRead hcode _ hw _ =>
      refine view_eq rfl ?_ (outView_cons_of_ne (pay _))
      exact (if_neg (by exact waits hw)).trans (view_miss_of_not (waits hw)).symm
  | waitReadX _ _ hw | waitInvalidate _ _ hw _ | waitShareMe _ _ hw _ =>
      refine view_eq rfl ?_ rfl
      exact (if_neg (by exact waits hw)).trans (view_miss_of_not (waits hw)).symm
  | data _ _ _ ha =>
      refine view_eq rfl ?_ (outView_uncancelled_of_ne hne)
      have hno : ¬ (c.Missing ∧ c.awaitingDataLocalAddress = adx) :=
        fun h0 => hne (ha.symm.trans h0.2)
      exact (if_neg (by exact hno)).trans (view_miss_of_not hno).symm
  | ignored _ => exact view_eq rfl rfl (outView_uncancelled_of_ne hne)

/-- A read that is out is out of the queue as well. -/
theorem Inv.out_of_awaiting (h : c.Inv) (hb : c.awaitingBusRead = true) :
    c.awaitingDataLocal = true ∧ c.busReqQueue = [] := by
  cases (h.miss (h.awaiting hb)).stage with
  | queued _ h0 _ _ => rw [hb] at h0; cases h0
  | out hw _ hq _ _ _ => exact ⟨hw, hq⟩
  | answered _ h0 _ _ _ => rw [hb] at h0; cases h0

theorem Inv.queue_of_queued (h : c.Inv) (hm : c.Missing) (hw : c.awaitingDataLocal = true)
    (hb : c.awaitingBusRead = false) : c.busReqQueue = [c.missRequest] := by
  cases (h.miss hm).stage with
  | queued _ _ hq _ => exact hq
  | out _ h0 _ _ _ _ => rw [hb] at h0; cases h0
  | answered h0 _ _ _ _ => rw [hw] at h0; cases h0

/-- What passes a controller by neither asks for its line nor answers its miss. -/
theorem Unconcerned.view (hu : Unconcerned c d) (h : c.Inv) {cmd : Command}
    (hcmd : commandOf d.commandCode = some cmd) : SnoopLine.Unconcerned cmd (c.view d.payload) := by
  -- a null burst is no command of the protocol
  have notNull : d.commandCode ≠ .nullBurst := fun h0 => by rw [h0] at hcmd; cases hcmd
  refine ⟨fun hl => ?_, fun m hm hans => ?_⟩
  · have hget : c.cache.get d.payload ≠ none := fun h0 => hl (view_line_none h0)
    exact (delivers_commandOf hcmd).mpr ((hu.line hget).resolve_right notNull)
  · obtain ⟨⟨hmiss, ha⟩, rfl⟩ := view_miss_eq hm
    have hw : c.awaitingDataLocal = true := by
      by_contra h0
      exact missView_answer (by simpa using h0) hans
    obtain ⟨h0, hb⟩ := (hu.miss (awaitsLocal_iff.mpr ⟨hw, ha⟩)).resolve_right notNull
    refine ⟨(delivers_commandOf hcmd).mpr h0, ?_⟩
    rw [missView, h.queue_of_queued hmiss hw hb]; rfl

/-- A command about this line. -/
theorem Snooped.snoop (hs : Snooped d c c') (h : c.Inv) (hd : Aligned d.payload) {cmd : Command}
    (hcmd : commandOf d.commandCode = some cmd) :
    Snoop cmd (c.view d.payload) (c'.view d.payload) := by
  have pay (code : CommandCode) : (c.makeRequest code d.payload).payload = d.payload :=
    h.cache.getLineAlignedAddress_of_aligned hd
  have put {k : Cache} {v : Option MESI} (hput : c.cache.Put d.payload v k) :
      (k.get d.payload).bind copyOf = v.bind copyOf := by rw [hput.get_self]
  have answer (m : MESI) : ∃ a, commandOf (answerCode m) = some a ∧ Answers a := by
    unfold answerCode
    split
    · exact ⟨_, rfl, Or.inl rfl⟩
    · exact ⟨_, rfl, Or.inr rfl⟩
  have waits (hw : c.awaitsLocal d.payload = true) :
      (c.Missing ∧ c.awaitingDataLocalAddress = d.payload) ∧ c.awaitingDataLocal = true :=
    ⟨⟨h.missing_of_awaitsLocal hw, (awaitsLocal_iff.mp hw).2⟩, (awaitsLocal_iff.mp hw).1⟩
  cases hs with
  -- the line is here: what is put into the cache, and what is answered
  | @holdRead m k hcode hm _ hput =>
      rw [hcode] at hcmd; cases hcmd
      obtain ⟨a, ha, hans⟩ := answer m
      exact (Snoop.holdRead (h.view_line hm) hans).congr
        (view_eq (put hput) rfl (outView_cons_self (pay _) ha))
  | @holdReadX m k hcode hm hput =>
      rw [hcode] at hcmd; cases hcmd
      obtain ⟨a, ha, hans⟩ := answer m
      exact (Snoop.holdReadX (h.view_line hm) hans).congr
        (view_eq (put hput) rfl (outView_cons_self (pay _) ha))
  | holdInvalidate hcode hm _ hput =>
      rw [hcode] at hcmd; cases hcmd
      exact (Snoop.holdInvalidate (h.view_line hm)).congr (view_eq (put hput) rfl rfl)
  | holdInvalidateModified hcode hm hput =>
      rw [hcode] at hcmd; cases hcmd
      exact (Snoop.holdInvalidateWrite (h.view_line hm)).congr
        (view_eq (put hput) rfl (outView_cons_self (pay _) rfl))
  | holdShareMe hcode hm _ hput =>
      rw [hcode] at hcmd; cases hcmd
      exact (Snoop.holdShareMe (h.view_line hm)).congr (view_eq (put hput) rfl rfl)
  -- the line is missed, and nobody has answered: the miss takes note
  | waitRead hcode hm hw _ =>
      rw [hcode] at hcmd; cases hcmd
      obtain ⟨hmiss, hw⟩ := waits hw
      exact (Snoop.waitRead (view_line_none hm) (if_pos hmiss) (missView_unanswered hw)).congr
        (view_eq rfl (if_pos (by exact hmiss)) (outView_cons_self (pay _) rfl))
  | waitReadX hcode hm hw =>
      rw [hcode] at hcmd; cases hcmd
      obtain ⟨hmiss, hw⟩ := waits hw
      exact (Snoop.waitReadX (view_line_none hm) (if_pos hmiss) (missView_unanswered hw)).congr
        (view_eq rfl (if_pos (by exact hmiss)) rfl)
  | waitInvalidate hcode hm hw _ =>
      rw [hcode] at hcmd; cases hcmd
      obtain ⟨hmiss, hw⟩ := waits hw
      exact (Snoop.waitInvalidate (view_line_none hm) (if_pos hmiss) (missView_unanswered hw)).congr
        (view_eq rfl (if_pos (by exact hmiss)) rfl)
  | waitShareMe hcode hm hw _ =>
      rw [hcode] at hcmd; cases hcmd
      obtain ⟨hmiss, hw⟩ := waits hw
      exact (Snoop.waitShareMe (view_line_none hm) (if_pos hmiss) (missView_unanswered hw)).congr
        (view_eq rfl (if_pos (by exact hmiss)) rfl)
  | data hdel hm hb ha =>
      obtain ⟨hw, hq⟩ := h.out_of_awaiting hb
      have hsent : c.missView.sent = true := by rw [missView, hq]; rfl
      refine (Snoop.answered ((delivers_commandOf hcmd).mpr hdel) (if_pos ⟨hm, ha⟩) hsent
        (missView_unanswered hw) (trim_uncancelled hcmd)).congr
        (view_eq rfl ((if_pos (by exact ⟨hm, ha⟩)).trans (congrArg some ?_)) rfl)
      -- the flag that is set with the answer says whether memory sent it
      have hsource : (if decide (d.commandCode = .dataReturnMemory) = true then some Source.memory
          else some .agent) = some (source cmd) := by
        rcases hdel with h0 | h0 | h0 <;> rw [h0] at hcmd ⊢ <;> cases hcmd <;> rfl
      exact congrArg (fun a => ({ c.missView with answer := a } : Miss)) hsource
  | ignored hu =>
      exact (Snoop.ignored (hu.view h hcmd) (trim_uncancelled hcmd)).congr (view_eq rfl rfl rfl)

/-! ## Local steps -/

theorem Instructs.inLines {opcode : Opcode} (hi : c.Instructs opcode adx) (ok : c.cache.Ok)
    (hline : ∀ i, c.currentInstruction = some i → i.In L) : L.Has adx := by
  obtain ⟨i, h0, _, rfl⟩ := hi
  rw [ok.getLineAlignedAddress i.isLt]
  exact hline i h0

/-- The line of a read that goes out is one that the cache can tell from others. -/
theorem Inv.inLines_awaiting (h : c.Inv) (hm : c.Missing)
    (hline : ∀ i, c.currentInstruction = some i → i.In L) : L.Has c.awaitingDataLocalAddress := by
  obtain ⟨opcode, hi⟩ := (h.miss hm).line
  exact hi.inLines h.cache hline

/-- Two controllers without a miss, and otherwise alike. -/
theorem view_of_not_missing (hn : ¬ c.Missing) (hn' : ¬ c'.Missing)
    (hl : (c'.cache.get adx).bind copyOf = (c.cache.get adx).bind copyOf)
    (ho : outView c'.maxPriorityQueue adx = outView c.maxPriorityQueue adx) :
    c'.view adx = c.view adx :=
  view_eq hl ((if_neg fun h0 => hn' h0.1).trans (view_miss_of_not fun h0 => hn h0.1).symm) ho

/-- A miss begins. -/
theorem start_view (h : c.Inv) (hs : c.currentState = .idleState) {a : Nat}
    (hnew : c.cache.get a = none) (hn : ¬ c.Missing) (hm' : c'.Missing)
    (ha : c'.awaitingDataLocalAddress = a) (hw : c'.awaitingDataLocal = true)
    (hq : c'.busReqQueue.isEmpty = false) (hcache : c'.cache = c.cache)
    (hmax : c'.maxPriorityQueue = c.maxPriorityQueue)
    (hr : c'.sawBusReadToMyIncomingAddress = c.sawBusReadToMyIncomingAddress)
    (hx : c'.sawBusReadXToMyIncomingAddress = c.sawBusReadXToMyIncomingAddress)
    (hv : c'.sawInvalidateToMyIncomingAddress = c.sawInvalidateToMyIncomingAddress) :
    Acts (c.view adx) (c'.view adx) := by
  have hclear := h.idle hs
  by_cases hadx : a = adx
  · subst hadx
    have hmiss : c'.missView = Miss.new (decide (c'.missCommand = .busReadX)) := by
      rw [missView, hq, hw, hr, hx, hv, hclear.sawBusRead, hclear.sawBusReadX, hclear.sawInvalidate]
      rfl
    refine Or.inr ?_
    have hv : c'.view a
        = { c.view a with miss := some (Miss.new (decide (c'.missCommand = .busReadX))) } :=
      view_eq (by rw [hcache]; rfl) ((if_pos ⟨hm', ha⟩).trans (congrArg some hmiss)) (by rw [hmax]; rfl)
    rw [hv]
    exact .start _ _ (view_line_none hnew) (view_miss_of_not fun h0 => hn h0.1)
  · exact Or.inl (view_eq (by rw [hcache])
      ((if_neg fun h0 => hadx (ha.symm.trans h0.2)).trans (view_miss_of_not fun h0 => hn h0.1).symm)
      (by rw [hmax]))

/-- A miss ends: at its own line something happens, other lines may have been evicted. -/
theorem finish_view (hn' : ¬ c'.Missing)
    (hself : Acts (c.view c.awaitingDataLocalAddress) (c'.view c.awaitingDataLocalAddress))
    (hline : adx ≠ c.awaitingDataLocalAddress →
      c'.cache.get adx = c.cache.get adx ∨ c'.cache.get adx = none)
    (ho : adx ≠ c.awaitingDataLocalAddress →
      outView c'.maxPriorityQueue adx = outView c.maxPriorityQueue adx) :
    Acts (c.view adx) (c'.view adx) := by
  by_cases hadx : adx = c.awaitingDataLocalAddress
  · rw [hadx]; exact hself
  · have hmiss : (if c'.Missing ∧ c'.awaitingDataLocalAddress = adx then some c'.missView else none)
        = (c.view adx).miss :=
      (if_neg fun h0 => hn' h0.1).trans (view_miss_of_not fun h0 => hadx h0.2.symm).symm
    rcases hline hadx with hl | hl
    · exact Or.inl (view_eq (by rw [hl]) hmiss (ho hadx))
    · refine Or.inr ?_
      have hv : c'.view adx = { c.view adx with line := none } :=
        view_eq (by rw [hl]; rfl) hmiss (ho hadx)
      rw [hv]
      exact .drop _

/-- **A step of a controller is a step of its view**, or none. -/
theorem Transitioned.acts (hs : Transitioned c c') (h : c.Inv) (hadx : L.Has adx)
    (hline : ∀ i, c.currentInstruction = some i → i.In L) : Acts (c.view adx) (c'.view adx) := by
  -- a line other than the one a step is about
  have ne {a : Nat} (ha : L.Has a) (h0 : adx ≠ a) : lineKey adx ≠ lineKey a :=
    fun h1 => h0 (L.apart hadx ha h1)
  have out {code : CommandCode} {a : Nat} (ha : L.Has a) : (c.makeRequest code a).payload = a :=
    h.cache.getLineAlignedAddress_of_aligned (L.aligned ha)
  cases hs with
  | rest hs => exact Or.inl (view_of_not_missing (not_missing_of hs) (not_missing_of hs) rfl rfl)
  | retire hs =>
      refine Or.inl (view_of_not_missing ?_ (not_missing_of (s := .idleState) rfl) rfl rfl)
      rcases hs with hs | hs | hs <;> exact not_missing_of hs
  | wait => exact Or.inl rfl
  | invalidateQueued hs =>
      exact Or.inl (view_of_not_missing (not_missing_of hs) (not_missing_of (s := .invalidateWait) rfl)
        rfl rfl)
  | @loadHit a m k hs _ hi hm hput =>
      refine Or.inl (view_of_not_missing (not_missing_of hs)
        (not_missing_of (s := .updateCacheLdState) rfl) ?_ rfl)
      by_cases h0 : adx = a
      · rw [h0, hm, hput.get_self]
      · rw [hput.get_of_ne (ne (hi.inLines h.cache hline) h0)]
  | loadMiss hs _ hi hm =>
      exact start_view h hs hm (not_missing_of hs) (Or.inl rfl) rfl rfl rfl rfl rfl rfl rfl rfl
  | @storeHit a m k hs _ hi hm hown hput =>
      refine Or.inl (view_of_not_missing (not_missing_of hs)
        (not_missing_of (s := .updateCacheStState) rfl) ?_ rfl)
      by_cases h0 : adx = a
      · rw [h0, hm, hput.get_self]
        rcases hown with rfl | rfl <;> rfl
      · rw [hput.get_of_ne (ne (hi.inLines h.cache hline) h0)]
  | @storeShared a hs _ hi _ _ =>
      have ha := hi.inLines h.cache hline
      by_cases h0 : a = adx
      · subst h0
        refine Or.inr ((Local.upgrade (c.view a)).congr
          (view_eq rfl ?_ (outView_cons_self (out ha) rfl)))
        exact (if_neg fun h0 =>
          not_missing_of (s := .issueInvalidateState) rfl (by simp) (by simp) h0.1).trans
          (view_miss_of_not fun h0 => not_missing_of hs (by simp) (by simp) h0.1).symm
      · exact Or.inl (view_of_not_missing (not_missing_of hs)
          (not_missing_of (s := .issueInvalidateState) rfl) rfl
          (outView_cons_of_ne (by rw [out ha]; exact h0)))
  | storeMiss hs _ hi hm =>
      exact start_view h hs hm (not_missing_of hs) (Or.inr rfl) rfl rfl rfl rfl rfl rfl rfl rfl
  | loadDropped hs hw _ =>
      have hn' := not_missing_of (c := { c with currentState := .updateCacheLdState })
        (s := .updateCacheLdState) rfl
      refine finish_view hn' (Or.inr ?_) (fun _ => Or.inl rfl) fun _ => rfl
      exact (Local.giveUp (view_miss (Or.inl hs)) (missView_answer hw)).congr
        (view_eq rfl (if_neg fun h0 => hn' h0.1) rfl)
  | @loadFilled m k hs hw hx hv hal hmod hexc hfill =>
      have ha := h.inLines_awaiting (Or.inl hs) hline
      have hn' := not_missing_of (c := { c with currentState := .updateCacheLdState, cache := k })
        (s := .updateCacheLdState) rfl
      refine finish_view hn' (Or.inr ?_) (fun h0 => hfill.others _ (ne ha h0)) fun _ => rfl
      have hmiss := view_miss (Or.inl hs)
      have hans := missView_answer hw
      have hview {l : Copy} (hl : copyOf m = some l) : ({ c with
          currentState := .updateCacheLdState
          cache := k } : Controller).view c.awaitingDataLocalAddress
            = ⟨some l, none, outView c.maxPriorityQueue c.awaitingDataLocalAddress⟩ :=
        view_eq (by rw [hfill.get]; exact hl) (if_neg fun h0 => hn' h0.1) rfl
      have hload : c.missCommand = c.controllerType.loadCommand := by simp [missCommand, hs]
      -- only MI fetches exclusively for a load
      have shared (ht : c.controllerType ≠ .mi) : c.missView.excl = false := by
        rw [missView, hload]
        cases hc : c.controllerType <;> first | exact absurd hc ht | rfl
      cases m with
      | modified =>
          have ht := hmod rfl
          refine (Local.fillOwned hmiss hans ?_ ⟨(h.mi ht).1, hx, hv⟩).congr (hview rfl)
          rw [missView, hload, ht]; rfl
      | exclusive =>
          obtain ⟨hr, hmem⟩ := hexc rfl
          refine (Local.fillAlone hmiss ?_ (shared ?_) ⟨hr, hx, hv⟩).congr (hview rfl)
          · rw [missView, hw, hmem]; rfl
          · intro ht; rw [ht] at hal; cases hal
      | shared =>
          refine (Local.fillShared hmiss hans (shared ?_) hx hv).congr (hview rfl)
          intro ht; rw [ht] at hal; cases hal
      | invalid => exact absurd rfl hal.ne_invalid
  | storeDropped hs hw _ =>
      have ha := h.inLines_awaiting (Or.inr hs) hline
      have hn' := not_missing_of (c := { c.queueMaxPriorityBusCommand .busWrite
        c.awaitingDataLocalAddress with currentState := .updateCacheStState })
        (s := .updateCacheStState) rfl
      refine finish_view hn' (Or.inr ?_) (fun _ => Or.inl rfl)
        fun h0 => outView_cons_of_ne (by rw [out ha]; exact Ne.symm h0)
      exact (Local.giveBack (view_miss (Or.inr hs)) (missView_answer hw)).congr
        (view_eq rfl (if_neg fun h0 => hn' h0.1) (outView_cons_self (out ha) rfl))
  | @storeFilled k hs hw hr hx hv hfill =>
      have ha := h.inLines_awaiting (Or.inr hs) hline
      have hn' := not_missing_of (c := { c with currentState := .updateCacheStState, cache := k })
        (s := .updateCacheStState) rfl
      refine finish_view hn' (Or.inr ?_) (fun h0 => hfill.others _ (ne ha h0)) fun _ => rfl
      have hexcl : c.missView.excl = true := by simp [missView, missCommand, hs]
      exact (Local.fillOwned (view_miss (Or.inr hs)) (missView_answer hw) hexcl ⟨hr, hx, hv⟩).congr
        (view_eq (by rw [hfill.get]; rfl) (if_neg fun h0 => hn' h0.1) rfl)

/-! ## Sending -/

/-- What a controller sends, as its line sees it. -/
inductive SentView (d : BusRequest) (a a' : Agent) : Prop
  | nullBurst : d.commandCode = .nullBurst → a' = a → SentView d a a'
  | urgent {cmd : Command} {out' : Set Command} : commandOf d.commandCode = some cmd →
      cmd ≠ .dataMemory → cmd ∈ a.out → out' ⊆ a.out → a' = { a with out := out' } →
      SentView d a a'
  | request {m : Miss} : commandOf d.commandCode = some m.command → a.miss = some m →
      m.answer = none → a.out = ∅ → a' = { a with miss := some { m with sent := true } } →
      SentView d a a'

theorem outView_dropLast_of_ne {q : List BusRequest} {r : BusRequest} (hq : q.getLast? = some r)
    (hne : r.payload ≠ adx) : outView q.dropLast adx = outView q adx := by
  ext x
  refine ⟨fun ⟨r', hr', hp, hx⟩ => ⟨r', List.dropLast_subset _ hr', hp, hx⟩,
    fun ⟨r', hr', hp, hx⟩ => ?_⟩
  rw [← List.dropLast_append_getLast? r hq] at hr'
  rcases List.mem_append.mp hr' with hr' | hr'
  · exact ⟨r', hr', hp, hx⟩
  · rw [List.mem_singleton.mp hr'] at hp
    exact absurd hp hne

theorem Sent.view_of_ne (hs : Sent c d c') (hne : d.payload ≠ adx) : c'.view adx = c.view adx := by
  cases hs with
  | nullBurst => exact view_eq rfl rfl rfl
  | transfer hq | command hq => exact view_eq rfl rfl (outView_dropLast_of_ne hq hne)
  | read =>
      have hno : ¬ (c.Missing ∧ c.awaitingDataLocalAddress = adx) := fun h0 => hne h0.2
      exact view_eq rfl ((if_neg (by exact hno)).trans (view_miss_of_not hno).symm) rfl

theorem Sent.view (hs : Sent c d c') (h : c.Inv) :
    SentView d (c.view d.payload) (c'.view d.payload) := by
  have urgent {r : BusRequest} (hq : c.maxPriorityQueue.getLast? = some r) :
      ∃ cmd, commandOf r.commandCode = some cmd ∧ cmd ≠ .dataMemory := by
    rcases (h.urgent r (List.mem_of_mem_getLast? hq)).code.cases with h0 | ⟨_, h0 | h0 | h0⟩ <;>
      rw [h0] <;> exact ⟨_, rfl, by simp⟩
  cases hs with
  | nullBurst => exact .nullBurst rfl (view_eq rfl rfl rfl)
  | transfer hq | command hq =>
      obtain ⟨cmd, hcmd, hne⟩ := urgent hq
      refine .urgent hcmd hne ⟨_, List.mem_of_mem_getLast? hq, rfl, hcmd⟩ ?_ (view_eq rfl rfl rfl)
      exact fun _ ⟨r, hr, h0⟩ => ⟨r, List.dropLast_subset _ hr, h0⟩
  | read hempty hm hw hb _ =>
      have hcmd : commandOf c.missCommand = some c.missView.command := by
        rcases c.missCommand_cases with h0 | ⟨h0, _⟩ <;> simp [missView, Miss.command, h0, commandOf]
      refine .request hcmd (view_miss hm) (missView_unanswered hw) ?_ (view_eq rfl ?_ rfl)
      · ext x
        refine ⟨fun ⟨r, hr, _⟩ => ?_, False.elim⟩
        rw [hempty] at hr; cases hr
      · exact if_pos (by exact ⟨hm, rfl⟩)

/-- Null bursts concern nobody. -/
theorem Snooped.view_of_nullBurst (hs : Snooped d c c') (hd : d.commandCode = .nullBurst) :
    c'.view adx = c.view adx := by
  cases hs with
  | holdRead hcode | holdReadX hcode | holdInvalidate hcode | holdInvalidateModified hcode
  | holdShareMe hcode | waitRead hcode | waitReadX hcode | waitInvalidate hcode
  | waitShareMe hcode => rw [hd] at hcode; cases hcode
  | data hdel => rcases hdel with h0 | h0 | h0 <;> rw [hd] at h0 <;> cases h0
  | ignored => exact view_eq rfl rfl (by rw [uncancelled, if_neg (by simp [hd])])

/-! ## Addresses -/

/-- New requests are about the line of the current instruction. -/
theorem Transitioned.inLines (hs : Transitioned c c') (h : c.Inv)
    (hline : ∀ i, c.currentInstruction = some i → i.In L)
    (hq : ∀ r ∈ c.maxPriorityQueue, L.Has r.payload) : ∀ r ∈ c'.maxPriorityQueue, L.Has r.payload := by
  have cons {code : CommandCode} {a : Nat} (ha : L.Has a) :
      ∀ r ∈ c.makeRequest code a :: c.maxPriorityQueue, L.Has r.payload := by
    intro r hr
    rcases List.mem_cons.mp hr with rfl | hr
    · rwa [show (c.makeRequest code a).payload = a
        from h.cache.getLineAlignedAddress_of_aligned (L.aligned ha)]
    · exact hq r hr
  cases hs with
  | rest | retire | wait | invalidateQueued | loadHit | loadMiss | storeHit | storeMiss | loadDropped
  | loadFilled | storeFilled => exact hq
  | storeShared _ _ hi => exact cons (hi.inLines h.cache hline)
  | storeDropped hs => exact cons (h.inLines_awaiting (Or.inr hs) hline)

/-- A controller adds requests only about the line that was asked for. -/
theorem Snooped.inLines (hs : Snooped d c c') (h : c.Inv) (hd : Aligned d.payload)
    (hline : d.commandCode.Delivers ∨ d.commandCode = .nullBurst ∨ L.Has d.payload)
    (hq : ∀ r ∈ c.maxPriorityQueue, L.Has r.payload) : ∀ r ∈ c'.maxPriorityQueue, L.Has r.payload := by
  intro r hr
  rcases hs.queue with hsub | ⟨code, h0, hcode⟩
  · exact hq r (hsub.subset hr)
  · rw [h0] at hr
    rcases List.mem_cons.mp hr with rfl | hr
    · have hasks : ¬ d.commandCode.Delivers ∧ d.commandCode ≠ .nullBurst := by
        rcases hcode with h1 | h1 | ⟨h1, _⟩ <;> simp [h1, CommandCode.Delivers]
      rw [show (c.makeRequest code d.payload).payload = d.payload
        from h.cache.getLineAlignedAddress_of_aligned hd]
      exact (hline.resolve_left hasks.1).resolve_left hasks.2
    · exact hq r hr

theorem Sent.inLines (hs : Sent c d c') (h : c.Inv)
    (hline : ∀ i, c.currentInstruction = some i → i.In L)
    (hq : ∀ r ∈ c.maxPriorityQueue, L.Has r.payload) :
    L.Has d.payload ∧ ∀ r ∈ c'.maxPriorityQueue, L.Has r.payload := by
  refine ⟨?_, fun r hr => hq r (hs.mem_queue hr)⟩
  cases hs with
  | @nullBurst r hr => exact hq r (List.mem_of_mem_getLast? hr)
  | transfer hr | command hr => exact hq _ (List.mem_of_mem_getLast? hr)
  | read _ hm => exact h.inLines_awaiting hm hline

end Controller

end CoherenceSim
