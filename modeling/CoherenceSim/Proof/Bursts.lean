import CoherenceSim.Proof.SystemTick

/-!
# Bursts are whole

A controller that has the bus for a transfer announces it with a `NULL_BURST` in each tick
but the last. `burstCounter` counts them; the history says what it has counted. Between
the first and the last the controller has the lock, and the request at the head of its
queue stays where it is, since nobody cancels a request while its owner is on the bus.
-/

namespace CoherenceSim

open BusNode Interconnect

/-- A unit of a burst that is not the last. -/
def nullBurstOf (a payload : Nat) : BusRequest := ⟨.nullBurst, BROADCAST_ADX, a, payload⟩

/-- What the counter of a controller at `a` has counted: the latest ticks, and no more. -/
structure Counted (h : List TickRecord) (ic : Interconnect Node) (a : Nat) (c : Controller) :
    Prop where
  bound : c.burstCounter < c.burstLen
  sent : ∀ i < c.burstCounter, ∃ rec r, h[i]? = some rec ∧ c.maxPriorityQueue.getLast? = some r
    ∧ rec.sent = some (nullBurstOf a r.payload)
  before : ∀ rec payload, h[c.burstCounter]? = some rec → rec.sent ≠ some (nullBurstOf a payload)
  /-- In the middle of a burst. -/
  locked : 0 < c.burstCounter → ic.nodeLocked = true ∧ ic.lockedAddress = a
    ∧ ∃ r, c.maxPriorityQueue.getLast? = some r ∧ Controller.burstsFor r = true

def AllCounted (h : List TickRecord) (ic : Interconnect Node) : Prop :=
  ∀ a c, controllerAt ic a = some c → Counted h ic a c

/-- The latest ticks of a history are a burst of `len` units, the last one with this request. -/
structure WholeBurst (len : Nat) (r : BusRequest) (older : List TickRecord) : Prop where
  burst : ∀ i < len - 1, ∃ rec, older[i]? = some rec
    ∧ rec.sent = some (nullBurstOf r.sourceAddress r.payload)
  before : ∀ rec payload, older[len - 1]? = some rec →
    rec.sent ≠ some (nullBurstOf r.sourceAddress payload)

/-- The commands whose transfer takes a burst, and which only controllers send. -/
def IsTransfer (r : BusRequest) : Prop :=
  r.commandCode = .busWrite ∨ r.commandCode = .dataReturnProcessor

instance (r : BusRequest) : Decidable (IsTransfer r) := by unfold IsTransfer; infer_instance

variable {ps : Params} {Q : Instruction → Prop} {h : List TickRecord} {s mid s' : System}
  {req : Option BusRequest}

theorem Controller.not_isTransfer_missRequest (c : Controller) : ¬ IsTransfer c.missRequest := by
  rintro (h0 | h0) <;> rcases c.missCommand_cases with h1 | ⟨h1, _⟩ <;>
    simp [missRequest, h1] at h0

/-- Nobody but the owner of the lock is in the middle of a burst. -/
theorem Counted.zero {ic : Interconnect Node} {a : Nat} {c : Controller} (hc : Counted h ic a c)
    (hl : ic.nodeLocked = true → ic.lockedAddress ≠ a) : c.burstCounter = 0 := by
  by_contra h0
  obtain ⟨h₁, h₂, _⟩ := hc.locked (by omega)
  exact hl h₁ h₂

/-- Outside a burst there is little to say. -/
theorem Counted.of_zero {ic : Interconnect Node} {a : Nat} {c : Controller}
    (hz : c.burstCounter = 0) (hlen : 0 < c.burstLen)
    (hbefore : ∀ rec payload, h[0]? = some rec → rec.sent ≠ some (nullBurstOf a payload)) :
    Counted h ic a c := by
  refine ⟨by omega, fun i hi => ?_, fun rec payload hrec => ?_, fun h0 => ?_⟩
  · rw [hz] at hi; omega
  · rw [hz] at hrec
    exact hbefore rec payload hrec
  · omega

/-! ## The first half of a cycle -/

/-- New requests go to the other end of the queue. -/
theorem Controller.Ticked.getLast? {c c' : Controller} (ht : Controller.Ticked c c')
    {r : BusRequest} (hr : c.maxPriorityQueue.getLast? = some r) :
    c'.maxPriorityQueue.getLast? = some r := by
  have cons (x : BusRequest) : (x :: c.maxPriorityQueue).getLast? = some r := by
    rw [List.getLast?_cons, hr]; rfl
  have key {c₁ : Controller} (hs : Controller.Transitioned c c₁) :
      c₁.maxPriorityQueue.getLast? = some r := by
    cases hs with
    | rest => exact hr
    | retire => exact hr
    | wait => exact hr
    | invalidateQueued => exact hr
    | loadHit => exact hr
    | loadMiss => exact hr
    | storeHit => exact hr
    | storeShared => exact cons _
    | storeMiss => exact hr
    | loadDropped => exact hr
    | loadFilled => exact hr
    | storeDropped => exact cons _
    | storeFilled => exact hr
  cases ht with
  | plain hs => exact (key hs :)
  | handed hs => exact (key hs :)

theorem allCounted_ticks {ic₀ ic₁ : Interconnect Node} (hv : Valid ps Q ic₀) (hv₁ : Valid ps Q ic₁)
    (ht : Ticks ic₀ ic₁) (hc : AllCounted h ic₀) : AllCounted h ic₁ := by
  intro a c₁ hc₁
  obtain ⟨c, hc₀, hs⟩ := ht.controllerBefore hv hv₁ hc₁
  have hcnt := hc a c hc₀
  have hk := hs.burstCounter
  refine ⟨by rw [hk, hs.sameNode.burstLen]; exact hcnt.bound, fun i hi => ?_, ?_, fun h0 => ?_⟩
  · obtain ⟨rec, r, h₁, h₂, h₃⟩ := hcnt.sent i (hk ▸ hi)
    exact ⟨rec, r, h₁, hs.getLast? h₂, h₃⟩
  · rw [hk]; exact hcnt.before
  · obtain ⟨h₁, h₂, r, h₃, h₄⟩ := hcnt.locked (hk ▸ h0)
    exact ⟨ht.nodeLocked.trans h₁, ht.lockedAddress.trans h₂, r, hs.getLast? h₃, h₄⟩

/-! ## The second half -/

/-- A controller that is in the middle of a burst goes on with it, or finishes it. -/
theorem Controller.Sent.counted {x : TickRecord} {ic ic' : Interconnect Node} {a : Nat}
    {c c' : Controller} {r : BusRequest} (hs : Controller.Sent c r c') (hi : c.Inv)
    (hset : c.Settled) (ha : c.nodeAddress = a) (hlen : c.burstLen < 2 ^ 32)
    (hcnt : Counted h ic a c) (hsent : x.sent = some r) (hlocked : ic'.nodeLocked = c.bursting)
    (haddr : c.bursting = true → ic'.lockedAddress = a) :
    Counted (x :: h) ic' a c' ∧ (IsTransfer r → WholeBurst c.burstLen r h) := by
  have hb := hcnt.bound
  have noBurst (hp : c'.burstCounter = 0) (hl : c'.burstLen = c.burstLen)
      (hcode : r.commandCode ≠ .nullBurst) : Counted (x :: h) ic' a c' := by
    refine .of_zero hp (by omega) fun rec' payload hrec => ?_
    cases hrec
    rw [hsent]
    intro h0
    cases h0
    exact hcode rfl
  have head {r₀ : BusRequest} (hq : c.maxPriorityQueue.getLast? = some r₀) :
      c.bursting = Controller.burstsFor r₀ := by
    rw [hset, hq]; rfl
  have urgent {r₀ : BusRequest} (hq : c.maxPriorityQueue.getLast? = some r₀) :
      r₀.commandCode ≠ .nullBurst ∧ r₀.sourceAddress = a := by
    have hu := hi.urgent r₀ (List.mem_of_mem_getLast? hq)
    refine ⟨?_, hu.source.trans ha⟩
    rcases hu.code.cases with h0 | ⟨_, h0 | h0 | h0⟩ <;> simp [h0]
  cases hs with
  | @nullBurst r₀ hq hb₀ hnot =>
      have hmod : (c.burstCounter + 1) % 2 ^ 32 = c.burstCounter + 1 := Nat.mod_eq_of_lt (by omega)
      rw [hmod] at hnot
      have hk : ({ c with
          burstCounter := (c.burstCounter + 1) % 2 ^ 32
          outgoingCommandWaitFlag := c.waitFlagAfter .nullBurst } : Controller).burstCounter
          = c.burstCounter + 1 := hmod
      refine ⟨⟨?_, fun i hlt => ?_, fun rec' payload hrec => ?_, fun _ => ?_⟩, fun ht => ?_⟩
      · rw [hk]
        show c.burstCounter + 1 < c.burstLen
        omega
      · rw [hk] at hlt
        cases i with
        | zero => exact ⟨x, r₀, rfl, hq, by rw [hsent, nullBurstOf, ← ha]⟩
        | succ i =>
            obtain ⟨rec', r', h₁, h₂, h₃⟩ := hcnt.sent i (by omega)
            exact ⟨rec', r', h₁, h₂, h₃⟩
      · rw [hk] at hrec
        exact hcnt.before rec' payload hrec
      · have hbursting : c.bursting = true := (head hq).trans hb₀
        exact ⟨hlocked.trans hbursting, haddr hbursting, r₀, hq, hb₀⟩
      · rcases ht with h0 | h0 <;> cases h0
  | transfer hq hb₀ hfull =>
      obtain ⟨hcode, hsrc⟩ := urgent hq
      refine ⟨noBurst rfl rfl hcode, fun _ => ?_⟩
      have hk : c.burstLen - 1 = c.burstCounter := by
        rw [Nat.mod_eq_of_lt (by omega)] at hfull
        omega
      refine ⟨fun i hlt => ?_, ?_⟩
      · obtain ⟨rec', r', h₁, h₂, h₃⟩ := hcnt.sent i (by omega)
        -- the head of the queue has not changed since the burst began
        rw [hq] at h₂; cases h₂
        exact ⟨rec', h₁, by rw [h₃, hsrc]⟩
      · rw [hk, hsrc]
        exact hcnt.before
  | command hq hb₀ =>
      obtain ⟨hcode, _⟩ := urgent hq
      have hz : c.burstCounter = 0 := by
        by_contra h0
        obtain ⟨_, _, r', h₁, h₂⟩ := hcnt.locked (by omega)
        rw [hq] at h₁; cases h₁
        rw [hb₀] at h₂; cases h₂
      refine ⟨noBurst hz rfl hcode, fun ht => ?_⟩
      rcases ht with h0 | h0 <;> simp [Controller.burstsFor, h0] at hb₀
  | read hempty _ _ _ _ =>
      have hz : c.burstCounter = 0 := by
        by_contra h0
        obtain ⟨_, _, r', h₁, _⟩ := hcnt.locked (by omega)
        rw [hempty] at h₁; cases h₁
      refine ⟨noBurst hz rfl ?_, fun ht => absurd ht c.not_isTransfer_missRequest⟩
      show c.missCommand ≠ .nullBurst
      rcases c.missCommand_cases with h0 | ⟨h0, _⟩ <;> simp [h0]

/-- What memory sends is no transfer. -/
theorem Memory.not_isTransfer {n : Nat} {m : Memory} (hm : m.Inv n) {r : BusRequest}
    (hr : r ∈ m.busReqQueue) : ¬ IsTransfer r := by
  rcases hm.queue r hr with h0 | h0 <;> rintro (h1 | h1) <;> rw [h0.code] at h1 <;> cases h1

/-- **Preserved by every cycle**, and whatever is transferred was announced. -/
theorem allCounted_cycle (hlen : 0 < ps.burstLength) (hlen' : ps.burstLength < 2 ^ 32)
    (hv : Valid ps Q s.interconnect) (hv' : Valid ps Q s'.interconnect)
    (hcycle : Cycle ps Q s mid req s') (hc : AllCounted h s.interconnect) :
    AllCounted (⟨s, req, s'⟩ :: h) s'.interconnect
      ∧ ∀ r, req = some r → IsTransfer r → WholeBurst ps.burstLength r h := by
  have hmid := allCounted_ticks hv hcycle.valid hcycle.ticks hc
  have hvm := hcycle.valid
  have hfresh := hcycle.fresh
  have before {a : Nat} {c' : Controller} (hc' : controllerAt s'.interconnect a = some c') :
      ∃ c, controllerAt mid.interconnect a = some c := hvm.controllerBefore hv' hc'
  -- a controller that was not in the middle of a burst, and sent nothing
  have still {a : Nat} {c c' : Controller} (hcm : controllerAt mid.interconnect a = some c)
      (hz : c.burstCounter = 0) (hk : c'.burstCounter = c.burstCounter)
      (hl : c'.burstLen = c.burstLen) (hother : ∀ r, req = some r → r.sourceAddress ≠ a) :
      Counted (⟨s, req, s'⟩ :: h) s'.interconnect a c' := by
    refine .of_zero (hk.trans hz) (by rw [hl, (hvm.controller hcm).burstLen]; exact hlen)
      fun rec payload hrec => ?_
    cases hrec
    exact fun h0 => hother _ h0 rfl
  have hev := hcycle.event
  cases hreq : req with
  | none =>
      subst hreq
      refine ⟨fun a c' hc' => ?_, fun r h0 => (by cases h0)⟩
      obtain ⟨c, hcm⟩ := before hc'
      cases hev with
      | quiet hctrl _ _ hnobody =>
          obtain ⟨l, hl⟩ := hctrl a c hcm
          rw [hc'] at hl; cases hl
          -- the owner of the lock would have sent something
          have hz : c.burstCounter = 0 := by
            by_contra h0
            obtain ⟨hlocked, haddr, r, hq, _⟩ := (hmid a c hcm).locked (by omega)
            have hno := hnobody c hlocked (by rw [haddr]; exact hcm)
            have hmem := List.length_pos_of_mem (List.mem_of_mem_getLast? hq)
            simp [Controller.requestsTransaction] at hno
            simp [hno.2] at hmem
          exact still hcm hz rfl rfl (by simp)
  | some r =>
      subst hreq
      cases hev with
      | @controller a₀ c₀ c₀' _ _ hc₀ hsrc _ hlock _ hs hc₀' hother _ hlocked haddr =>
          have ok := hvm.controller hc₀
          have hcnt : Counted h mid.interconnect a₀ c₀.polled :=
            ⟨(hmid a₀ c₀ hc₀).bound, (hmid a₀ c₀ hc₀).sent, (hmid a₀ c₀ hc₀).before,
              (hmid a₀ c₀ hc₀).locked⟩
          obtain ⟨hcnt', hwhole⟩ := hs.counted (x := ⟨s, some r, s'⟩) ok.inv.frame
            (hfresh a₀ c₀ hc₀).settled ok.nodeAddress
            (by rw [show c₀.polled.burstLen = _ from ok.burstLen]; exact hlen') hcnt rfl hlocked haddr
          rw [show c₀.polled.burstLen = _ from ok.burstLen] at hwhole
          refine ⟨fun a c' hc' => ?_, fun r' h0 ht => by cases h0; exact hwhole ht⟩
          by_cases haa : a = a₀
          · subst haa
            rw [hc₀'] at hc'; cases hc'
            exact hcnt'
          · obtain ⟨c, hcm⟩ := before hc'
            obtain ⟨d, hsn, hd⟩ := hother a c haa hcm
            rw [hc'] at hd; cases hd
            have hz := (hmid a c hcm).zero fun h0 h1 => haa (h1.symm.trans (hlock h0))
            refine still hcm hz hsn.sameState.2.2.2 hsn.sameNode.burstLen fun r' h0 h1 => ?_
            cases h0
            exact haa (h1.symm.trans hsrc)
      | memory hm hsrc _ hlock _ hq _ hother _ _ =>
          refine ⟨fun a c' hc' => ?_, fun r' h0 ht => ?_⟩
          · obtain ⟨c, hcm⟩ := before hc'
            have hr := (hvm.controller hcm).range
            have hz := (hmid a c hcm).zero fun h0 h1 => by
              have := hlock h0
              omega
            have hkept : c'.burstCounter = c.burstCounter ∧ c'.burstLen = c.burstLen := by
              have hb := hother a c hcm
              split at hb
              · obtain ⟨d, hsn, hd⟩ := hb
                rw [hc'] at hd; cases hd
                exact ⟨hsn.sameState.2.2.2, hsn.sameNode.burstLen⟩
              · rw [hc'] at hb; cases hb
                exact ⟨rfl, rfl⟩
            refine still hcm hz hkept.1 hkept.2 fun r' h0 h1 => ?_
            cases h0
            omega
          · cases h0
            exact absurd ht (Memory.not_isTransfer (hvm.memoryOk hm).2
              (by rw [hq]; exact List.mem_cons_self))

/-! ## Runs -/

/-- A counter that wraps at `2 ^ 32` never reaches a greater length. -/
theorem Cycle.len_of_transfer {r : BusRequest} (hcycle : Cycle ps Q s mid (some r) s')
    (ht : IsTransfer r) : ps.burstLength < 2 ^ 32 := by
  cases hcycle.event with
  | controller hc _ _ _ _ hs _ _ _ _ _ =>
      have hlen : _ = ps.burstLength := (hcycle.valid.controller hc).burstLen
      cases hs with
      | nullBurst => rcases ht with h0 | h0 <;> cases h0
      | transfer _ _ hfull =>
          rw [← hlen]
          exact hfull ▸ Nat.mod_lt _ (by decide)
      | command _ hb => rcases ht with h0 | h0 <;> simp [Controller.burstsFor, h0] at hb
      | read => exact absurd ht (Controller.not_isTransfer_missRequest _)
  | memory hm _ _ _ _ hq _ _ _ _ =>
      exact absurd ht (Memory.not_isTransfer (hcycle.valid.memoryOk hm).2
        (by rw [hq]; exact List.mem_cons_self))

/-- **Bursts are whole and contiguous**: whenever a `BUSWRITE` or `DATA_RETURN_PROCESSOR` is
on the bus, the ticks before it carried the `NULL_BURST`s that announce it, one less than
the length of a burst and no more. -/
theorem bursts_whole (ps : Params) (hlen : 1 ≤ ps.burstLength) (h : List TickRecord) (s : System)
    (hrun : Run ps h s) : ∀ newer rec older r, h = newer ++ rec :: older → rec.sent = some r →
      IsTransfer r → WholeBurst ps.burstLength r older := by
  refine (Run.induct (P := fun h s => (ps.burstLength < 2 ^ 32 → AllCounted h s.interconnect)
    ∧ ∀ newer rec older r, h = newer ++ rec :: older → rec.sent = some r → IsTransfer r →
      WholeBurst ps.burstLength r older) ?_ ?_ ?_ hrun).2
  · refine fun s hs => ⟨fun _ a c hc => ?_, fun newer rec older r h0 => (by simp at h0)⟩
    rw [hs.controller a c hc]
    exact .of_zero rfl hlen fun rec _ hrec => (by cases hrec)
  · refine fun h s s' _ _ hins ⟨hc, hwhole⟩ => ⟨fun hlen' a c' hc' => ?_, hwhole⟩
    have hcnt := hc hlen' a c' (by rw [← hins.controller]; exact hc')
    exact ⟨hcnt.bound, hcnt.sent, hcnt.before, fun h0 => by
      rw [hins.nodeLocked, hins.lockedAddress]; exact hcnt.locked h0⟩
  · intro h s mid req s' hok hok' hcycle ⟨hc, hwhole⟩
    have hstep := fun hlen' => allCounted_cycle hlen hlen' hok.valid hok'.valid hcycle (hc hlen')
    refine ⟨fun hlen' => (hstep hlen').1, fun newer rec older r hsplit hsent ht => ?_⟩
    cases newer with
    | nil =>
        obtain ⟨rfl, rfl⟩ : _ = rec ∧ h = older := by simpa using hsplit
        have hsent : req = some r := hsent
        exact (hstep ((hsent ▸ hcycle).len_of_transfer ht)).2 r hsent ht
    | cons _ newer =>
        have hsplit := (List.cons.inj hsplit).2
        exact hwhole newer rec older r hsplit hsent ht

/-- A line passed from one processor to another in a burst of three. -/
theorem bursts_whole_write_back : ∃ h s, Run ⟨2, .mi, 1, 3⟩ h s
    ∧ ∃ newer rec older r, h = newer ++ rec :: older ∧ rec.sent = some r ∧ IsTransfer r
      ∧ WholeBurst 3 r older := by
  obtain ⟨h, s, hrun, hany⟩ := Run.of_run ⟨2, .mi, 1, 3⟩
    ([.insert .store 64 0, .insert .store 64 1] ++ List.replicate 24 .tick)
    (fun h _ => h.any fun rec => rec.sent.any fun r => decide (IsTransfer r)) (by decide +kernel)
  obtain ⟨rec, hrec, hr⟩ := List.any_eq_true.mp hany
  obtain ⟨newer, older, hsplit⟩ := List.append_of_mem hrec
  obtain ⟨r, hsent, ht⟩ := (Option.any_eq_true _ _).mp hr
  have ht := of_decide_eq_true ht
  exact ⟨h, s, hrun, newer, rec, older, r, hsplit, hsent, ht,
    bursts_whole ⟨2, .mi, 1, 3⟩ (by decide) h s hrun newer rec older r hsplit hsent ht⟩

end CoherenceSim
