import Mathlib.Data.List.Basic

/-!
# Ledgers

The items that arrived, in the order they came in, each with its fate, if it has met one.
Items are settled one at a time: the first pending item that meets a condition is given a
fate, and keeps it. Every fate is stamped with the moment it was given out.

Some fates are services. A ledger in which services never pass over a pending item is kept by
every step that serves the first pending item, and by every step that is no service at all.
-/

namespace CoherenceSim

namespace Ledger

/-- An item, and what has become of it. -/
structure Entry (α φ : Type) where
  item : α
  fate : Option φ
  deriving Repr, DecidableEq

variable {α φ : Type}

/-- The items that have met no fate yet. -/
def pending : List (Entry α φ) → List α
  | [] => []
  | e :: l => if e.fate.isNone then e.item :: pending l else pending l

/-- The items whose fate is a service. -/
def served (service : φ → Bool) : List (Entry α φ) → List α
  | [] => []
  | e :: l => if e.fate.any service then e.item :: served service l else served service l

/-- A new item. -/
def add (a : α) (l : List (Entry α φ)) : List (Entry α φ) := l ++ [⟨a, none⟩]

/-- Give the first pending item that meets `p` the fate `f`. -/
def settle (p : α → Bool) (f : φ) : List (Entry α φ) → List (Entry α φ)
  | [] => []
  | e :: l => if e.fate.isNone && p e.item then { e with fate := some f } :: l
      else e :: settle p f l

/-- What the stamps say of a ledger at the moment `now`. -/
structure Kept (service : φ → Bool) (stamp : φ → Nat) (now : Nat) (l : List (Entry α φ)) :
    Prop where
  past : ∀ e ∈ l, ∀ f, e.fate = some f → stamp f < now
  /-- One item is settled at a time. -/
  apart : l.Pairwise fun e e' => ∀ f f', e.fate = some f → e'.fate = some f' → stamp f ≠ stamp f'
  /-- No service passes over a pending item, and services are given out in order. -/
  inOrder : l.Pairwise fun e e' => ∀ f', e'.fate = some f' → service f' = true →
    ∃ f, e.fate = some f ∧ (service f = true → stamp f < stamp f')

variable {service : φ → Bool} {stamp : φ → Nat} {now : Nat} {l l' : List (Entry α φ)} {a : α}
  {p : α → Bool} {f : φ}

theorem pending_append : pending (l ++ l') = pending l ++ pending l' := by
  induction l with
  | nil => rfl
  | cons e l ih =>
      simp only [List.cons_append, pending, ih]
      split <;> rfl

theorem served_append : served service (l ++ l') = served service l ++ served service l' := by
  induction l with
  | nil => rfl
  | cons e l ih =>
      simp only [List.cons_append, served, ih]
      split <;> rfl

theorem pending_subset {b : α} (hb : b ∈ pending l) : b ∈ l.map Entry.item := by
  induction l with
  | nil => cases hb
  | cons e l ih =>
      rw [pending] at hb
      split at hb
      · rcases List.mem_cons.mp hb with rfl | hb
        · exact List.mem_cons_self
        · exact List.mem_cons_of_mem _ (ih hb)
      · exact List.mem_cons_of_mem _ (ih hb)

theorem served_sublist : (served service l).Sublist (l.map Entry.item) := by
  induction l with
  | nil => exact .slnil
  | cons e l ih =>
      rw [served, List.map_cons]
      split
      · exact ih.cons_cons e.item
      · exact ih.cons e.item

theorem mem_served (ha : a ∈ served service l) :
    ∃ e ∈ l, e.item = a ∧ ∃ f, e.fate = some f ∧ service f = true := by
  induction l with
  | nil => cases ha
  | cons e l ih =>
      have later (h0 : a ∈ served service l) :
          ∃ e' ∈ e :: l, e'.item = a ∧ ∃ f, e'.fate = some f ∧ service f = true :=
        (ih h0).imp fun e' h1 => ⟨List.mem_cons_of_mem _ h1.1, h1.2⟩
      rw [served] at ha
      split at ha
      · rename_i hserved
        rcases List.mem_cons.mp ha with rfl | ha
        · obtain ⟨f, hf, hs⟩ := (Option.any_eq_true _ _).mp hserved
          exact ⟨e, List.mem_cons_self, rfl, f, hf, hs⟩
        · exact later ha
      · exact later ha

theorem pending_add : pending (add a l) = pending l ++ [a] := pending_append

theorem served_add : served service (add a l) = served service l := by
  rw [add, served_append]
  exact List.append_nil _

/-- An entry is settled, or there is none that could be. -/
theorem settle_cases (p : α → Bool) (f : φ) (l : List (Entry α φ)) :
    (settle p f l = l ∧ ∀ b ∈ pending l, p b = false)
      ∨ ∃ before a after, l = before ++ ⟨a, none⟩ :: after ∧ p a = true
        ∧ (∀ b ∈ pending before, p b = false)
        ∧ settle p f l = before ++ ⟨a, some f⟩ :: after := by
  induction l with
  | nil => exact Or.inl ⟨rfl, fun b hb => by cases hb⟩
  | cons e l ih =>
      obtain ⟨b, fate⟩ := e
      cases fate with
      | none =>
          by_cases hp : p b = true
          -- the first one meets the condition; else it joins those before
          · exact Or.inr ⟨[], b, l, rfl, hp, fun b hb => (by cases hb), by simp [settle, hp]⟩
          · have hp : p b = false := by simpa using hp
            have step : settle p f (⟨b, none⟩ :: l) = ⟨b, none⟩ :: settle p f l := by
              simp [settle, hp]
            rcases ih with ⟨h₁, h₂⟩ | ⟨before, c, after, h₁, h₂, h₃, h₄⟩
            · refine Or.inl ⟨by rw [step, h₁], fun c hc => ?_⟩
              rcases List.mem_cons.mp hc with rfl | hc
              · exact hp
              · exact h₂ c hc
            · refine Or.inr ⟨⟨b, none⟩ :: before, c, after, by rw [h₁]; rfl, h₂, fun d hd => ?_,
                by rw [step, h₄]; rfl⟩
              rcases List.mem_cons.mp hd with rfl | hd
              · exact hp
              · exact h₃ d hd
      | some g =>
          have step : settle p f (⟨b, some g⟩ :: l) = ⟨b, some g⟩ :: settle p f l := by
            simp [settle]
          rcases ih with ⟨h₁, h₂⟩ | ⟨before, c, after, h₁, h₂, h₃, h₄⟩
          · exact Or.inl ⟨by rw [step, h₁], h₂⟩
          · exact Or.inr ⟨⟨b, some g⟩ :: before, c, after, by rw [h₁]; rfl, h₂, h₃,
              by rw [step, h₄]; rfl⟩

/-- Items stay, and stay in order. -/
theorem items_settle : (settle p f l).map Entry.item = l.map Entry.item := by
  rcases settle_cases p f l with ⟨h, _⟩ | ⟨before, b, after, rfl, _, _, h⟩ <;> rw [h]
  simp

/-- Whoever is settled is the first pending item that meets the condition. -/
theorem mem_settle {e : Entry α φ} (he : e ∈ settle p f l) :
    e ∈ l ∨ e.fate = some f ∧ (pending l).find? p = some e.item := by
  rcases settle_cases p f l with ⟨h, _⟩ | ⟨before, b, after, rfl, hp, hno, h⟩
  · exact Or.inl (h ▸ he)
  · rw [h] at he
    rcases List.mem_append.mp he with he | he
    · exact Or.inl (List.mem_append_left _ he)
    · rcases List.mem_cons.mp he with rfl | he
      · refine Or.inr ⟨rfl, ?_⟩
        rw [pending_append, List.find?_append,
          List.find?_eq_none.mpr fun b hb => by simp [hno b hb]]
        exact List.find?_cons_of_pos hp
      · exact Or.inl (List.mem_append_right _ (List.mem_cons_of_mem _ he))

/-- Settling erases the first pending item that meets the condition. -/
theorem pending_settle : pending (settle p f l) = (pending l).eraseP p := by
  rcases settle_cases p f l with ⟨h, hno⟩ | ⟨before, b, after, rfl, hp, hno, h⟩
  · rw [h, List.eraseP_of_forall_not fun b hb => by simp [hno b hb]]
  · rw [h, pending_append, pending_append,
      List.eraseP_append_right _ fun b hb => by simp [hno b hb]]
    show _ ++ pending after = _ ++ (b :: pending after).eraseP p
    rw [List.eraseP_cons_of_pos hp]

theorem served_settle_of_not (hf : service f = false) :
    served service (settle p f l) = served service l := by
  rcases settle_cases p f l with ⟨h, _⟩ | ⟨before, b, after, rfl, _, _, h⟩
  · rw [h]
  · rw [h, served_append, served_append]
    simp [served, hf]

/-- Nothing after a pending item has been served. -/
theorem Kept.not_served {before after : List (Entry α φ)}
    (h : Kept service stamp now (before ++ ⟨a, none⟩ :: after)) : served service after = [] := by
  have hpass := (List.pairwise_cons.mp (List.pairwise_append.mp h.inOrder).2.1).1
  have key (rest : List (Entry α φ)) (hrest : ∀ e ∈ rest, e ∈ after) : served service rest = [] := by
    induction rest with
    | nil => rfl
    | cons e rest ih =>
        have hnot : e.fate.any service = false := by
          cases hfate : e.fate with
          | none => rfl
          | some f =>
              rw [Option.any_some, Bool.eq_false_iff]
              intro hservice
              obtain ⟨_, h0, _⟩ := hpass e (hrest e List.mem_cons_self) f hfate hservice
              cases h0
        rw [served, hnot]
        exact ih fun e he => hrest e (List.mem_cons_of_mem _ he)
  exact key after fun _ he => he

/-- Serving the first pending item serves it last. -/
theorem Kept.served_settle (h : Kept service stamp now l) (hf : service f = true)
    {rest : List α} (hpending : pending l = a :: rest) :
    served service (settle (fun _ => true) f l) = served service l ++ [a] := by
  rcases settle_cases (fun _ => true) f l with ⟨_, hno⟩ | ⟨before, b, after, rfl, _, hno, hsettle⟩
  · rw [hpending] at hno
    cases hno a List.mem_cons_self
  · -- the condition holds of everybody, so nobody before is pending
    have hbefore : pending before = [] := by
      cases hb : pending before with
      | nil => rfl
      | cons c _ => cases hno c (by rw [hb]; exact List.mem_cons_self)
    have hb : a = b := by
      rw [pending_append, hbefore] at hpending
      cases hpending
      rfl
    rw [hsettle, served_append, served_append, hb]
    simp [served, hf, h.not_served]

/-- Serving the first pending item leaves those that were served, and their order. -/
theorem Kept.served_settle_first (h : Kept service stamp now l) (hf : service f = true) :
    ∃ l', served service (settle (fun _ => true) f l) = served service l ++ l' := by
  cases hpending : pending l with
  | nil =>
      rcases settle_cases (fun _ => true) f l with ⟨hsame, _⟩ | ⟨before, b, after, rfl, _, _, _⟩
      · exact ⟨[], by rw [hsame, List.append_nil]⟩
      · rw [pending_append] at hpending
        cases (List.append_eq_nil_iff.mp hpending).2
  | cons a rest => exact ⟨[a], h.served_settle hf hpending⟩

theorem Kept.nil : Kept service stamp now ([] : List (Entry α φ)) :=
  ⟨fun e he => (by cases he), .nil, .nil⟩

theorem Kept.mono (h : Kept service stamp now l) {now' : Nat} (hle : now ≤ now') :
    Kept service stamp now' l :=
  ⟨fun e he f hf => Nat.lt_of_lt_of_le (h.past e he f hf) hle, h.apart, h.inOrder⟩

theorem Kept.add (h : Kept service stamp now l) (a : α) : Kept service stamp now (add a l) := by
  refine ⟨fun e he f hf => ?_, ?_, ?_⟩
  · rcases List.mem_append.mp he with he | he
    · exact h.past e he f hf
    · rw [List.mem_singleton.mp he] at hf
      cases hf
  · refine List.pairwise_append.mpr ⟨h.apart, List.pairwise_singleton _ _, fun e _ e' he' => ?_⟩
    rw [List.mem_singleton.mp he']
    intro f f' _ h0
    cases h0
  · refine List.pairwise_append.mpr ⟨h.inOrder, List.pairwise_singleton _ _, fun e _ e' he' => ?_⟩
    rw [List.mem_singleton.mp he']
    intro f' h0
    cases h0

/-- Stamps stay apart, whoever is settled. -/
theorem Kept.apart_settle (h : Kept service stamp now l) (hf : stamp f = now) :
    (settle p f l).Pairwise fun e e' =>
      ∀ f f', e.fate = some f → e'.fate = some f' → stamp f ≠ stamp f' := by
  rcases settle_cases p f l with ⟨hsettle, _⟩ | ⟨before, b, after, rfl, _, _, hsettle⟩
  · rw [hsettle]; exact h.apart
  · rw [hsettle]
    obtain ⟨h₁, h₂, h₃⟩ := List.pairwise_append.mp h.apart
    obtain ⟨_, h₄⟩ := List.pairwise_cons.mp h₂
    refine List.pairwise_append.mpr ⟨h₁, List.pairwise_cons.mpr ⟨fun e he g g' hg hg' => ?_, h₄⟩,
      fun e he e' he' g g' hg hg' => ?_⟩
    · have hpast := h.past e (by simp [he]) g' hg'
      cases hg
      omega
    · rcases List.mem_cons.mp he' with rfl | he'
      · have hpast := h.past e (by simp [he]) g hg
        cases hg'
        omega
      · exact h₃ e he e' (List.mem_cons_of_mem _ he') g g' hg hg'

theorem Kept.past_settle (h : Kept service stamp now l) (hf : stamp f = now) :
    ∀ e ∈ settle p f l, ∀ g, e.fate = some g → stamp g < now + 1 := by
  intro e he g hg
  rcases mem_settle he with he | ⟨h0, _⟩
  · have := h.past e he g hg
    omega
  · rw [h0] at hg
    cases hg
    omega

/-- **Anything but a service** may be given to anyone. -/
theorem Kept.settle (h : Kept service stamp now l) (hf : stamp f = now)
    (hnot : service f = false) : Kept service stamp (now + 1) (settle p f l) := by
  refine ⟨h.past_settle hf, h.apart_settle hf, ?_⟩
  rcases settle_cases p f l with ⟨hsettle, _⟩ | ⟨before, b, after, rfl, _, _, hsettle⟩
  · rw [hsettle]; exact h.inOrder
  · rw [hsettle]
    obtain ⟨h₁, h₂, h₃⟩ := List.pairwise_append.mp h.inOrder
    obtain ⟨_, h₄⟩ := List.pairwise_cons.mp h₂
    refine List.pairwise_append.mpr ⟨h₁, List.pairwise_cons.mpr ⟨fun e he g' hg' hs => ?_, h₄⟩,
      fun e he e' he' g' hg' hs => ?_⟩
    · exact ⟨f, rfl, fun h0 => by rw [hnot] at h0; cases h0⟩
    · rcases List.mem_cons.mp he' with rfl | he'
      · cases hg'
        rw [hnot] at hs
        cases hs
      · exact h₃ e he e' (List.mem_cons_of_mem _ he') g' hg' hs

/-- **A service** may be given to the first pending item. -/
theorem Kept.serve (h : Kept service stamp now l) (hf : stamp f = now) :
    Kept service stamp (now + 1) (Ledger.settle (fun _ => true) f l) := by
  refine ⟨h.past_settle hf, h.apart_settle hf, ?_⟩
  rcases settle_cases (fun _ => true) f l with ⟨hsettle, _⟩ | ⟨before, b, after, rfl, _, hno, hsettle⟩
  · rw [hsettle]; exact h.inOrder
  · rw [hsettle]
    obtain ⟨h₁, h₂, h₃⟩ := List.pairwise_append.mp h.inOrder
    obtain ⟨hpass, h₄⟩ := List.pairwise_cons.mp h₂
    refine List.pairwise_append.mpr ⟨h₁, List.pairwise_cons.mpr ⟨fun e he g' hg' hs => ?_, h₄⟩,
      fun e he e' he' g' hg' hs => ?_⟩
    · -- nothing after a pending item has been served
      obtain ⟨_, h0, _⟩ := hpass e he g' hg' hs
      cases h0
    · rcases List.mem_cons.mp he' with rfl | he'
      · cases hg'
        -- whoever stands before the first pending item has its fate
        cases hfate : e.fate with
        | none =>
            have hmem : e.item ∈ pending before := by
              obtain ⟨u, v, rfl⟩ := List.append_of_mem he
              rw [pending_append]
              refine List.mem_append_right _ ?_
              simp [pending, hfate]
            cases hno _ hmem
        | some g =>
            refine ⟨g, rfl, fun _ => ?_⟩
            have := h.past e (by simp [he]) g hfate
            omega
      · exact h₃ e he e' (List.mem_cons_of_mem _ he') g' hg' hs

end Ledger

end CoherenceSim
