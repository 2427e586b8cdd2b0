import CoherenceSim.Model.Bus

/-!
# Reasoning about fallible steps

A computation in `Except` that succeeded can be taken apart at every bind, and an
assertion that succeeded was true.
-/

namespace CoherenceSim

namespace Outcome

variable {ε α β : Type}

@[simp] theorem ok_bind (a : α) (f : α → Except ε β) : (Except.ok a >>= f) = f a := rfl

@[simp] theorem error_bind (e : ε) (f : α → Except ε β) :
    ((Except.error e : Except ε α) >>= f) = .error e := rfl

@[simp] theorem pure_eq_ok (a : α) : (pure a : Except ε α) = .ok a := rfl

@[simp] theorem throw_eq_error (e : ε) : (throw e : Except ε α) = .error e := rfl

/-- A bind succeeds exactly when both of its halves do. -/
theorem bind_eq_ok {x : Except ε α} {f : α → Except ε β} {b : β} :
    (x >>= f) = .ok b ↔ ∃ a, x = .ok a ∧ f a = .ok b := by
  cases x with
  | error e => simp
  | ok a => simp

/-- A test of the result, where there is one. -/
theorem any_toOption {x : Except ε α} {p : α → Bool} :
    x.toOption.any p = true ↔ ∃ a, x = .ok a ∧ p a = true := by
  cases x with
  | error e => simp [Except.toOption]
  | ok a => simp [Except.toOption]

/-- A loop over a list goes through if each of its steps does. -/
theorem mapM_eq_ok {f : α → Except ε β} {l : List α} (h : ∀ a ∈ l, ∃ b, f a = .ok b) :
    ∃ bs, l.mapM f = .ok bs ∧ bs.length = l.length
      ∧ ∀ (i : Nat) (a : α), l[i]? = some a → ∃ b, bs[i]? = some b ∧ f a = .ok b := by
  induction l with
  | nil => exact ⟨[], rfl, rfl, fun i a ha => by cases ha⟩
  | cons a l ih =>
      obtain ⟨b, hb⟩ := h a List.mem_cons_self
      obtain ⟨bs, hbs, hlen, hall⟩ := ih fun a' h' => h a' (List.mem_cons_of_mem _ h')
      refine ⟨b :: bs, ?_, by rw [List.length_cons, List.length_cons, hlen], fun i a' ha' => ?_⟩
      · rw [List.mapM_cons, hb, hbs]
        rfl
      · cases i with
        | zero =>
            cases ha'
            exact ⟨b, rfl, hb⟩
        | succ i => exact hall i a' ha'

end Outcome

@[simp] theorem assertThat_true (f : Fault) : assertThat true f = .ok () := rfl

@[simp] theorem assertThat_false (f : Fault) : assertThat false f = .error f := rfl

theorem assertThat_eq_ok {b : Bool} {f : Fault} {u : Unit} : assertThat b f = .ok u ↔ b = true := by
  cases b <;> simp

end CoherenceSim
