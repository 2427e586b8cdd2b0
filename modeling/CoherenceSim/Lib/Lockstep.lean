import Mathlib.Data.List.Basic

/-!
# Two computations in lockstep

A fallible computation follows another one through a map of the states, if it fails when the
other one fails, with the same error, and otherwise yields the image of what the other one
yields. To compare two programs it is enough to compare their steps.
-/

namespace CoherenceSim

variable {ε ι α α' β β' : Type}

/-- `x'` does what `x` does, up to `φ`. -/
def Lockstep (φ : α → α') (x : Except ε α) (x' : Except ε α') : Prop := x' = x.map φ

namespace Lockstep

variable {φ : α → α'} {ψ : β → β'} {x : Except ε α} {x' : Except ε α'}

theorem ok (a : α) : Lockstep φ (.ok a : Except ε α) (.ok (φ a)) := rfl

theorem ok_of_eq {a : α} {a' : α'} (h : a' = φ a) :
    Lockstep φ (.ok a : Except ε α) (.ok a') := by
  rw [h]; exact ok a

theorem error (e : ε) : Lockstep φ (.error e) (.error e) := rfl

/-- What was not mapped stays the same. -/
theorem eq {x x' : Except ε α} (h : Lockstep id x x') : x' = x := by
  cases x <;> exact h

theorem of_eq_ok (h : Lockstep φ x x') {a : α} (hx : x = .ok a) : x' = .ok (φ a) := by
  rw [h, hx]; rfl

theorem bind {f : α → Except ε β} {f' : α' → Except ε β'} (h : Lockstep φ x x')
    (hf : ∀ a, x = .ok a → Lockstep ψ (f a) (f' (φ a))) : Lockstep ψ (x >>= f) (x' >>= f') := by
  rw [Lockstep] at h
  subst h
  cases x with
  | error e => exact rfl
  | ok a => exact hf a rfl

/-- Two computations that begin with the same answer. -/
theorem bind_eq {x x' : Except ε α} {f : α → Except ε β} {f' : α → Except ε β'}
    (h : Lockstep id x x') (hf : ∀ a, x = .ok a → Lockstep ψ (f a) (f' a)) :
    Lockstep ψ (x >>= f) (x' >>= f') :=
  h.bind hf

theorem bind_same {f : α → Except ε β} {f' : α → Except ε β'}
    (hf : ∀ a, x = .ok a → Lockstep ψ (f a) (f' a)) : Lockstep ψ (x >>= f) (x >>= f') := by
  cases x with
  | error e => exact rfl
  | ok a => exact hf a rfl

theorem ite {c : Prop} [Decidable c] {y : Except ε α} {y' : Except ε α'}
    (hx : c → Lockstep φ x x') (hy : ¬ c → Lockstep φ y y') :
    Lockstep φ (if c then x else y) (if c then x' else y') := by
  by_cases hc : c
  · rw [if_pos hc, if_pos hc]; exact hx hc
  · rw [if_neg hc, if_neg hc]; exact hy hc

/-- A loop follows another one, if its steps do as long as `P` holds of what is still to do. -/
theorem foldlM {f : α → ι → Except ε α} {f' : α' → ι → Except ε α'} {P : List ι → α → Prop}
    (step : ∀ i rest a, P (i :: rest) a → Lockstep φ (f a i) (f' (φ a) i))
    (keep : ∀ i rest a b, P (i :: rest) a → f a i = .ok b → P rest b) :
    ∀ (l : List ι) (a : α), P l a → Lockstep φ (l.foldlM f a) (l.foldlM f' (φ a))
  | [], a, _ => ok a
  | i :: rest, a, h => by
      rw [List.foldlM_cons, List.foldlM_cons]
      exact bind (step i rest a h) fun b hb => foldlM step keep rest b (keep i rest a b h hb)

end Lockstep

end CoherenceSim
