import Mathlib.Data.List.Perm.Basic

/-!
# Steps in any order

A loop over steps that commute, and of which each may fail. In another order it may be another
step that fails first; but the loop fails in both orders or in none, and then it ends alike.
-/

namespace CoherenceSim

variable {ε α β ι : Type}

/-- Both computations fail, or both yield the same. -/
def Alike (x y : Except ε α) : Prop := x.toOption = y.toOption

namespace Alike

variable {x y z : Except ε α} {a : α}

theorem refl (x : Except ε α) : Alike x x := rfl

theorem symm (h : Alike x y) : Alike y x := Eq.symm h

theorem trans (h : Alike x y) (h' : Alike y z) : Alike x z := Eq.trans h h'

theorem error (e e' : ε) : Alike (.error e : Except ε α) (.error e') := rfl

theorem ok_of_eq {a' : α} (h : a = a') : Alike (.ok a : Except ε α) (.ok a') := by rw [h]; exact refl _

theorem of_eq_ok (h : Alike x y) (hx : x = .ok a) : y = .ok a := by
  rw [hx] at h
  cases y with
  | error e => cases h
  | ok b => cases h; rfl

theorem bind {f g : α → Except ε β} (h : Alike x y) (hf : ∀ a, x = .ok a → Alike (f a) (g a)) :
    Alike (x >>= f) (y >>= g) := by
  cases x with
  | error e =>
      cases y with
      | error e' => exact rfl
      | ok b => cases h
  | ok a =>
      rw [h.of_eq_ok rfl]
      exact hf a rfl

theorem map {f : α → β} (h : Alike x y) : Alike (x.map f) (y.map f) := by
  cases x with
  | error e =>
      cases y with
      | error e' => exact rfl
      | ok b => cases h
  | ok a =>
      rw [h.of_eq_ok rfl]
      exact refl _

/-- **The order of a loop does not matter** if its steps commute. -/
theorem foldlM_perm {f : α → ι → Except ε α}
    (hcomm : ∀ a i j, i ≠ j → Alike (f a i >>= (f · j)) (f a j >>= (f · i))) {l l' : List ι}
    (h : l.Perm l') (a : α) : Alike (l.foldlM f a) (l'.foldlM f a) := by
  induction h generalizing a with
  | nil => exact refl _
  | cons i _ ih =>
      rw [List.foldlM_cons, List.foldlM_cons]
      exact (refl _).bind fun b _ => ih b
  | swap i j l =>
      have hassoc (i j : ι) : (j :: i :: l).foldlM f a
          = (f a j >>= (f · i)) >>= fun b => (l.foldlM f b : Except ε α) := by
        rw [List.foldlM_cons]
        cases f a j with
        | error e => rfl
        | ok b => rfl
      by_cases hij : i = j
      · rw [hij]
        exact refl _
      · rw [hassoc i j, hassoc j i]
        exact (hcomm a j i (Ne.symm hij)).bind fun _ _ => refl _
  | trans _ _ ih₁ ih₂ => exact (ih₁ a).trans (ih₂ a)

end Alike

end CoherenceSim
