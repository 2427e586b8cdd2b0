import Mathlib.Algebra.Order.BigOperators.Group.Finset
import Mathlib.Algebra.Ring.Nat
import Mathlib.Algebra.Group.Action.Defs

/-!
# Ranking functions

A system that can always move, and that loses rank with every move until it is done, is done
after as many moves as its rank says. The rank of a system of parties is a sum, and a move is
mostly one party's: it pays for what the others gain by it.
-/

namespace CoherenceSim

/-- `t` is reached from `s` in this many steps. -/
inductive Moves {σ : Type} (R : σ → σ → Prop) : Nat → σ → σ → Prop
  | refl (s : σ) : Moves R 0 s s
  | head {n : Nat} {s t u : σ} : R s t → Moves R n t u → Moves R (n + 1) s u

/-- What a rank has to satisfy: there is always a step, a step from a state that is not done
lowers the rank, and no step leaves the states that are done. -/
structure Ranking {σ : Type} (R : σ → σ → Prop) (inv done : σ → Prop) (rank : σ → Nat) : Prop where
  step : ∀ s, inv s → ∃ t, R s t ∧ inv t ∧ (done s → done t) ∧ (¬ done s → rank t < rank s)

namespace Ranking

variable {σ : Type} {R : σ → σ → Prop} {inv done : σ → Prop} {rank : σ → Nat}

/-- What is done stays done. -/
theorem stays (h : Ranking R inv done rank) (k : Nat) {s : σ} (hs : inv s) (hd : done s) :
    ∃ t, Moves R k s t ∧ inv t ∧ done t := by
  induction k generalizing s with
  | zero => exact ⟨s, .refl s, hs, hd⟩
  | succ k ih =>
      obtain ⟨t, hst, ht, hdone, _⟩ := h.step s hs
      obtain ⟨u, htu, hu, hud⟩ := ih ht (hdone hd)
      exact ⟨u, .head hst htu, hu, hud⟩

/-- **The rank bounds the way.** -/
theorem reaches (h : Ranking R inv done rank) (k : Nat) {s : σ} (hs : inv s) (hk : rank s ≤ k) :
    ∃ t, Moves R k s t ∧ inv t ∧ done t := by
  induction k generalizing s with
  | zero =>
      have hd : done s := by
        by_contra hnot
        obtain ⟨t, _, _, _, hlt⟩ := h.step s hs
        have := hlt hnot
        omega
      exact h.stays 0 hs hd
  | succ k ih =>
      by_cases hd : done s
      · exact h.stays (k + 1) hs hd
      · obtain ⟨t, hst, ht, _, hlt⟩ := h.step s hs
        have hlt := hlt hd
        obtain ⟨u, htu, hu, hud⟩ := ih ht (by omega)
        exact ⟨u, .head hst htu, hu, hud⟩

end Ranking

/-- **One pays for all**: if every other party gains `g` at most, and one loses as much as all
can gain and `k` besides, then the sum falls by `k`. -/
theorem sum_add_le_sum {ι : Type} [DecidableEq ι] {s : Finset ι} {f f' : ι → Nat} {i : ι}
    {g k : Nat} (hi : i ∈ s) (payer : f' i + s.card * g + k ≤ f i)
    (others : ∀ j ∈ s, j ≠ i → f' j ≤ f j + g) : ∑ j ∈ s, f' j + k ≤ ∑ j ∈ s, f j := by
  have hgain : ∑ j ∈ s.erase i, f' j ≤ ∑ j ∈ s.erase i, f j + s.card * g :=
    calc ∑ j ∈ s.erase i, f' j
        ≤ ∑ j ∈ s.erase i, (f j + g) := Finset.sum_le_sum fun j hj =>
          others j (Finset.mem_of_mem_erase hj) (Finset.ne_of_mem_erase hj)
      _ = ∑ j ∈ s.erase i, f j + (s.erase i).card * g := by
          rw [Finset.sum_add_distrib, Finset.sum_const, smul_eq_mul]
      _ ≤ ∑ j ∈ s.erase i, f j + s.card * g :=
          Nat.add_le_add_left (Nat.mul_le_mul_right g Finset.card_erase_le) _
  rw [← Finset.add_sum_erase s f' hi, ← Finset.add_sum_erase s f hi]
  omega

/-- When only one party gains, the sum gains no more. -/
theorem sum_le_sum_add {ι : Type} [DecidableEq ι] {s : Finset ι} {f f' : ι → Nat} {i : ι} {k : Nat}
    (hi : i ∈ s) (gains : f' i ≤ f i + k) (others : ∀ j ∈ s, j ≠ i → f' j ≤ f j) :
    ∑ j ∈ s, f' j ≤ ∑ j ∈ s, f j + k := by
  have hrest : ∑ j ∈ s.erase i, f' j ≤ ∑ j ∈ s.erase i, f j :=
    Finset.sum_le_sum fun j hj => others j (Finset.mem_of_mem_erase hj) (Finset.ne_of_mem_erase hj)
  rw [← Finset.add_sum_erase s f' hi, ← Finset.add_sum_erase s f hi]
  omega

end CoherenceSim
