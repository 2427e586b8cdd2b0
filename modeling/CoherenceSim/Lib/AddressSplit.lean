import Mathlib.Data.Nat.Bitwise

/-!
# Splitting an address

An address is an offset of `p` bits, a field of `s` bits above it, and the rest. Field and
rest together are the address without its offset: they can be joined again, and two
addresses agree in both exactly when they differ in nothing but the offset.
-/

namespace CoherenceSim

namespace AddressSplit

/-- The field of `s` bits above the `p` low ones. -/
def field (p s a : Nat) : Nat := a / 2 ^ p % 2 ^ s

/-- What is above the field. -/
def rest (p s a : Nat) : Nat := a / 2 ^ (p + s)

/-- The address with this field and this rest, and an offset of zero. -/
def join (p s n t : Nat) : Nat := t * 2 ^ (p + s) + n * 2 ^ p

variable {p s n t a b : Nat}

theorem field_lt (p s a : Nat) : field p s a < 2 ^ s := Nat.mod_lt _ (Nat.two_pow_pos s)

/-- Field and rest are the address without its offset. -/
theorem split (p s a : Nat) : rest p s a * 2 ^ s + field p s a = a / 2 ^ p := by
  rw [rest, field, Nat.pow_add, ← Nat.div_div_eq_div_mul, Nat.mul_comm, Nat.div_add_mod]

theorem join_eq (p s n t : Nat) : join p s n t = (t * 2 ^ s + n) * 2 ^ p := by
  rw [join, Nat.add_mul, Nat.pow_add, Nat.mul_comm (2 ^ p), ← Nat.mul_assoc]

theorem join_div (p s n t : Nat) : join p s n t / 2 ^ p = t * 2 ^ s + n := by
  rw [join_eq, Nat.mul_div_cancel _ (Nat.two_pow_pos p)]

theorem field_join (hn : n < 2 ^ s) : field p s (join p s n t) = n := by
  rw [field, join_div, Nat.mul_add_mod_self_right, Nat.mod_eq_of_lt hn]

theorem rest_join (hn : n < 2 ^ s) : rest p s (join p s n t) = t := by
  have hsplit := split p s (join p s n t)
  rw [field_join hn, join_div] at hsplit
  exact Nat.eq_of_mul_eq_mul_right (Nat.two_pow_pos s) (Nat.add_right_cancel hsplit)

/-- **Joining what was split** clears the offset. -/
theorem join_split (p s a : Nat) : join p s (field p s a) (rest p s a) = a - a % 2 ^ p := by
  have hdiv := Nat.div_add_mod a (2 ^ p)
  rw [join_eq, split, Nat.mul_comm]
  omega

/-- **Equal parts** mean equal addresses, up to the offset. -/
theorem split_inj : field p s a = field p s b ∧ rest p s a = rest p s b
    ↔ a - a % 2 ^ p = b - b % 2 ^ p := by
  constructor
  · intro ⟨hfield, hrest⟩
    rw [← join_split p s a, ← join_split p s b, hfield, hrest]
  · intro heq
    rw [← join_split p s a, ← join_split p s b] at heq
    have hfield := congrArg (field p s) heq
    have hrest := congrArg (rest p s) heq
    rw [field_join (field_lt ..), field_join (field_lt ..)] at hfield
    rw [rest_join (field_lt ..), rest_join (field_lt ..)] at hrest
    exact ⟨hfield, hrest⟩

/-- The parts of an address of `w` bits fit into `w` bits again. -/
theorem join_lt {w : Nat} (hw : p + s ≤ w) (hn : n < 2 ^ s) (ht : t < 2 ^ (w - (p + s))) :
    join p s n t < 2 ^ w := by
  have hpow : 2 ^ w = 2 ^ (w - (p + s)) * 2 ^ s * 2 ^ p := by
    rw [Nat.mul_assoc, ← Nat.pow_add, ← Nat.pow_add]
    congr 1
    omega
  rw [join_eq, hpow]
  refine Nat.mul_lt_mul_of_pos_right ?_ (Nat.two_pow_pos p)
  calc t * 2 ^ s + n < t * 2 ^ s + 2 ^ s := Nat.add_lt_add_left hn _
    _ = (t + 1) * 2 ^ s := by rw [Nat.add_mul, Nat.one_mul]
    _ ≤ 2 ^ (w - (p + s)) * 2 ^ s := Nat.mul_le_mul_right _ ht

end AddressSplit

end CoherenceSim
