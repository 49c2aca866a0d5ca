import Mathlib.Algebra.Order.Ring.Int
import Mathlib.Data.Nat.Size

/-!
# Rounding to a Number of Significant Bits

The whole numbers that a binary floating-point format represents, and the conversion of a whole
number to the nearest of them, ties to even. Ranges of exponents play no part here.

## Contents

- `round`, `roundInt`: the conversion.
- `round_of_le`: short numbers are kept.
- `round_le_add_unit`: a bound on the error.
- `le_round_iff`, `le_roundInt_iff`: a comparison with a short number survives the conversion.
-/

namespace SdkSnmpd.Lib.Rounding

/-- The distance of two neighbours among the numbers of `p` bits, near `n`. -/
def unit (p n : Nat) : Nat := 2 ^ (n.size - p)

/-- The number of `p` significant bits that is nearest to `n`. Of two, the one with an even last
    bit. -/
def round (p n : Nat) : Nat :=
  let q := n / unit p n
  let r := n % unit p n
  (if 2 * r < unit p n ∨ (2 * r = unit p n ∧ q % 2 = 0) then q else q + 1) * unit p n

/-- The sign is kept apart. -/
def roundInt (p : Nat) (x : Int) : Int :=
  if 0 ≤ x then round p x.natAbs else -(round p x.natAbs)

section

variable {p n t : Nat}

theorem round_of_lt (h : n < 2 ^ p) : round p n = n := by
  have hunit : unit p n = 1 := by
    rw [unit, Nat.sub_eq_zero_of_le (Nat.size_le.mpr h), pow_zero]
  simp [round, hunit, Nat.mod_one]

/-- A number that is too long is rounded down to its first `p` bits at most, and the first of
    them is set. -/
theorem pow_le_round (hp : 0 < p) (h : 2 ^ p ≤ n) : 2 ^ p ≤ round p n := by
  have hsize : p < n.size := Nat.lt_size.mpr h
  have hbit : 2 ^ (n.size - 1) ≤ n := Nat.lt_size.mp (by omega)
  have hsplit : 2 ^ (n.size - 1) = 2 ^ (p - 1) * unit p n := by
    rw [unit, ← pow_add]
    congr 1
    omega
  -- the quotient has `p` bits
  have hq : 2 ^ (p - 1) ≤ n / unit p n := by
    have hpos : 0 < unit p n := Nat.two_pow_pos _
    rw [Nat.le_div_iff_mul_le hpos, ← hsplit]
    exact hbit
  calc 2 ^ p ≤ 2 ^ (n.size - 1) := Nat.pow_le_pow_right (by decide) (by omega)
    _ = 2 ^ (p - 1) * unit p n := hsplit
    _ ≤ n / unit p n * unit p n := Nat.mul_le_mul_right _ hq
    _ ≤ round p n := by
      unfold round
      refine Nat.mul_le_mul_right _ ?_
      split
      · exact Nat.le_refl _
      · exact Nat.le_succ _

/-- A power of two with one bit more is represented as well. -/
theorem round_of_le (hp : 0 < p) (h : n ≤ 2 ^ p) : round p n = n := by
  rcases Nat.lt_or_eq_of_le h with hlt | rfl
  · exact round_of_lt hlt
  · have hunit : unit p (2 ^ p) = 2 := by
      rw [unit, Nat.size_pow, Nat.add_sub_cancel_left, pow_one]
    obtain ⟨k, rfl⟩ : ∃ k, p = k + 1 := ⟨p - 1, by omega⟩
    have heven : 2 ^ (k + 1) % 2 = 0 := by rw [pow_succ, Nat.mul_mod_left]
    simp only [round, hunit, heven]
    rw [if_pos (.inl (by decide)), Nat.div_mul_cancel (Nat.dvd_of_mod_eq_zero heven)]

/-- **Comparisons.** Whether a number reaches a threshold of at most `p` bits can be told after
    rounding. -/
theorem le_round_iff (hp : 0 < p) (ht : t ≤ 2 ^ p) : t ≤ round p n ↔ t ≤ n := by
  by_cases hn : n < 2 ^ p
  · rw [round_of_lt hn]
  · have hle := Nat.not_lt.mp hn
    exact iff_of_true (ht.trans (pow_le_round hp hle)) (ht.trans hle)

/-- Nothing is rounded up to more than the next neighbour. -/
theorem round_le_add_unit (p n : Nat) : round p n ≤ n + unit p n := by
  have hdiv := Nat.div_mul_le_self n (unit p n)
  unfold round
  dsimp only
  split
  · omega
  · rw [Nat.succ_mul]
    omega

theorem roundInt_natCast : roundInt p n = round p n := by
  rw [roundInt, if_pos (Int.natCast_nonneg n), Int.natAbs_natCast]

theorem roundInt_neg_natCast : roundInt p (-(n : Int)) = -(round p n : Int) := by
  rcases Nat.eq_zero_or_pos n with rfl | hn
  · simp [roundInt, round, unit]
  · rw [roundInt, if_neg (by omega), Int.natAbs_neg, Int.natAbs_natCast]

theorem roundInt_of_abs_le {x : Int} (hp : 0 < p) (hlo : -2 ^ p ≤ x) (hhi : x ≤ 2 ^ p) :
    roundInt p x = x := by
  obtain ⟨n, rfl | rfl⟩ := x.eq_nat_or_neg
  · rw [roundInt_natCast, round_of_le hp (by exact_mod_cast hhi)]
  · rw [roundInt_neg_natCast, round_of_le hp (by
      have hcast : (n : Int) ≤ 2 ^ p := by omega
      exact_mod_cast hcast)]

/-- The same for signed numbers and a threshold that is positive. -/
theorem le_roundInt_iff {x : Int} {t : Nat} (hp : 0 < p) (hpos : 0 < t) (ht : t ≤ 2 ^ p) :
    (t : Int) ≤ roundInt p x ↔ (t : Int) ≤ x := by
  obtain ⟨n, rfl | rfl⟩ := x.eq_nat_or_neg
  · rw [roundInt_natCast, Int.ofNat_le, Int.ofNat_le, le_round_iff hp ht]
  · rw [roundInt_neg_natCast]
    omega

end

end SdkSnmpd.Lib.Rounding
