import Mathlib.Data.Nat.Digits.Lemmas
import Mathlib.Tactic.Ring

/-!
# Numbers by Their Digits

Digits in the order in which they are read: the most significant one first. Mathlib's
`Nat.ofDigits` has them the other way round.

## Contents

- `number`: the number with the given digits; `foldl_eq` is the loop that reads it.
- `number_append`, `number_lt`: how digits add up, and a bound.
- `number_eq_zero_iff`: which numbers are zero.
- `digits`: the digits of a number, without leading zeros.
-/

namespace SdkSnmpd.Lib.Radix

/-- The number with the digits `ds`, most significant first. -/
def number (base : Nat) (ds : List Nat) : Nat := Nat.ofDigits base ds.reverse

variable {base : Nat}

@[simp] theorem number_nil : number base [] = 0 := rfl

theorem number_cons (d : Nat) (ds : List Nat) :
    number base (d :: ds) = d * base ^ ds.length + number base ds := by
  rw [number, Nat.ofDigits_reverse_cons, number, Nat.mul_comm, Nat.add_comm]

/-- The digits of `ys` stand behind those of `xs`. -/
theorem number_append (xs ys : List Nat) :
    number base (xs ++ ys) = number base xs * base ^ ys.length + number base ys := by
  rw [number, List.reverse_append, Nat.ofDigits_append, List.length_reverse, Nat.mul_comm,
    Nat.add_comm]
  rfl

/-- Reading a number digit by digit, from what has been read before. -/
theorem foldl_eq (acc : Nat) (ds : List Nat) :
    ds.foldl (fun acc d => acc * base + d) acc = acc * base ^ ds.length + number base ds := by
  induction ds generalizing acc with
  | nil => simp
  | cons d ds ih =>
    rw [List.foldl_cons, ih, number_cons, List.length_cons]
    ring

theorem number_lt (hbase : 1 < base) {ds : List Nat} (h : ∀ d ∈ ds, d < base) :
    number base ds < base ^ ds.length := by
  have hlt := Nat.ofDigits_lt_base_pow_length hbase (l := ds.reverse) (by simpa using h)
  rwa [List.length_reverse] at hlt

/-- Only zeros make up the number 0. -/
theorem number_eq_zero_iff (hbase : 0 < base) (ds : List Nat) :
    number base ds = 0 ↔ ∀ d ∈ ds, d = 0 := by
  induction ds with
  | nil => simp
  | cons d ds ih =>
    have hpow : base ^ ds.length ≠ 0 := Nat.pos_iff_ne_zero.mp (Nat.pow_pos hbase)
    rw [number_cons, Nat.add_eq_zero_iff, Nat.mul_eq_zero, or_iff_left hpow, ih,
      List.forall_mem_cons]

/-- A number grows with every digit behind it, unless it is 0. -/
theorem number_lt_append (hbase : 1 < base) {xs ys : List Nat} (hx : number base xs ≠ 0)
    (hy : ys ≠ []) : number base xs < number base (xs ++ ys) := by
  have hpow : 1 < base ^ ys.length := Nat.one_lt_pow (by simpa using hy) hbase
  calc number base xs < number base xs * base ^ ys.length :=
        (Nat.lt_mul_iff_one_lt_right (Nat.pos_of_ne_zero hx)).mpr hpow
    _ ≤ number base (xs ++ ys) := by
        rw [number_append]
        exact Nat.le_add_right _ _

/-! ## The digits of a number -/

/-- The digits of a number, most significant first. The number 0 has the digit 0. -/
def digits (base n : Nat) : List Nat := if n = 0 then [0] else (Nat.digits base n).reverse

theorem digits_of_ne_zero {n : Nat} (h : n ≠ 0) : digits base n = (Nat.digits base n).reverse :=
  if_neg h

theorem digits_ne_nil (n : Nat) : digits base n ≠ [] := by
  unfold digits
  split
  · exact List.cons_ne_nil _ _
  · rename_i hn
    rw [ne_eq, List.reverse_eq_nil_iff]
    exact Nat.digits_ne_nil_iff_ne_zero.mpr hn

/-- The digits make up the number. -/
@[simp] theorem number_digits (n : Nat) : number base (digits base n) = n := by
  unfold digits
  split
  · rename_i hzero
    rw [hzero, number, List.reverse_singleton, Nat.ofDigits_singleton]
  · rw [number, List.reverse_reverse, Nat.ofDigits_digits]

theorem digits_lt (hbase : 1 < base) {n d : Nat} (h : d ∈ digits base n) : d < base := by
  unfold digits at h
  split at h
  · obtain rfl := List.mem_singleton.mp h
    exact Nat.lt_trans Nat.zero_lt_one hbase
  · exact Nat.digits_lt_base hbase (List.mem_reverse.mp h)

/-- Only the number 0 starts with the digit 0. -/
theorem digits_eq_of_head {n : Nat} (h : (digits base n).head? = some 0) : digits base n = [0] := by
  by_cases hn : n = 0
  · exact if_pos hn
  · have hlast := Nat.getLast_digit_ne_zero base hn
    rw [digits_of_ne_zero hn, List.head?_reverse,
      List.getLast?_eq_some_getLast (Nat.digits_ne_nil_iff_ne_zero.mpr hn)] at h
    exact absurd (Option.some.inj h) hlast

theorem length_digits (hbase : 1 < base) (n : Nat) :
    (digits base n).length = Nat.log base n + 1 := by
  by_cases hn : n = 0
  · rw [hn, Nat.log_zero_right]
    rfl
  · rw [digits_of_ne_zero hn, List.length_reverse, Nat.length_digits base n hbase hn]

/-- The first digits alone make up a smaller number. -/
theorem number_lt_of_digits_eq (hbase : 1 < base) {n : Nat} {xs ys : List Nat} (hx : xs ≠ [])
    (hy : ys ≠ []) (h : digits base n = xs ++ ys) : number base xs < n := by
  obtain ⟨d, xs, rfl⟩ := List.exists_cons_of_ne_nil hx
  have hne : number base (d :: xs) ≠ 0 := by
    intro hzero
    obtain rfl : d = 0 := (number_eq_zero_iff (by omega) _).mp hzero d List.mem_cons_self
    -- a leading 0 would be the only digit
    have hone := digits_eq_of_head (show (digits base n).head? = some 0 by rw [h]; rfl)
    rw [h, List.cons_append, List.cons.injEq, List.append_eq_nil_iff] at hone
    exact hy hone.2.2
  have hlt := number_lt_append hbase hne hy
  rwa [← h, number_digits] at hlt

end SdkSnmpd.Lib.Radix
