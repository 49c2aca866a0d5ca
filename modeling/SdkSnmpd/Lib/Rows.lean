import Mathlib.Data.List.Basic
import Mathlib.Data.List.Range
import Mathlib.Logic.Function.Iterate

/-!
# Rows of Answers

Questions are answered column by column, and every answer holds the next question of its
column. The answers are taken row by row, up to a number of rounds or up to the first row
that says to stop.

## Contents

- `row`, `asked`: the answers of a round, and the questions they answer.
- `rows`: the answers of the first rounds, one after another.
- `rounds`: the number of rounds, with the round included that says to stop.
-/

namespace SdkSnmpd.Lib

/-! ## Rows -/

section

variable {α β : Type} (ans : α → β) (ask : β → α)

/-- The answers of round `r`. A column goes on with what its last answer asks. -/
def row (xs : List α) : (r : Nat) → List β
  | 0 => xs.map ans
  | r + 1 => (row xs r).map fun b => ans (ask b)

/-- The questions that round `r` answers. -/
def asked (xs : List α) : (r : Nat) → List α
  | 0 => xs
  | r + 1 => (row ans ask xs r).map ask

/-- The answers of the first `k` rounds. -/
def rows (xs : List α) (k : Nat) : List β := (List.range k).flatMap (row ans ask xs)

/-- The questions after those of a round. -/
def advance (xs : List α) : List α := (xs.map ans).map ask

@[simp] theorem length_advance (xs : List α) : (advance ans ask xs).length = xs.length := by
  simp [advance]

theorem row_eq_map_asked (xs : List α) (r : Nat) :
    row ans ask xs r = (asked ans ask xs r).map ans := by
  cases r with
  | zero => rfl
  | succ r => simp [row, asked, Function.comp_def]

/-- Round `r + 1` is round `r` of the questions after the first round. -/
theorem row_succ (xs : List α) (r : Nat) :
    row ans ask xs (r + 1) = row ans ask (advance ans ask xs) r := by
  induction r with
  | zero => simp [row, advance]
  | succ r ih => rw [row, ih, row]

theorem asked_succ (xs : List α) (r : Nat) :
    asked ans ask xs (r + 1) = asked ans ask (advance ans ask xs) r := by
  cases r with
  | zero => rfl
  | succ r =>
    have hrow := row_succ ans ask xs r
    rw [asked, asked, hrow]

/-- Column by column, the questions follow the answers. -/
theorem asked_eq_map_iterate (xs : List α) (r : Nat) :
    asked ans ask xs r = xs.map (fun a => ask (ans a))^[r] := by
  induction r generalizing xs with
  | zero => simp [asked]
  | succ r ih => rw [asked_succ, ih, advance, List.map_map, List.map_map]; rfl

/-- The first round, and the rounds after it. -/
theorem rows_succ (xs : List α) (k : Nat) :
    rows ans ask xs (k + 1) = xs.map ans ++ rows ans ask (advance ans ask xs) k := by
  have hlater : ∀ r, row ans ask xs (r + 1) = row ans ask (advance ans ask xs) r :=
    row_succ ans ask xs
  rw [rows, List.range_succ_eq_map, List.flatMap_cons, List.flatMap_map]
  simp only [hlater]
  rfl

theorem length_rows (xs : List α) (k : Nat) : (rows ans ask xs k).length = k * xs.length := by
  induction k generalizing xs with
  | zero => simp [rows]
  | succ k ih =>
    rw [rows_succ, List.length_append, ih, List.length_map, length_advance, Nat.succ_mul,
      Nat.add_comm]

theorem mem_rows {xs : List α} {k : Nat} {b : β} :
    b ∈ rows ans ask xs k ↔ ∃ r < k, b ∈ row ans ask xs r := by
  simp [rows]

end

/-! ## Rounds -/

/-- The number of rounds: `m`, or up to and including the first round that says to stop. -/
def rounds (stop : Nat → Bool) (m : Nat) : Nat := min m ((List.range m).findIdx stop + 1)

@[simp] theorem rounds_zero (stop : Nat → Bool) : rounds stop 0 = 0 := by simp [rounds]

/-- Either the first round says to stop, or it is followed by the rounds after it. -/
theorem rounds_succ (stop : Nat → Bool) (m : Nat) :
    rounds stop (m + 1) = if stop 0 then 1 else rounds (fun r => stop (r + 1)) m + 1 := by
  rw [rounds, rounds, List.range_succ_eq_map, List.findIdx_cons, List.findIdx_map]
  cases hstop : stop 0 with
  | true => simp
  | false =>
    simp only [cond_false, Bool.false_eq_true, if_false, Function.comp_def,
      Nat.succ_eq_add_one]
    omega

theorem rounds_le (stop : Nat → Bool) (m : Nat) : rounds stop m ≤ m := Nat.min_le_left _ _

/-- The last of fewer than `m` rounds says to stop. -/
theorem stop_of_rounds_lt {stop : Nat → Bool} {m : Nat} (h : rounds stop m < m) :
    ∃ r, rounds stop m = r + 1 ∧ stop r = true := by
  have hround : rounds stop m = (List.range m).findIdx stop + 1 := by
    rw [rounds] at h ⊢
    omega
  have hlt : (List.range m).findIdx stop < (List.range m).length := by
    rw [List.length_range]
    omega
  refine ⟨_, hround, ?_⟩
  have hstop := List.findIdx_getElem (w := hlt)
  rwa [List.getElem_range] at hstop

end SdkSnmpd.Lib
