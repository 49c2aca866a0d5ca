import Mathlib.Data.List.Chain
import Mathlib.Data.List.Perm.Basic
import Mathlib.Data.List.DropRight
import Mathlib.Algebra.Group.Nat.Even

/-!
# Removing Entries from an Array in Place

A loop that walks over an array, removes the entries that meet a condition, and advances its
index in every round. The entry that moves up into a freed place is passed over.

## Contents

- `kept`, `released`, `dropped`: what stays, what is removed and released, and what is removed
  without being released, the last entry.
- `kept_eq_filter_iff`: the loop removes the right entries exactly when no two neighbours
  meet the condition.
- `dropped_eq_nil_iff`: it releases all that it removes exactly when the entries at the end
  that meet the condition are even in number.
-/

namespace SdkSnmpd.Lib.Sweep

variable {α : Type} (dead : α → Bool)

/-! ## The walk -/

/-- The entries that stay in the array. -/
def kept : List α → List α
  | [] => []
  | [x] => if dead x then [] else [x]
  | x :: y :: rest =>
      -- `y` moves up into the place of `x`, and the index passes over it
      if dead x then y :: kept rest else x :: kept (y :: rest)

/-- The entries that are removed and released. -/
def released : List α → List α
  | [] => []
  | [_] => []
  | x :: y :: rest => if dead x then x :: released rest else released (y :: rest)

/-- The entries that are removed only: the last one of the array. -/
def dropped : List α → List α
  | [] => []
  | [x] => if dead x then [x] else []
  | x :: y :: rest => if dead x then dropped rest else dropped (y :: rest)

/-! ## Nothing is lost or doubled -/

/-- Every entry stays, is released, or is dropped. -/
theorem perm (xs : List α) :
    (kept dead xs ++ (released dead xs ++ dropped dead xs)).Perm xs := by
  fun_induction kept dead xs with
  | case1 => rfl
  | case2 x hx => simp [released, dropped, hx]
  | case3 x hx => simp [released, dropped, hx]
  | case4 x y rest hx ih =>
    have hcons : (x :: (kept dead rest ++ (released dead rest ++ dropped dead rest))).Perm
        (x :: rest) := ih.cons x
    have hmiddle : (kept dead rest ++ x :: (released dead rest ++ dropped dead rest)).Perm
        (x :: rest) := List.perm_middle.trans hcons
    simp only [released, dropped, hx, if_true, List.cons_append]
    exact (hmiddle.cons y).trans (List.Perm.swap x y rest)
  | case5 x y rest hx ih =>
    simp only [released, dropped, hx, List.cons_append]
    exact ih.cons x

/-- The walk never removes an entry that is not dead. -/
theorem filter_kept (xs : List α) :
    (kept dead xs).filter (fun x => !dead x) = xs.filter fun x => !dead x := by
  fun_induction kept dead xs with
  | case1 => rfl
  | case2 x hx => simp [hx]
  | case3 x hx => simp [hx]
  | case4 x y rest hx ih => simp [List.filter_cons, hx, ih]
  | case5 x y rest hx ih => simp [List.filter_cons, hx, ih]

/-! ## When nothing dead stays -/

/-- No two neighbours are dead. -/
def NoneAdjacent (xs : List α) : Prop := xs.IsChain fun x y => ¬ (dead x = true ∧ dead y = true)

/-- Only entries that are not dead stay exactly when no two neighbours are dead. -/
theorem kept_alive_iff (xs : List α) :
    (∀ x ∈ kept dead xs, dead x = false) ↔ NoneAdjacent dead xs := by
  unfold NoneAdjacent
  fun_induction kept dead xs with
  | case1 => simp
  | case2 x hx => simp
  | case3 x hx => simpa using hx
  | case4 x y rest hx ih =>
    rw [List.forall_mem_cons, ih, List.isChain_cons_cons]
    -- the entry that was passed over
    cases hy : dead y with
    | true => simp [hx]
    | false =>
      cases rest with
      | nil => simp
      | cons z rest => simp [List.isChain_cons_cons, hy]
  | case5 x y rest hx ih =>
    rw [List.forall_mem_cons, ih, List.isChain_cons_cons]
    simp [hx]

theorem kept_eq_filter_iff (xs : List α) :
    kept dead xs = xs.filter (fun x => !dead x) ↔ NoneAdjacent dead xs := by
  rw [← kept_alive_iff, ← filter_kept]
  constructor
  · intro h x hx
    rw [h] at hx
    simpa using (List.mem_filter.mp hx).2
  · intro h
    symm
    rw [List.filter_eq_self]
    intro x hx
    simp [h x hx]

/-! ## When everything removed is released -/

/-- A further entry in front belongs to the dead entries at the end only where all entries
    are dead. -/
theorem length_rtakeWhile_cons (x : α) (xs : List α) :
    ((x :: xs).rtakeWhile dead).length =
      if xs.all dead ∧ dead x then xs.length + 1 else (xs.rtakeWhile dead).length := by
  simp only [List.rtakeWhile, List.length_reverse]
  rw [List.reverse_cons, List.takeWhile_append]
  have hall : (xs.reverse.takeWhile dead).length = xs.reverse.length ↔ xs.all dead := by
    constructor
    · intro h
      have heq := (List.takeWhile_prefix dead).eq_of_length h
      rw [List.takeWhile_eq_self_iff] at heq
      simpa using heq
    · intro h
      rw [List.takeWhile_eq_self_iff.mpr (by simpa using h)]
  by_cases h : xs.all dead
  · have hlen := hall.mpr h
    rw [if_pos hlen]
    cases hx : dead x with
    | true => simp [h, hx]
    | false => simp [hx, hlen]
  · rw [if_neg (fun hlen => h (hall.mp hlen)), if_neg (fun hboth => h hboth.1)]

/-- Everything that is removed is released exactly when the dead entries at the end are even
    in number. -/
theorem dropped_eq_nil_iff (xs : List α) :
    dropped dead xs = [] ↔ Even (xs.rtakeWhile dead).length := by
  fun_induction dropped dead xs with
  | case1 => simp
  | case2 x hx => simp [List.rtakeWhile, hx]
  | case3 x hx => simp [List.rtakeWhile, hx]
  | case4 x y rest hx ih =>
    rw [ih, length_rtakeWhile_cons, length_rtakeWhile_cons]
    by_cases h : rest.all dead
    · -- `x` and `y` lengthen the run together, or neither of them does
      have hlen : (rest.rtakeWhile dead).length = rest.length :=
        congrArg List.length (List.rtakeWhile_eq_self_iff.mpr (by simpa using h))
      cases hy : dead y with
      | true => simp [h, hx, hy, hlen, Nat.even_add_one]
      | false => simp [hy]
    · simp [h]
  | case5 x y rest hx ih =>
    rw [ih, length_rtakeWhile_cons dead x]
    simp [hx]

end SdkSnmpd.Lib.Sweep
