import Mathlib.Data.List.Lex
import Mathlib.Data.List.Sort

/-!
# Successors in an Ordered List

A table whose entries ascend by a key, and the linear scan for the first entry beyond a
given key.

## Contents

- `findIdx_eq_findIdx_iff`: when two tests stop a scan at the same index.
- `IsLeastBeyond`: the index of the least entry beyond a key. In an ascending table a scan
  finds it (`isLeastBeyond_iff`).
- `beyond_eq_cons`: the entries beyond a key are its successor and the entries beyond that.
-/

namespace SdkSnmpd.Lib

/-! ## Scans -/

/-- Two scans stop at the same index exactly when the tests agree up to the first entry that
    the second one accepts. -/
theorem findIdx_eq_findIdx_iff {α : Type} (p q : α → Bool) (xs : List α) :
    xs.findIdx p = xs.findIdx q ↔
      ∀ i (h : i < xs.length), i ≤ xs.findIdx q → p xs[i] = q xs[i] := by
  induction xs with
  | nil => simp
  | cons x xs ih =>
    simp only [List.findIdx_cons]
    cases hq : q x with
    | true =>
      -- the second scan stops here
      cases hp : p x with
      | true =>
        simp only [cond_true, true_iff]
        intro i hi hle
        obtain rfl : i = 0 := by omega
        simp [hp, hq]
      | false =>
        simp only [cond_true, cond_false, Nat.add_one_ne_zero, false_iff]
        intro h
        have hzero := h 0 (Nat.zero_lt_succ _) le_rfl
        simp [hp, hq] at hzero
    | false =>
      cases hp : p x with
      | true =>
        simp only [cond_true, cond_false, (Nat.succ_ne_zero _).symm, false_iff]
        intro h
        have hzero := h 0 (Nat.zero_lt_succ _) (Nat.zero_le _)
        simp [hp, hq] at hzero
      | false =>
        simp only [cond_false, Nat.add_right_cancel_iff, ih]
        constructor
        · intro h i hi hle
          cases i with
          | zero => simp [hp, hq]
          | succ i => exact h i (Nat.lt_of_succ_lt_succ hi) (Nat.le_of_succ_le_succ hle)
        · intro h i hi hle
          exact h (i + 1) (Nat.succ_lt_succ hi) (Nat.succ_le_succ hle)

/-- A scan comes to an entry exactly when it accepts none of the entries before. -/
theorem le_findIdx_iff {α : Type} (p : α → Bool) {xs : List α} {i : Nat} (h : i < xs.length) :
    i ≤ xs.findIdx p ↔ ∀ j (_ : j < i), p xs[j] = false := by
  constructor
  · intro hle j hj
    exact List.not_of_lt_findIdx (Nat.lt_of_lt_of_le hj hle)
  · intro hnone
    exact List.le_findIdx_of_not h hnone

/-! ## Ascending tables -/

section

variable {α κ : Type} [LinearOrder κ] {key : α → κ}

/-- The table ascends strictly by its keys. -/
def Ascending (key : α → κ) (xs : List α) : Prop := xs.Pairwise fun x y => key x < key y

/-- The entry has a key beyond `k`. -/
def isBeyond (key : α → κ) (k : κ) (x : α) : Bool := decide (k < key x)

/-- The entries with a key beyond `k`. -/
def beyond (key : α → κ) (k : κ) (xs : List α) : List α := xs.filter (isBeyond key k)

theorem isBeyond_iff {k : κ} {x : α} : isBeyond key k x = true ↔ k < key x := decide_eq_true_iff

/-- The index of the least entry beyond `k`, or the length of the table if there is none. -/
def IsLeastBeyond (key : α → κ) (k : κ) (xs : List α) (pos : Nat) : Prop :=
  (∃ h : pos < xs.length, k < key xs[pos] ∧ ∀ x ∈ xs, k < key x → key xs[pos] ≤ key x) ∨
    (pos = xs.length ∧ ∀ x ∈ xs, ¬ k < key x)

/-- In an ascending table the scan finds the least entry beyond a key, and nothing else is
    the least. -/
theorem isLeastBeyond_iff {k : κ} {xs : List α} (h : Ascending key xs) (pos : Nat) :
    IsLeastBeyond key k xs pos ↔ pos = xs.findIdx (isBeyond key k) := by
  set n := xs.findIdx (isBeyond key k) with hn
  have hbefore : ∀ i (hi : i < xs.length), i < n → ¬ k < key xs[i] := fun i _ hlt => by
    simpa [isBeyond] using List.not_of_lt_findIdx hlt
  have hat : ∀ hlt : n < xs.length, k < key xs[n] := fun hlt => by
    simpa [isBeyond] using List.findIdx_getElem (w := hlt)
  have hmono : ∀ i j (hi : i < xs.length) (hj : j < xs.length), i < j → key xs[i] < key xs[j] :=
    fun i j hi hj hij => List.pairwise_iff_getElem.mp h i j hi hj hij
  constructor
  · intro hleast
    rcases hleast with ⟨hlt, hbeyond, hle⟩ | ⟨rfl, hnone⟩
    · have hge : n ≤ pos := by
        by_contra hlt'
        exact hbefore pos hlt (Nat.not_le.mp hlt') hbeyond
      have hnlt : n < xs.length := Nat.lt_of_le_of_lt hge hlt
      rcases Nat.lt_or_eq_of_le hge with hlt' | heq
      · -- the scan would have stopped at a lesser key
        have hkey := hle xs[n] (List.getElem_mem hnlt) (hat hnlt)
        exact absurd (hmono n pos hnlt hlt hlt') (not_lt_of_ge hkey)
      · exact heq.symm
    · symm
      rw [hn, List.findIdx_eq_length]
      intro x hx
      simpa [isBeyond] using hnone x hx
  · rintro rfl
    by_cases hlt : n < xs.length
    · refine .inl ⟨hlt, hat hlt, fun x hx hbeyond => ?_⟩
      obtain ⟨i, hi, rfl⟩ := List.mem_iff_getElem.mp hx
      -- an entry beyond the key is not before the first of them
      rcases Nat.lt_trichotomy i n with hin | rfl | hni
      · exact absurd hbeyond (hbefore i hi hin)
      · exact le_rfl
      · exact (hmono n i hlt hi hni).le
    · have heq : n = xs.length := Nat.le_antisymm List.findIdx_le_length (Nat.not_lt.mp hlt)
      refine .inr ⟨heq, fun x hx => ?_⟩
      obtain ⟨i, hi, rfl⟩ := List.mem_iff_getElem.mp hx
      exact hbefore i hi (heq ▸ hi)

/-- Where the first entry is beyond the key, all are. -/
theorem beyond_of_head {k : κ} {x : α} {xs : List α} (h : Ascending key (x :: xs))
    (hx : k < key x) : beyond key k (x :: xs) = x :: xs := by
  apply List.filter_eq_self.mpr
  intro y hy
  rcases List.mem_cons.mp hy with rfl | hy
  · exact isBeyond_iff.mpr hx
  · have hlt : key x < key y := (List.pairwise_cons.mp h).1 y hy
    exact isBeyond_iff.mpr (hx.trans hlt)

/-- The successor comes first, and what follows it is what lies beyond it. -/
theorem beyond_eq_cons {k : κ} {x : α} {xs : List α} (h : Ascending key xs)
    (hfind : xs.find? (isBeyond key k) = some x) :
    beyond key k xs = x :: beyond key (key x) xs := by
  induction xs with
  | nil => cases hfind
  | cons y ys ih =>
    have hys : Ascending key ys := (List.pairwise_cons.mp h).2
    have hlater := (List.pairwise_cons.mp h).1
    by_cases hy : k < key y
    · -- the first entry is the successor
      obtain rfl : y = x := by simpa [isBeyond, hy] using hfind
      rw [beyond_of_head h hy]
      congr 1
      symm
      rw [beyond, List.filter_cons_of_neg (by simp [isBeyond])]
      apply List.filter_eq_self.mpr
      intro z hz
      exact isBeyond_iff.mpr (hlater z hz)
    · -- the first entry is dropped on both sides
      have hfind' : ys.find? (isBeyond key k) = some x := by
        simpa [isBeyond, hy] using hfind
      have hx : x ∈ ys := List.mem_of_find?_eq_some hfind'
      have hyx : ¬ key x < key y := not_lt_of_gt (hlater x hx)
      have hrest := ih hys hfind'
      unfold beyond at hrest ⊢
      rw [List.filter_cons_of_neg (by simpa [isBeyond] using hy),
        List.filter_cons_of_neg (by simpa [isBeyond] using hyx)]
      exact hrest

/-- Nothing is beyond the key where the scan finds nothing. -/
theorem beyond_eq_nil {k : κ} {xs : List α}
    (hfind : xs.find? (isBeyond key k) = none) : beyond key k xs = [] := by
  apply List.filter_eq_nil_iff.mpr
  intro x hx
  exact List.find?_eq_none.mp hfind x hx

/-- Beyond an entry lies what follows it. The induction is on its index. -/
theorem beyond_getElem {k : κ} {xs : List α} (h : Ascending key xs) (i : Nat)
    (hi : i < (beyond key k xs).length) :
    beyond key (key (beyond key k xs)[i]) xs = (beyond key k xs).drop (i + 1) := by
  induction i generalizing k with
  | zero =>
    cases hfind : xs.find? (isBeyond key k) with
    | none => simp [beyond_eq_nil hfind] at hi
    | some x => simp [beyond_eq_cons h hfind]
  | succ i ih =>
    cases hfind : xs.find? (isBeyond key k) with
    | none => simp [beyond_eq_nil hfind] at hi
    | some x =>
      have hcons := beyond_eq_cons h hfind
      have hi' : i < (beyond key (key x) xs).length := by
        rw [hcons] at hi
        exact Nat.lt_of_succ_lt_succ hi
      simp only [hcons, List.getElem_cons_succ, List.drop_succ_cons]
      exact ih hi'

end

end SdkSnmpd.Lib
