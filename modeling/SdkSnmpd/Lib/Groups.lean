import SdkSnmpd.Lib.Ber
import SdkSnmpd.Lib.Radix
import Mathlib.Data.List.Flatten

/-!
# Rows of Base-128 Groups

A number on the wire is a row of octets of which only the last one is below 128. A sequence of
octets falls into rows; each row has a number, which may be larger than a word.

## Contents

- `Row`, `rows`: one row, and the rows of a sequence.
- `groupNumber`: the number of a row; `toNat_foldGroups_eq`: a reader of 32-bit words sees it
  modulo `2 ^ 32`.
- `Row.eq_groups`: a row is determined by its number and its length.
-/

namespace SdkSnmpd.Lib.Ber

open Radix (number)

/-! ## Rows -/

/-- Octets from 128 on, and one below 128. -/
inductive Row : List UInt8 → Prop where
  | last {b : UInt8} (h : b.toNat < 128) : Row [b]
  | more {b : UInt8} {row : List UInt8} (h : 128 ≤ b.toNat) (hrow : Row row) : Row (b :: row)

/-- The rows of a sequence of octets. -/
def rows : List UInt8 → List (List UInt8)
  | [] => []
  | b :: bs =>
      if b.toNat < 128 then [b] :: rows bs
      else
        match rows bs with
        | [] => [[b]]
        | row :: rest => (b :: row) :: rest

theorem rows_last {b : UInt8} (h : b.toNat < 128) (bs : List UInt8) :
    rows (b :: bs) = [b] :: rows bs := by
  rw [rows, if_pos h]

theorem rows_more {b : UInt8} (h : 128 ≤ b.toNat) {bs row : List UInt8} {rest : List (List UInt8)}
    (hrows : rows bs = row :: rest) : rows (b :: bs) = (b :: row) :: rest := by
  rw [rows, if_neg (Nat.not_lt.mpr h), hrows]

/-- A row is the first of the rows of a sequence that starts with it. -/
theorem Row.rows_append {row : List UInt8} (h : Row row) (rest : List UInt8) :
    rows (row ++ rest) = row :: rows rest := by
  induction h with
  | last hlow => exact rows_last hlow rest
  | more hhigh hrow ih => exact rows_more hhigh ih

/-- The rows of rows are these rows. -/
theorem rows_flatten {rs : List (List UInt8)} (h : ∀ row ∈ rs, Row row) : rows rs.flatten = rs := by
  induction rs with
  | nil => rfl
  | cons row rs ih =>
    obtain ⟨hrow, hrs⟩ := List.forall_mem_cons.mp h
    rw [List.flatten_cons, hrow.rows_append, ih hrs]

/-- A sequence whose last octet is below 128 is made of its rows. -/
theorem rows_spec {bs : List UInt8} (hclosed : ∀ b ∈ bs.getLast?, b.toNat < 128) :
    (∀ row ∈ rows bs, Row row) ∧ (rows bs).flatten = bs := by
  induction bs with
  | nil => exact ⟨fun _ h => absurd h List.not_mem_nil, rfl⟩
  | cons b bs ih =>
    by_cases hlow : b.toNat < 128
    · have hrest : ∀ c ∈ bs.getLast?, c.toNat < 128 := by
        intro c hc
        apply hclosed
        rw [List.getLast?_cons, Option.mem_def.mp hc]
        rfl
      obtain ⟨hrows, hflatten⟩ := ih hrest
      rw [rows_last hlow, List.forall_mem_cons, List.flatten_cons, hflatten]
      exact ⟨⟨.last hlow, hrows⟩, rfl⟩
    · -- the row goes on: there are octets left
      cases bs with
      | nil => exact absurd (hclosed b rfl) hlow
      | cons c bs =>
        obtain ⟨hrows, hflatten⟩ := ih (by rwa [List.getLast?_cons_cons] at hclosed)
        cases heq : rows (c :: bs) with
        | nil =>
          rw [heq] at hflatten
          cases hflatten
        | cons row rest =>
          rw [heq] at hrows hflatten
          obtain ⟨hrow, hrest⟩ := List.forall_mem_cons.mp hrows
          rw [rows_more (Nat.not_lt.mp hlow) heq, List.forall_mem_cons]
          refine ⟨⟨.more (Nat.not_lt.mp hlow) hrow, hrest⟩, ?_⟩
          rw [List.flatten_cons, List.cons_append, ← List.flatten_cons, hflatten]

/-! ## Numbers -/

/-- The number of base-128 groups, their continuation bits dropped. -/
def groupNumber (row : List UInt8) : Nat := number 128 (row.map fun b => b.toNat % 128)

theorem groupNumber_cons (b : UInt8) (row : List UInt8) :
    groupNumber (b :: row) = b.toNat % 128 * 128 ^ row.length + groupNumber row := by
  rw [groupNumber, List.map_cons, Radix.number_cons, List.length_map]
  rfl

theorem groupNumber_lt (row : List UInt8) : groupNumber row < 128 ^ row.length := by
  have hlt : groupNumber row < 128 ^ (row.map fun b => b.toNat % 128).length := by
    apply Radix.number_lt (by decide)
    intro d hd
    obtain ⟨b, -, rfl⟩ := List.mem_map.mp hd
    exact Nat.mod_lt _ (by decide)
  rwa [List.length_map] at hlt

/-- A word takes up the number of a row modulo `2 ^ 32`. -/
theorem toNat_foldGroups_eq (acc : UInt32) (row : List UInt8) :
    (foldGroups acc row).toNat = (acc.toNat * 128 ^ row.length + groupNumber row) % 2 ^ 32 := by
  induction row generalizing acc with
  | nil =>
    have hlt := acc.toNat_lt
    simp only [foldGroups, List.foldl_nil, List.length_nil, Nat.pow_zero, groupNumber, List.map_nil,
      Radix.number_nil]
    omega
  | cons b row ih =>
    have hstep : foldGroups acc (b :: row) =
        foldGroups ((acc <<< 7) + (b &&& 0x7F).toUInt32) row := rfl
    rw [hstep, ih, toNat_shiftLeft_add, groupNumber_cons, Nat.add_mod, Nat.mod_mul_mod,
      ← Nat.add_mod, List.length_cons]
    congr 1
    ring

/-- The first of several groups, as an octet. -/
theorem exists_head_groups (x : UInt32) {k : Nat} (hk : k < 5) :
    ∃ b, groups x (k + 1) = b :: groups x k ∧
      b.toNat = x.toNat / 128 ^ k % 128 + (if k = 0 then 0 else 128) :=
  ⟨_, rfl, toNat_head_groups x hk⟩

/-- A number falls into a leading digit and the rest in one way. -/
theorem digit_unique {weight d e r s : Nat} (hr : r < weight) (hs : s < weight)
    (h : d * weight + r = e * weight + s) : d = e ∧ r = s := by
  have hd := (Nat.div_mod_unique (Nat.zero_lt_of_lt hr)).mpr
    ⟨show r + weight * d = d * weight + r by rw [Nat.mul_comm, Nat.add_comm], hr⟩
  have he := (Nat.div_mod_unique (Nat.zero_lt_of_lt hs)).mpr
    ⟨show s + weight * e = e * weight + s by rw [Nat.mul_comm, Nat.add_comm], hs⟩
  rw [h] at hd
  exact ⟨hd.1.symm.trans he.1, hd.2.symm.trans he.2⟩

/-- The last `k + 1` base-128 digits: one digit, and the last `k`. -/
theorem mod_pow_succ_eq (n k : Nat) :
    n % 128 ^ (k + 1) = n / 128 ^ k % 128 * 128 ^ k + n % 128 ^ k := by
  rw [Nat.pow_succ, Nat.mod_mul, Nat.add_comm, Nat.mul_comm]

theorem Row.length_pos {row : List UInt8} (h : Row row) : 0 < row.length := by
  cases h with
  | last _ => exact Nat.zero_lt_one
  | more _ _ => exact Nat.zero_lt_succ _

/-- A row is determined by its number and its length. The induction is on the row; both sides
    have the same first digit. -/
theorem Row.eq_groups {row : List UInt8} (h : Row row) (x : UInt32) (hlen : row.length ≤ 5)
    (hx : x.toNat % 128 ^ row.length = groupNumber row) : row = groups x row.length := by
  induction h with
  | @last b hlow =>
    obtain ⟨c, hgroups, hc⟩ := exists_head_groups x (show 0 < 5 by decide)
    have hbc : b = c := by
      rw [← UInt8.toNat_inj, hc]
      simp only [List.length_singleton, groupNumber_cons, List.length_nil, Nat.pow_zero] at hx
      simp only [groupNumber, List.map_nil, Radix.number_nil] at hx
      simp only [if_true, Nat.pow_zero]
      omega
    rw [List.length_singleton, hgroups, hbc]
    rfl
  | @more b row hhigh hrow ih =>
    rw [List.length_cons] at hlen hx ⊢
    obtain ⟨c, hgroups, hc⟩ := exists_head_groups x (show row.length < 5 by omega)
    rw [if_neg (Nat.pos_iff_ne_zero.mp hrow.length_pos)] at hc
    -- the number is split at its first digit, and this determines digit and rest
    rw [mod_pow_succ_eq, groupNumber_cons] at hx
    obtain ⟨hdigit, hrest⟩ := digit_unique (Nat.mod_lt _ (Nat.pow_pos (by decide)))
      (groupNumber_lt row) hx
    have hb := b.toNat_lt
    have hbc : b = c := by
      rw [← UInt8.toNat_inj, hc]
      omega
    rw [hgroups, ← hbc, ← ih (by omega) hrest]

/-- The groups of a word are a row. -/
theorem row_groups (x : UInt32) {k : Nat} (hk : k < 5) : Row (groups x (k + 1)) := by
  induction k with
  | zero =>
    obtain ⟨b, hgroups, hb⟩ := exists_head_groups x hk
    rw [hgroups]
    apply Row.last
    rw [hb, if_pos rfl]
    omega
  | succ k ih =>
    obtain ⟨b, hgroups, hb⟩ := exists_head_groups x hk
    rw [hgroups]
    apply Row.more _ (ih (by omega))
    rw [hb, if_neg (Nat.succ_ne_zero k)]
    omega

theorem groupNumber_groups (x : UInt32) {k : Nat} (hk : k ≤ 5) :
    groupNumber (groups x k) = x.toNat % 128 ^ k := by
  induction k with
  | zero => simp [groups, groupNumber, Nat.mod_one]
  | succ k ih =>
    obtain ⟨b, hgroups, hb⟩ := exists_head_groups x hk
    have hdigit : b.toNat % 128 = x.toNat / 128 ^ k % 128 := by
      rw [hb]
      split <;> omega
    rw [hgroups, groupNumber_cons, hdigit, length_groups, ih (by omega), mod_pow_succ_eq]

end SdkSnmpd.Lib.Ber
