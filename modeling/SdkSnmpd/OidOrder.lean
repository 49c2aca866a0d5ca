import SdkSnmpd.Basic
import Mathlib.Data.List.Lex

/-!
# Comparing Object Identifiers

`oid_cmp` of `utils.c`, the order that it decides, and the order that SNMP asks for.

## Contents

- `oidCmp`: the comparison loop, on subids converted to `int` with -1 for an absent one.
- `oidKey`: the loop decides the lexicographic order of 16 signed numbers
  (`oidCmp_pos_iff`), so it is a total preorder of the OIDs.
- `Oid.name`: an OID as a sequence of unsigned numbers, ordered lexicographically.
- `Comparable`, `ordersRight_iff`: the pairs of OIDs that the loop puts in the SNMP order.
-/

namespace SdkSnmpd

/-! ## The comparison loop -/

/-- The subid at index `i` as it is assigned to an `int`; -1 where the OID has ended. -/
def cmpSubid (oid : Oid) (i : Nat) : Int32 :=
  match oid.subidList[i]? with
  | some subid => subid.toInt32
  | none => -1

/-- The remaining rounds of the loop, from index `i` on. -/
def oidCmpFrom (oid1 oid2 : Oid) : (rounds i : Nat) → Int
  | 0, _ => 0
  | rounds + 1, i =>
      let subid1 := cmpSubid oid1 i
      let subid2 := cmpSubid oid2 i
      if subid1 = -1 ∧ subid2 = -1 then 0
      else if subid1 > subid2 then 1
      else if subid1 < subid2 then -1
      else oidCmpFrom oid1 oid2 rounds (i + 1)

/-- The loop is bounded by `MAX_NR_OIDS`, which equals `MAX_NR_SUBIDS`. -/
def oidCmp (oid1 oid2 : Oid) : Int := oidCmpFrom oid1 oid2 maxNrOids 0

/-! ## The order of the loop -/

/-- The numbers that the remaining rounds see: from the first -1 on, all of them are -1. -/
def oidKeyFrom (oid : Oid) : (rounds i : Nat) → List Int
  | 0, _ => []
  | rounds + 1, i =>
      if cmpSubid oid i = -1 then List.replicate (rounds + 1) (-1)
      else (cmpSubid oid i).toInt :: oidKeyFrom oid rounds (i + 1)

def oidKey (oid : Oid) : List Int := oidKeyFrom oid maxNrOids 0

/-- The three verdicts of the loop. -/
theorem oidCmpFrom_spec (oid1 oid2 : Oid) (rounds i : Nat) :
    (oidCmpFrom oid1 oid2 rounds i = 1 ∧ oidKeyFrom oid2 rounds i < oidKeyFrom oid1 rounds i) ∨
      (oidCmpFrom oid1 oid2 rounds i = -1 ∧
        oidKeyFrom oid1 rounds i < oidKeyFrom oid2 rounds i) ∨
      (oidCmpFrom oid1 oid2 rounds i = 0 ∧
        oidKeyFrom oid1 rounds i = oidKeyFrom oid2 rounds i) := by
  induction rounds generalizing i with
  | zero => exact .inr (.inr ⟨rfl, rfl⟩)
  | succ rounds ih =>
    have hneg : (-1 : Int32).toInt = -1 := rfl
    -- the heads of the two keys are the two subids, whatever follows
    have hkey : ∀ oid, ∃ rest, oidKeyFrom oid (rounds + 1) i = (cmpSubid oid i).toInt :: rest := by
      intro oid
      rw [oidKeyFrom]
      split
      · rename_i hend
        exact ⟨List.replicate rounds (-1), by rw [hend, hneg]; rfl⟩
      · exact ⟨_, rfl⟩
    obtain ⟨rest1, hkey1⟩ := hkey oid1
    obtain ⟨rest2, hkey2⟩ := hkey oid2
    rw [oidCmpFrom]
    simp only [gt_iff_lt, Int32.lt_iff_toInt_lt]
    by_cases hboth : cmpSubid oid1 i = -1 ∧ cmpSubid oid2 i = -1
    · -- both OIDs have ended
      rw [if_pos hboth, oidKeyFrom, oidKeyFrom, if_pos hboth.1, if_pos hboth.2]
      exact .inr (.inr ⟨rfl, rfl⟩)
    rw [if_neg hboth]
    rcases Int.lt_trichotomy (cmpSubid oid1 i).toInt (cmpSubid oid2 i).toInt with hlt | heq | hgt
    · rw [if_neg (by omega), if_pos hlt, hkey1, hkey2]
      exact .inr (.inl ⟨rfl, List.Lex.rel hlt⟩)
    · -- no verdict in this round
      have hsame : cmpSubid oid1 i = cmpSubid oid2 i := Int32.toInt_inj.mp heq
      have hend1 : cmpSubid oid1 i ≠ -1 := fun h => hboth ⟨h, hsame ▸ h⟩
      have hend2 : cmpSubid oid2 i ≠ -1 := hsame ▸ hend1
      rw [if_neg (by omega), if_neg (by omega), oidKeyFrom, oidKeyFrom, if_neg hend1,
        if_neg hend2, heq]
      rcases ih (i + 1) with ⟨hv, hk⟩ | ⟨hv, hk⟩ | ⟨hv, hk⟩
      · exact .inl ⟨hv, List.Lex.cons hk⟩
      · exact .inr (.inl ⟨hv, List.Lex.cons hk⟩)
      · exact .inr (.inr ⟨hv, by rw [hk]⟩)
    · rw [if_pos hgt, hkey1, hkey2]
      exact .inl ⟨rfl, List.Lex.rel hgt⟩

theorem oidCmp_pos_iff (oid1 oid2 : Oid) : oidCmp oid1 oid2 > 0 ↔ oidKey oid2 < oidKey oid1 := by
  unfold oidCmp oidKey
  rcases oidCmpFrom_spec oid1 oid2 maxNrOids 0 with ⟨hv, hk⟩ | ⟨hv, hk⟩ | ⟨hv, hk⟩
  · exact iff_of_true (by rw [hv]; decide) hk
  · exact iff_of_false (by rw [hv]; decide) (List.lt_asymm hk)
  · exact iff_of_false (by rw [hv]; decide) (by rw [hk]; exact List.lt_irrefl _)

theorem oidCmp_neg_iff (oid1 oid2 : Oid) : oidCmp oid1 oid2 < 0 ↔ oidKey oid1 < oidKey oid2 := by
  unfold oidCmp oidKey
  rcases oidCmpFrom_spec oid1 oid2 maxNrOids 0 with ⟨hv, hk⟩ | ⟨hv, hk⟩ | ⟨hv, hk⟩
  · exact iff_of_false (by rw [hv]; decide) (List.lt_asymm hk)
  · exact iff_of_true (by rw [hv]; decide) hk
  · exact iff_of_false (by rw [hv]; decide) (by rw [hk]; exact List.lt_irrefl _)

/-! ## The SNMP order -/

/-- An OID as SNMP sees it: a sequence of numbers. Sequences are ordered
    lexicographically, a proper prefix before its extensions. -/
def Oid.name (oid : Oid) : List Nat := oid.subidList.map UInt32.toNat

/-- The comparison puts the two OIDs in the SNMP order. -/
def OrdersRight (oid1 oid2 : Oid) : Prop :=
  (oidCmp oid1 oid2 = 0 ↔ oid1.name = oid2.name) ∧
    (oidCmp oid1 oid2 > 0 ↔ oid2.name < oid1.name) ∧
    (oidCmp oid1 oid2 < 0 ↔ oid1.name < oid2.name)

/-- Up to the first difference no subid is `2 ^ 32 - 1`, which the loop takes for the end of
    an OID, and there both subids are below `2 ^ 31` or both are not; an absent subid counts
    as small. -/
def Comparable : List Nat → List Nat → Prop
  | [], [] => True
  | [], y :: _ => y < 2 ^ 31
  | x :: _, [] => x < 2 ^ 31
  | x :: xs, y :: ys =>
      if x = y then (if x = 2 ^ 32 - 1 then xs = ys else Comparable xs ys)
      else (x < 2 ^ 31 ↔ y < 2 ^ 31)

/-- The same for the question whether the first OID is greater. The end of an OID then may
    also stand against a last subid `2 ^ 32 - 1`. -/
def GreaterComparable : List Nat → List Nat → Prop
  | [], [] => True
  | [], y :: _ => y < 2 ^ 31 ∨ y = 2 ^ 32 - 1
  | x :: _, [] => x < 2 ^ 31
  | x :: xs, y :: ys =>
      if x = y then (if x = 2 ^ 32 - 1 then ¬ ys < xs else GreaterComparable xs ys)
      else (x < 2 ^ 31 ↔ y < 2 ^ 31)

/-! ## When the two orders agree -/

/-- A subid as a signed number. -/
theorem toInt_toInt32 (x : UInt32) :
    x.toInt32.toInt = if x.toNat < 2 ^ 31 then (x.toNat : Int) else x.toNat - 2 ^ 32 := by
  have hcond : x.toInt32.toInt =
      if 2 * x.toNat < 2 ^ 32 then (x.toNat : Int) else x.toNat - 2 ^ 32 :=
    BitVec.toInt_eq_toNat_cond x.toBitVec
  rw [hcond]
  by_cases hlow : x.toNat < 2 ^ 31
  · rw [if_pos (show 2 * x.toNat < 2 ^ 32 by omega), if_pos hlow]
  · rw [if_neg (show ¬ 2 * x.toNat < 2 ^ 32 by omega), if_neg hlow]

theorem toInt32_eq_neg_one (x : UInt32) : x.toInt32 = -1 ↔ x.toNat = 2 ^ 32 - 1 := by
  have hlt := x.toNat_lt
  rw [← Int32.toInt_inj, toInt_toInt32, show (-1 : Int32).toInt = -1 from rfl]
  by_cases hlow : x.toNat < 2 ^ 31
  · rw [if_pos hlow]
    omega
  · rw [if_neg hlow]
    omega

section

variable {oid1 oid2 : Oid} {i : Nat} {x y : UInt32}

theorem oidCmpFrom_nil_nil (rounds : Nat) (h1 : oid1.subidList[i]? = none)
    (h2 : oid2.subidList[i]? = none) : oidCmpFrom oid1 oid2 (rounds + 1) i = 0 := by
  simp [oidCmpFrom, cmpSubid, h1, h2]

/-- The first OID has ended. -/
theorem oidCmpFrom_nil_cons (rounds : Nat) (h1 : oid1.subidList[i]? = none)
    (h2 : oid2.subidList[i]? = some y) :
    oidCmpFrom oid1 oid2 (rounds + 1) i =
      if y.toNat < 2 ^ 31 then -1 else if y.toNat = 2 ^ 32 - 1 then 0 else 1 := by
  have hlt := y.toNat_lt
  have hy := toInt_toInt32 y
  simp only [oidCmpFrom, cmpSubid, h1, h2, true_and, toInt32_eq_neg_one, gt_iff_lt,
    Int32.lt_iff_toInt_lt, hy, show (-1 : Int32).toInt = -1 from rfl]
  -- the end is -1: below every small subid, equal to `2 ^ 32 - 1`, above the rest
  split_ifs <;> omega

/-- The second OID has ended. -/
theorem oidCmpFrom_cons_nil (rounds : Nat) (h1 : oid1.subidList[i]? = some x)
    (h2 : oid2.subidList[i]? = none) :
    oidCmpFrom oid1 oid2 (rounds + 1) i =
      if x.toNat < 2 ^ 31 then 1 else if x.toNat = 2 ^ 32 - 1 then 0 else -1 := by
  have hlt := x.toNat_lt
  have hx := toInt_toInt32 x
  simp only [oidCmpFrom, cmpSubid, h1, h2, and_true, toInt32_eq_neg_one, gt_iff_lt,
    Int32.lt_iff_toInt_lt, hx, show (-1 : Int32).toInt = -1 from rfl]
  split_ifs <;> omega

/-- Two subids: on different sides of `2 ^ 31` the verdict is the wrong way round. -/
theorem oidCmpFrom_cons_cons (rounds : Nat) (h1 : oid1.subidList[i]? = some x)
    (h2 : oid2.subidList[i]? = some y) :
    oidCmpFrom oid1 oid2 (rounds + 1) i =
      if x.toNat = y.toNat then
        if x.toNat = 2 ^ 32 - 1 then 0 else oidCmpFrom oid1 oid2 rounds (i + 1)
      else if (x.toNat < 2 ^ 31 ↔ y.toNat < 2 ^ 31) then
        if y.toNat < x.toNat then 1 else -1
      else if y.toNat < x.toNat then -1 else 1 := by
  have hltx := x.toNat_lt
  have hlty := y.toNat_lt
  have hx := toInt_toInt32 x
  have hy := toInt_toInt32 y
  simp only [oidCmpFrom, cmpSubid, h1, h2, toInt32_eq_neg_one, gt_iff_lt, Int32.lt_iff_toInt_lt,
    hx, hy]
  split_ifs <;> first | rfl | omega

end

/-- The verdict `v` says how the two sequences are ordered. -/
def Verdict (v : Int) (xs ys : List Nat) : Prop :=
  (v = 0 ↔ xs = ys) ∧ (v > 0 ↔ ys < xs) ∧ (v < 0 ↔ xs < ys)

theorem verdict_zero {xs ys : List Nat} : Verdict 0 xs ys ↔ xs = ys := by
  constructor
  · intro h
    exact h.1.mp rfl
  · rintro rfl
    exact ⟨iff_of_true rfl rfl, iff_of_false (by decide) (List.lt_irrefl _),
      iff_of_false (by decide) (List.lt_irrefl _)⟩

theorem verdict_one {xs ys : List Nat} : Verdict 1 xs ys ↔ ys < xs := by
  constructor
  · intro h
    exact h.2.1.mp (by decide)
  · intro h
    have hne : xs ≠ ys := fun heq => List.lt_irrefl _ (heq ▸ h)
    exact ⟨iff_of_false (by decide) hne, iff_of_true (by decide) h,
      iff_of_false (by decide) (List.lt_asymm h)⟩

theorem verdict_neg_one {xs ys : List Nat} : Verdict (-1) xs ys ↔ xs < ys := by
  constructor
  · intro h
    exact h.2.2.mp (by decide)
  · intro h
    have hne : xs ≠ ys := fun heq => List.lt_irrefl _ (heq ▸ h)
    exact ⟨iff_of_false (by decide) hne, iff_of_false (by decide) (List.lt_asymm h),
      iff_of_true (by decide) h⟩

/-- A common first number does not matter. -/
theorem verdict_cons {v : Int} (x : Nat) {xs ys : List Nat} :
    Verdict v (x :: xs) (x :: ys) ↔ Verdict v xs ys := by
  have hlt : ∀ as bs : List Nat, x :: as < x :: bs ↔ as < bs := fun as bs => by
    rw [List.cons_lt_cons_iff]
    simp
  unfold Verdict
  rw [List.cons.injEq, and_iff_right rfl, hlt, hlt]

/-- The end of a sequence stands against nothing, or against a number. -/
theorem drop_eq (xs : List UInt32) (i : Nat) :
    (xs[i]? = none ∧ xs.drop i = []) ∨
      ∃ x, xs[i]? = some x ∧ xs.drop i = x :: xs.drop (i + 1) := by
  by_cases h : i < xs.length
  · exact .inr ⟨xs[i], List.getElem?_eq_getElem h, List.drop_eq_getElem_cons h⟩
  · exact .inl ⟨List.getElem?_eq_none (Nat.not_lt.mp h), List.drop_eq_nil_of_le (Nat.not_lt.mp h)⟩

section

variable {oid1 oid2 : Oid}

/-- The remaining rounds give the right verdict exactly when what is left is comparable. -/
theorem verdict_oidCmpFrom_iff (rounds i : Nat) (h1 : oid1.subidList.length ≤ i + rounds)
    (h2 : oid2.subidList.length ≤ i + rounds) :
    Verdict (oidCmpFrom oid1 oid2 rounds i) ((oid1.subidList.drop i).map UInt32.toNat)
        ((oid2.subidList.drop i).map UInt32.toNat) ↔
      Comparable ((oid1.subidList.drop i).map UInt32.toNat)
        ((oid2.subidList.drop i).map UInt32.toNat) := by
  induction rounds generalizing i with
  | zero =>
    rw [List.drop_eq_nil_of_le (show _ ≤ i from h1), List.drop_eq_nil_of_le (show _ ≤ i from h2)]
    exact iff_of_true (verdict_zero.mpr rfl) trivial
  | succ rounds ih =>
    have hrest := ih (i + 1) (by omega) (by omega)
    rcases drop_eq oid1.subidList i with ⟨hget1, hdrop1⟩ | ⟨x, hget1, hdrop1⟩
    · rcases drop_eq oid2.subidList i with ⟨hget2, hdrop2⟩ | ⟨y, hget2, hdrop2⟩
      · -- the same OIDs
        rw [oidCmpFrom_nil_nil rounds hget1 hget2, hdrop1, hdrop2]
        exact iff_of_true (verdict_zero.mpr rfl) trivial
      · -- the first OID is a proper prefix: only -1 is right
        rw [oidCmpFrom_nil_cons rounds hget1 hget2, hdrop1, hdrop2]
        simp only [List.map_nil, List.map_cons, Comparable]
        split_ifs with hlow hend
        · exact iff_of_true (verdict_neg_one.mpr List.Lex.nil) hlow
        · exact iff_of_false (fun h => nomatch verdict_zero.mp h) hlow
        · exact iff_of_false (fun h => nomatch verdict_one.mp h) hlow
    · rcases drop_eq oid2.subidList i with ⟨hget2, hdrop2⟩ | ⟨y, hget2, hdrop2⟩
      · -- the second OID is a proper prefix: only 1 is right
        rw [oidCmpFrom_cons_nil rounds hget1 hget2, hdrop1, hdrop2]
        simp only [List.map_nil, List.map_cons, Comparable]
        split_ifs with hlow hend
        · exact iff_of_true (verdict_one.mpr List.Lex.nil) hlow
        · exact iff_of_false (fun h => nomatch verdict_zero.mp h) hlow
        · exact iff_of_false (fun h => nomatch verdict_neg_one.mp h) hlow
      · rw [oidCmpFrom_cons_cons rounds hget1 hget2, hdrop1, hdrop2]
        simp only [List.map_cons, Comparable]
        -- two subids: go on if they are equal, else they decide
        by_cases hxy : x.toNat = y.toNat
        · rw [if_pos hxy, if_pos hxy, ← hxy]
          split_ifs with hend
          · -- taken for the end of both
            rw [verdict_zero, List.cons.injEq]
            exact and_iff_right rfl
          · rw [← hrest]
            exact verdict_cons _
        · rw [if_neg hxy, if_neg hxy]
          split_ifs with hhalf hlt hlt
          · exact iff_of_true (verdict_one.mpr (List.Lex.rel hlt)) hhalf
          · exact iff_of_true (verdict_neg_one.mpr (List.Lex.rel (by omega))) hhalf
          · -- on different sides of `2 ^ 31` the greater one is taken for the smaller
            refine iff_of_false (fun h => ?_) hhalf
            have hle := List.head_le_of_lt (verdict_neg_one.mp h)
            omega
          · refine iff_of_false (fun h => ?_) hhalf
            have hle := List.head_le_of_lt (verdict_one.mp h)
            omega

/-- The remaining rounds tell rightly whether the first OID is greater exactly when what is
    left is comparable for that question. -/
theorem greater_oidCmpFrom_iff (rounds i : Nat) (h1 : oid1.subidList.length ≤ i + rounds)
    (h2 : oid2.subidList.length ≤ i + rounds) :
    (oidCmpFrom oid1 oid2 rounds i > 0 ↔ (oid2.subidList.drop i).map UInt32.toNat <
        (oid1.subidList.drop i).map UInt32.toNat) ↔
      GreaterComparable ((oid1.subidList.drop i).map UInt32.toNat)
        ((oid2.subidList.drop i).map UInt32.toNat) := by
  induction rounds generalizing i with
  | zero =>
    rw [List.drop_eq_nil_of_le (show _ ≤ i from h1), List.drop_eq_nil_of_le (show _ ≤ i from h2)]
    exact iff_of_true (iff_of_false (by simp [oidCmpFrom]) (List.lt_irrefl _)) trivial
  | succ rounds ih =>
    have hrest := ih (i + 1) (by omega) (by omega)
    rcases drop_eq oid1.subidList i with ⟨hget1, hdrop1⟩ | ⟨x, hget1, hdrop1⟩
    · rcases drop_eq oid2.subidList i with ⟨hget2, hdrop2⟩ | ⟨y, hget2, hdrop2⟩
      · rw [oidCmpFrom_nil_nil rounds hget1 hget2, hdrop1, hdrop2]
        exact iff_of_true (iff_of_false (by decide) (List.lt_irrefl _)) trivial
      · -- a proper prefix is not greater
        have hnot : ¬ (y :: oid2.subidList.drop (i + 1)).map UInt32.toNat < [] := nofun
        rw [oidCmpFrom_nil_cons rounds hget1 hget2, hdrop1, hdrop2]
        simp only [List.map_nil, hnot, iff_false]
        simp only [List.map_cons, GreaterComparable]
        split_ifs with hlow hend
        · exact iff_of_true (by decide) (.inl hlow)
        · exact iff_of_true (by decide) (.inr hend)
        · exact iff_of_false (by decide) (by omega)
    · rcases drop_eq oid2.subidList i with ⟨hget2, hdrop2⟩ | ⟨y, hget2, hdrop2⟩
      · -- an extension is greater
        have hlt : [] < (x :: oid1.subidList.drop (i + 1)).map UInt32.toNat := List.Lex.nil
        rw [oidCmpFrom_cons_nil rounds hget1 hget2, hdrop1, hdrop2]
        simp only [List.map_nil, hlt, iff_true]
        simp only [List.map_cons, GreaterComparable]
        split_ifs with hlow hend
        · exact iff_of_true (by decide) hlow
        · exact iff_of_false (by decide) hlow
        · exact iff_of_false (by decide) hlow
      · rw [oidCmpFrom_cons_cons rounds hget1 hget2, hdrop1, hdrop2]
        simp only [List.map_cons, GreaterComparable, List.cons_lt_cons_iff]
        -- two subids: go on if they are equal, else they decide
        by_cases hxy : x.toNat = y.toNat
        · simp only [hxy, ite_true, Nat.lt_irrefl, true_and, false_or]
          split_ifs with hend
          · simp
          · exact hrest
        · have hyx : ¬ y.toNat = x.toNat := fun h => hxy h.symm
          simp only [hxy, hyx, ite_false, false_and, or_false]
          split_ifs with hhalf hlt hlt
          · exact iff_of_true (by simpa using hlt) hhalf
          · exact iff_of_true (by simpa using hlt) hhalf
          · exact iff_of_false (by simpa using hlt) hhalf
          · exact iff_of_false (by simpa using hlt) hhalf

/-- **The pairs of OIDs that the comparison puts in order.** -/
theorem ordersRight_iff (h1 : oid1.subidList.length ≤ maxNrSubids)
    (h2 : oid2.subidList.length ≤ maxNrSubids) :
    OrdersRight oid1 oid2 ↔ Comparable oid1.name oid2.name :=
  verdict_oidCmpFrom_iff maxNrOids 0 (by rw [Nat.zero_add]; exact h1)
    (by rw [Nat.zero_add]; exact h2)

theorem oidCmp_greater_iff (h1 : oid1.subidList.length ≤ maxNrSubids)
    (h2 : oid2.subidList.length ≤ maxNrSubids) :
    (oidCmp oid1 oid2 > 0 ↔ oid2.name < oid1.name) ↔ GreaterComparable oid1.name oid2.name :=
  greater_oidCmpFrom_iff maxNrOids 0 (by rw [Nat.zero_add]; exact h1)
    (by rw [Nat.zero_add]; exact h2)

end

end SdkSnmpd
