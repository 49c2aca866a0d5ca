import SdkSnmpd.Lib.Radix
import SdkSnmpd.OidText

/-!
# Formatted Output

The conversions of `printf` that the agent uses, and what `sprintf` and `snprintf` store.

## Contents

- `ascii`: the bytes of a text in the source.
- `intText`, `unsignedText`, `hexText`: the texts of `%d`, `%u` and `%02X`.
- `snprintf`: as much of a text as fits, and a NUL.
- `strtoul_intText`: `strtoul` reads a number back from the text of `%d`.
- `strtoul_of_cut`: it reads another number, or none, from a part of the text.
-/

namespace SdkSnmpd

open Lib.Radix (digits number)

/-! ## Conversions -/

/-- The bytes of a text in the source. -/
def ascii (text : String) : List UInt8 := text.toList.map fun ch => .ofNat ch.toNat

def asciiDigit (d : Nat) : UInt8 := UInt8.ofNat (0x30 + d)

/-- A number in decimal. -/
def decimal (n : Nat) : List UInt8 := (digits 10 n).map asciiDigit

/-- `%d` -/
def intText (v : Int32) : List UInt8 :=
  if v < 0 then 0x2D :: decimal v.toInt.natAbs else decimal v.toInt.natAbs

/-- `%u` -/
def unsignedText (v : UInt32) : List UInt8 := decimal v.toNat

def hexDigit (d : Nat) : UInt8 := if d < 10 then asciiDigit d else UInt8.ofNat (0x41 + (d - 10))

/-- `%02X` -/
def hexText (b : UInt8) : List UInt8 := [hexDigit (b.toNat / 16), hexDigit (b.toNat % 16)]

/-- What `snprintf` stores. -/
def snprintf (size : Nat) (text : List UInt8) : List UInt8 :=
  if size = 0 then [] else text.take (size - 1) ++ [0]

/-- What `sprintf` stores. -/
def sprintf (text : List UInt8) : List UInt8 := text ++ [0]

theorem length_snprintf_le (size : Nat) (text : List UInt8) :
    (snprintf size text).length ≤ size := by
  unfold snprintf
  split
  · exact Nat.zero_le _
  · rw [List.length_append, List.length_take, List.length_singleton]
    omega

/-! ## Digits as characters -/

theorem toNat_asciiDigit {d : Nat} (h : d < 10) : (asciiDigit d).toNat = 0x30 + d := by
  rw [asciiDigit, UInt8.toNat_ofNat']
  omega

theorem digitValue_asciiDigit {d base : Nat} (h : d < 10) (hbase : 10 ≤ base) :
    digitValue base (asciiDigit d) = some d := by
  have hd := toNat_asciiDigit h
  have hdigit : (0x30 : UInt8) ≤ asciiDigit d ∧ asciiDigit d ≤ 0x39 := by
    simp only [UInt8.le_iff_toNat_le, hd, UInt8.reduceToNat]
    omega
  unfold digitValue
  dsimp only
  rw [if_pos hdigit, hd, Nat.add_sub_cancel_left, if_pos (by omega)]

/-- A digit is no blank, no sign and no dot. -/
theorem asciiDigit_spec {d : Nat} (h : d < 10) :
    isspace (asciiDigit d) = false ∧ asciiDigit d ≠ 0x2B ∧ asciiDigit d ≠ 0x2D ∧
      asciiDigit d ≠ 0x2E ∧ asciiDigit d ≠ 0 := by
  have hall : ∀ i : Fin 10, isspace (asciiDigit i) = false ∧ asciiDigit i ≠ 0x2B ∧
      asciiDigit i ≠ 0x2D ∧ asciiDigit i ≠ 0x2E ∧ asciiDigit i ≠ 0 := by
    decide
  exact hall ⟨d, h⟩

/-- Only the digit 0 is the character 0. -/
theorem asciiDigit_eq_zero_iff {d : Nat} (h : d < 10) : asciiDigit d = 0x30 ↔ d = 0 := by
  rw [← UInt8.toNat_inj, toNat_asciiDigit h]
  simp only [UInt8.reduceToNat]
  omega

theorem decimal_ne_nil (n : Nat) : decimal n ≠ [] := by
  rw [decimal, ne_eq, List.map_eq_nil_iff]
  exact Lib.Radix.digits_ne_nil n

theorem length_decimal (n : Nat) : (decimal n).length = Nat.log 10 n + 1 := by
  rw [decimal, List.length_map, Lib.Radix.length_digits (by decide)]

theorem intText_ne_nil (v : Int32) : intText v ≠ [] := by
  unfold intText
  split
  · exact List.cons_ne_nil _ _
  · exact decimal_ne_nil _

/-- There is no NUL in the text of a number. -/
theorem zero_notMem_decimal (n : Nat) : (0 : UInt8) ∉ decimal n := by
  intro h
  obtain ⟨d, hd, hzero⟩ := List.mem_map.mp h
  exact (asciiDigit_spec (Lib.Radix.digits_lt (by decide) hd)).2.2.2.2 hzero

theorem zero_notMem_intText (v : Int32) : (0 : UInt8) ∉ intText v := by
  unfold intText
  split
  · rw [List.mem_cons, not_or]
    exact ⟨by decide, zero_notMem_decimal _⟩
  · exact zero_notMem_decimal _

/-! ## Numbers that end at a dot -/

/-- The text ends, or a dot follows. -/
def EndsNumber (rest : List UInt8) : Prop := ∀ b ∈ rest.head?, b = 0x2E

theorem endsNumber_nil : EndsNumber [] := fun _ h => absurd h (Option.not_mem_none _)

theorem endsNumber_dot (rest : List UInt8) : EndsNumber (0x2E :: rest) := fun b h => by
  simpa using h.symm

/-- No digit follows, and no `x` of a prefix. -/
def Stops (rest : List UInt8) : Prop :=
  ∀ b ∈ rest.head?, (∀ base ≤ 16, digitValue base b = none) ∧ b ≠ 0x78 ∧ b ≠ 0x58

theorem EndsNumber.stops {rest : List UInt8} (h : EndsNumber rest) : Stops rest := by
  intro b hb
  obtain rfl := h b hb
  exact ⟨fun base _ => if_neg (Nat.lt_irrefl base), by decide, by decide⟩

/-- Digits are read up to the end of the number. -/
theorem readDigits_append_of_ends {base : Nat} (hbase : base ≤ 16) {ds : List Nat}
    {rest : List UInt8} (hds : ∀ d ∈ ds, digitValue base (asciiDigit d) = some d)
    (hrest : Stops rest) : readDigits base (ds.map asciiDigit ++ rest) = (ds, rest) := by
  induction ds with
  | nil =>
    cases rest with
    | nil => rfl
    | cons b rest =>
      have hend := (hrest b rfl).1 base hbase
      simp only [List.map_nil, List.nil_append, readDigits, hend]
  | cons d ds ih =>
    obtain ⟨hd, hrec⟩ := List.forall_mem_cons.mp hds
    simp only [List.map_cons, List.cons_append, readDigits, hd, ih hrec]

/-- Decimal digits without a leading zero are taken for a decimal number, and a single 0 for an
    octal one. -/
theorem numberBase_digits {ds : List Nat} {rest : List UInt8} (hne : ds ≠ [])
    (hlt : ∀ d ∈ ds, d < 10) (hzero : ds.head? = some 0 → ds = [0]) (hrest : Stops rest) :
    ∃ base, numberBase (ds.map asciiDigit ++ rest) = (base, ds.map asciiDigit ++ rest) ∧
      readDigits base (ds.map asciiDigit ++ rest) = (ds, rest) ∧
      ds.foldl (fun acc d => acc * base + d) 0 = number 10 ds := by
  obtain ⟨d, ds, rfl⟩ := List.exists_cons_of_ne_nil hne
  obtain ⟨hd, -⟩ := List.forall_mem_cons.mp hlt
  by_cases hd0 : d = 0
  · subst hd0
    obtain rfl : ds = [] := by simpa using hzero rfl
    refine ⟨8, ?_, readDigits_append_of_ends (by decide) (by decide) hrest, rfl⟩
    -- no `x` follows the 0
    match rest with
    | [] => rfl
    | [b] => rfl
    | b :: c :: rest =>
      obtain ⟨-, hx, hX⟩ := hrest b rfl
      have hprefix : ¬ ((b = 0x78 ∨ b = 0x58) ∧ (digitValue 16 c).isSome) :=
        fun h => h.1.elim hx hX
      have hdigit : asciiDigit 0 = 0x30 := rfl
      simp only [List.map_cons, List.map_nil, List.cons_append, List.nil_append, numberBase,
        hdigit, hprefix, ne_eq, not_true_eq_false, if_false]
  · have hhead : asciiDigit d ≠ 0x30 := fun h => hd0 ((asciiDigit_eq_zero_iff hd).mp h)
    refine ⟨10, ?_, readDigits_append_of_ends (by decide) (fun e he => ?_) hrest, ?_⟩
    · rw [List.map_cons, List.cons_append]
      unfold numberBase
      split <;> simp_all
    · exact digitValue_asciiDigit (hlt e he) le_rfl
    · rw [Lib.Radix.foldl_eq, Nat.zero_mul, Nat.zero_add]

/-- `strtoul` reads decimal digits; what is too large for it becomes the largest number. -/
theorem strtoul_unsigned {ds : List Nat} {rest : List UInt8} (hne : ds ≠ [])
    (hlt : ∀ d ∈ ds, d < 10) (hzero : ds.head? = some 0 → ds = [0]) (hrest : Stops rest) :
    strtoul (ds.map asciiDigit ++ rest) =
      (UInt32.ofNat (min (number 10 ds) ulongMax), rest) := by
  obtain ⟨base, hbase, hread, hvalue⟩ := numberBase_digits hne hlt hzero hrest
  obtain ⟨d, ds, rfl⟩ := List.exists_cons_of_ne_nil hne
  obtain ⟨hspace, hplus, hminus, -, -⟩ := asciiDigit_spec (hlt d List.mem_cons_self)
  rw [List.map_cons, List.cons_append] at hbase hread ⊢
  -- the text starts with a digit
  have hdrop : (asciiDigit d :: (ds.map asciiDigit ++ rest)).dropWhile isspace =
      asciiDigit d :: (ds.map asciiDigit ++ rest) :=
    List.dropWhile_cons_of_neg (by rw [hspace]; exact Bool.false_ne_true)
  unfold strtoul
  simp only [hdrop, List.head?_cons, Option.some.injEq, hplus, hminus, or_self, if_false, hbase,
    hread, hvalue]
  by_cases hmax : number 10 (d :: ds) > ulongMax
  · rw [if_pos hmax, Nat.min_eq_right hmax.le]
  · rw [if_neg hmax, Nat.min_eq_left (Nat.not_lt.mp hmax)]

/-- `strtoul` reads decimal digits, with or without a minus sign. -/
theorem strtoul_digits {ds : List Nat} {rest : List UInt8} (hne : ds ≠ [])
    (hlt : ∀ d ∈ ds, d < 10) (hzero : ds.head? = some 0 → ds = [0]) (hrest : EndsNumber rest)
    (hmax : number 10 ds ≤ ulongMax) :
    strtoul (ds.map asciiDigit ++ rest) = (UInt32.ofNat (number 10 ds), rest) ∧
      strtoul (0x2D :: (ds.map asciiDigit ++ rest)) = (-UInt32.ofNat (number 10 ds), rest) := by
  constructor
  · rw [strtoul_unsigned hne hlt hzero hrest.stops, Nat.min_eq_left hmax]
  · obtain ⟨base, hbase, hread, hvalue⟩ := numberBase_digits hne hlt hzero hrest.stops
    obtain ⟨d, ds, rfl⟩ := List.exists_cons_of_ne_nil hne
    rw [List.map_cons, List.cons_append] at hbase hread ⊢
    have hdrop : (0x2D :: asciiDigit d :: (ds.map asciiDigit ++ rest)).dropWhile isspace =
        0x2D :: asciiDigit d :: (ds.map asciiDigit ++ rest) :=
      List.dropWhile_cons_of_neg (by decide)
    unfold strtoul
    simp only [hdrop, List.head?_cons, List.tail_cons, or_true, if_true, hbase, hread, hvalue]
    rw [if_neg (Nat.not_lt.mpr hmax)]

/-! ## `%d` and `strtoul` -/

theorem toNat_toUInt32 (v : Int32) :
    (v < 0 → v.toUInt32 = -UInt32.ofNat v.toInt.natAbs) ∧
      (¬ v < 0 → v.toUInt32 = UInt32.ofNat v.toInt.natAbs) ∧ v.toInt.natAbs ≤ 2 ^ 31 := by
  have hlt := v.toUInt32.toNat_lt
  have hint : v.toInt = if 2 * v.toUInt32.toNat < 2 ^ 32 then (v.toUInt32.toNat : Int)
      else v.toUInt32.toNat - 2 ^ 32 := BitVec.toInt_eq_toNat_cond v.toBitVec
  simp only [Int32.lt_iff_toInt_lt, ← UInt32.toNat_inj, UInt32.toNat_neg, UInt32.toNat_ofNat',
    show (0 : Int32).toInt = 0 from rfl, show UInt32.size = 2 ^ 32 from rfl]
  refine ⟨fun hneg => ?_, fun hnonneg => ?_, ?_⟩ <;> split at hint <;> omega

/-- A sign and ten digits are the most that `%d` prints. -/
theorem length_intText_le (v : Int32) : (intText v).length ≤ 11 := by
  have hmax := (toNat_toUInt32 v).2.2
  have hlog : Nat.log 10 v.toInt.natAbs < 10 := Nat.log_lt_of_lt_pow' (by decide) (by omega)
  unfold intText
  split
  · rw [List.length_cons, length_decimal]
    omega
  · rw [length_decimal]
    omega

/-- A number that was printed with a sign is read back modulo `2 ^ 32`. -/
theorem strtoul_intText (v : Int32) {rest : List UInt8} (hrest : EndsNumber rest) :
    strtoul (intText v ++ rest) = (v.toUInt32, rest) := by
  obtain ⟨hneg, hnonneg, hmax⟩ := toNat_toUInt32 v
  have hnumber : number 10 (digits 10 v.toInt.natAbs) = v.toInt.natAbs :=
    Lib.Radix.number_digits _
  obtain ⟨hplain, hminus⟩ := strtoul_digits (Lib.Radix.digits_ne_nil v.toInt.natAbs)
    (fun d => Lib.Radix.digits_lt (by decide)) Lib.Radix.digits_eq_of_head hrest
    (by rw [hnumber, ulongMax]; omega)
  rw [hnumber] at hplain hminus
  unfold intText
  -- the sign of a negative number makes `strtoul` negate
  split
  · rename_i h
    rw [hneg h]
    exact hminus
  · rename_i h
    rw [hnonneg h]
    exact hplain

/-- The first digits of a number, read with or without a minus sign. -/
theorem strtoul_of_cutDigits {n : Nat} (hn : n ≤ 2 ^ 31) {cs tail : List UInt8} (hc : cs ≠ [])
    (ht : tail ≠ []) (h : decimal n = cs ++ tail) :
    (strtoul cs).1 ≠ UInt32.ofNat n ∧ (strtoul (0x2D :: cs)).1 ≠ -UInt32.ofNat n := by
  obtain ⟨xs, ys, hdigits, rfl, rfl⟩ := List.map_eq_append_iff.mp h
  have hx : xs ≠ [] := by simpa using hc
  have hy : ys ≠ [] := by simpa using ht
  have hless := Lib.Radix.number_lt_of_digits_eq (by decide) hx hy hdigits
  have hlt : ∀ d ∈ xs, d < 10 := fun d hd =>
    Lib.Radix.digits_lt (by decide) (hdigits ▸ List.mem_append_left ys hd)
  have hzero : xs.head? = some 0 → xs = [0] := by
    intro hhead
    -- a number that starts with 0 has no other digit, but here some are cut off
    have hone := Lib.Radix.digits_eq_of_head (show (digits 10 n).head? = some 0 by
      rw [hdigits, List.head?_append_of_ne_nil _ hx, hhead])
    obtain ⟨d, xs, rfl⟩ := List.exists_cons_of_ne_nil hx
    rw [hdigits, List.cons_append, List.cons.injEq, List.append_eq_nil_iff] at hone
    exact absurd hone.2.2 hy
  obtain ⟨hplain, hminus⟩ := strtoul_digits hx hlt hzero endsNumber_nil
    (by rw [ulongMax]; omega)
  rw [List.append_nil] at hplain hminus
  have hne : UInt32.ofNat (number 10 xs) ≠ UInt32.ofNat n := by
    rw [ne_eq, ← UInt32.toNat_inj, UInt32.toNat_ofNat', UInt32.toNat_ofNat']
    omega
  rw [hplain, hminus]
  exact ⟨hne, fun heq => hne (UInt32.neg_inj.mp heq)⟩

/-- A part of the text of `%d` is read as another number, unless it is the minus sign alone, which
    is not read at all. -/
theorem strtoul_of_cut {v : Int32} {cs tail : List UInt8} (hc : cs ≠ []) (ht : tail ≠ [])
    (h : intText v = cs ++ tail) :
    strtoul cs = (0, [0x2D]) ∨ (strtoul cs).1 ≠ v.toUInt32 := by
  obtain ⟨hneg, hnonneg, hmax⟩ := toNat_toUInt32 v
  unfold intText at h
  split at h
  · rename_i hv
    obtain ⟨c, cs, rfl⟩ := List.exists_cons_of_ne_nil hc
    rw [List.cons_append, List.cons.injEq] at h
    obtain ⟨rfl, h⟩ := h
    by_cases hcs : cs = []
    · subst hcs
      exact .inl rfl
    · right
      rw [hneg hv]
      exact (strtoul_of_cutDigits hmax hcs ht h).2
  · rename_i hv
    right
    rw [hnonneg hv]
    exact (strtoul_of_cutDigits hmax hc ht h).1

end SdkSnmpd
