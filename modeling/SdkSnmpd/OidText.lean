import SdkSnmpd.Basic

/-!
# Object Identifiers as Text

`oid_aton` of `utils.c`, on top of `strtoul` of the C library.

## Contents

- `strtoul`: a number in the base that its own prefix names, and the text after it.
- `oidAton`: an OID from its dotted form.
- `oidAton_spec`: what is known of an OID that it returns.
-/

namespace SdkSnmpd

/-! ## `strtoul` with base 0 -/

def isspace (b : UInt8) : Bool := b = 0x20 || (0x09 ≤ b && b ≤ 0x0D)

/-- The value of a character as a digit, if it is one. -/
def digitValue (base : Nat) (b : UInt8) : Option Nat :=
  let value :=
    if 0x30 ≤ b ∧ b ≤ 0x39 then b.toNat - 0x30
    else if 0x41 ≤ b ∧ b ≤ 0x5A then b.toNat - 0x41 + 10
    else if 0x61 ≤ b ∧ b ≤ 0x7A then b.toNat - 0x61 + 10
    else base
  if value < base then some value else none

/-- The base that a number names by its prefix, and the rest. A `0x` that no digit follows
    is the number 0, followed by other text. -/
def numberBase (cs : List UInt8) : Nat × List UInt8 :=
  match cs with
  | zero :: x :: digit :: rest =>
      if zero ≠ 0x30 then (10, cs)
      else if (x = 0x78 ∨ x = 0x58) ∧ (digitValue 16 digit).isSome then (16, digit :: rest)
      else (8, cs)
  | zero :: _ => if zero ≠ 0x30 then (10, cs) else (8, cs)
  | [] => (10, [])

/-- The digits at the start of a text, and the text after them. -/
def readDigits (base : Nat) : List UInt8 → List Nat × List UInt8
  | [] => ([], [])
  | b :: rest =>
      match digitValue base b with
      | none => ([], b :: rest)
      | some d => (d :: (readDigits base rest).1, (readDigits base rest).2)

/-- The largest `unsigned long`. -/
def ulongMax : Nat := 2 ^ 32 - 1

/-- `strtoul(ptr, &ptr, 0)`: the number, and where `ptr` points afterwards. Without a digit
    the number is 0 and `ptr` stays. -/
def strtoul (cs : List UInt8) : UInt32 × List UInt8 :=
  let text := cs.dropWhile isspace
  let number := if text.head? = some 0x2B ∨ text.head? = some 0x2D then text.tail else text
  let (base, digits) := numberBase number
  match readDigits base digits with
  | ([], _) => (0, cs)
  | (ds, rest) =>
      let value := ds.foldl (fun acc d => acc * base + d) 0
      if value > ulongMax then (UInt32.ofNat ulongMax, rest)
      else if text.head? = some 0x2D then (-UInt32.ofNat value, rest)
      else (UInt32.ofNat value, rest)

/-! ## `oid_aton` -/

/-- The loop over the subids; `room` is what is left of the list. -/
def oidAtonFrom : (room : Nat) → List UInt8 → Option (List UInt32)
  | _, [] => some []
  | 0, _ :: _ => none
  | room + 1, c :: rest =>
      if c ≠ 0x2E then none
      else if rest = [] then none
      else
        let (subid, rest') := strtoul rest
        (oidAtonFrom room rest').map (subid :: ·)

/-- The OID is a static variable whose encoded length is never set. -/
def oidAton (str : CString) : Option Oid :=
  match oidAtonFrom maxNrSubids str.bytes with
  | none => none
  | some subidList =>
      if subidList.length < 2 ∨ subidList.getD 0 0 * 40 + subidList.getD 1 0 > 0xFF then none
      else some ⟨subidList, 0⟩

theorem length_oidAtonFrom_le {room : Nat} {cs : List UInt8} {subids : List UInt32}
    (h : oidAtonFrom room cs = some subids) : subids.length ≤ room := by
  induction room generalizing cs subids with
  | zero =>
    cases cs with
    | nil =>
      cases h
      exact Nat.le_refl 0
    | cons => cases h
  | succ room ih =>
    cases cs with
    | nil =>
      cases h
      exact Nat.zero_le _
    | cons b rest =>
      rw [oidAtonFrom] at h
      split_ifs at h
      obtain ⟨subids', hrest, rfl⟩ := Option.map_eq_some_iff.mp h
      exact Nat.succ_le_succ (ih hrest)

/-- An OID from text has 2 to 16 subids, and the first two fit into one octet. -/
theorem oidAton_spec {str : CString} {oid : Oid} (h : oidAton str = some oid) :
    2 ≤ oid.subidList.length ∧ oid.subidList.length ≤ maxNrSubids ∧
      oid.subidList.getD 0 0 * 40 + oid.subidList.getD 1 0 ≤ 0xFF := by
  unfold oidAton at h
  cases hfrom : oidAtonFrom maxNrSubids str.bytes with
  | none => simp [hfrom] at h
  | some subidList =>
    simp only [hfrom] at h
    split_ifs at h with hbad
    cases h
    rw [not_or, not_lt, UInt32.not_lt] at hbad
    exact ⟨hbad.1, length_oidAtonFrom_le hfrom, hbad.2⟩

end SdkSnmpd
