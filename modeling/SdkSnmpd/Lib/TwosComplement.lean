import SdkSnmpd.Lib.Ber
import SdkSnmpd.Lib.Radix

/-!
# Integers in Two's Complement

Big-endian octets denote an integer of any size. A word of 32 bits holds it modulo `2 ^ 32`.

## Contents

- `beInt`: the integer that octets denote; `beInt_bounds`: its range for a number of octets.
- `InWord`, `toInt_signFill_iff`: exactly the integers of 32 bits survive in a word that is
  filled with the sign first.
- `IsShortest`: no fewer octets denote the same integer.
-/

namespace SdkSnmpd.Lib.Ber

open Radix (number)

/-! ## Natural numbers -/

theorem beNat_eq_number (bs : List UInt8) : beNat bs = number 256 (bs.map UInt8.toNat) := by
  have hfold : (bs.map UInt8.toNat).foldl (fun acc d => acc * 256 + d) 0 = _ :=
    Radix.foldl_eq 0 (bs.map UInt8.toNat)
  rw [Nat.zero_mul, Nat.zero_add, List.foldl_map] at hfold
  exact hfold

theorem beNat_cons (b : UInt8) (bs : List UInt8) :
    beNat (b :: bs) = b.toNat * 256 ^ bs.length + beNat bs := by
  rw [beNat_eq_number, beNat_eq_number, List.map_cons, Radix.number_cons, List.length_map]

theorem beNat_lt (bs : List UInt8) : beNat bs < 256 ^ bs.length := by
  have hlt : number 256 (bs.map UInt8.toNat) < 256 ^ (bs.map UInt8.toNat).length := by
    apply Radix.number_lt (by decide)
    intro d hd
    obtain ⟨b, -, rfl⟩ := List.mem_map.mp hd
    exact b.toNat_lt
  rwa [← beNat_eq_number, List.length_map] at hlt

/-- A word takes up octets modulo `2 ^ 32`. -/
theorem toNat_foldOctets_eq (acc : UInt32) (bs : List UInt8) :
    (foldOctets acc bs).toNat = (acc.toNat * 256 ^ bs.length + beNat bs) % 2 ^ 32 := by
  induction bs generalizing acc with
  | nil =>
    have hlt := acc.toNat_lt
    simp only [foldOctets, List.foldl_nil, List.length_nil, Nat.pow_zero, beNat]
    omega
  | cons b bs ih =>
    have hstep : foldOctets acc (b :: bs) = foldOctets ((acc <<< 8) ||| b.toUInt32) bs := rfl
    rw [hstep, ih, toNat_shiftLeft_or, beNat_cons, Nat.add_mod, Nat.mod_mul_mod, ← Nat.add_mod,
      List.length_cons]
    congr 1
    ring

/-- The octets of a word that has no others denote it. -/
theorem beNat_octets {x : UInt32} {k : Nat} (hk : k ≤ 4) (h : x.toNat < 256 ^ k) :
    beNat (octets x k) = x.toNat := by
  have hfold := toNat_foldOctets 0 x hk
  have hlt := beNat_lt (octets x k)
  have hpow : 256 ^ k ≤ 256 ^ 4 := Nat.pow_le_pow_right (by decide) hk
  rw [toNat_foldOctets_eq, length_octets, UInt32.toNat_zero, Nat.zero_mul, Nat.zero_add,
    Nat.zero_add, Nat.mod_eq_of_lt h] at hfold
  rw [length_octets] at hlt
  rwa [Nat.mod_eq_of_lt (by omega), Nat.mod_eq_of_lt (by omega)] at hfold

/-! ## Integers -/

/-- The integer that octets denote in two's complement. -/
def beInt (bs : List UInt8) : Int :=
  if (bs.headD 0).toNat < 128 then beNat bs else beNat bs - (256 ^ bs.length : Nat)

theorem beInt_of_low {bs : List UInt8} (h : (bs.headD 0).toNat < 128) : beInt bs = beNat bs :=
  if_pos h

theorem beInt_of_high {bs : List UInt8} (h : 128 ≤ (bs.headD 0).toNat) :
    beInt bs = beNat bs - (256 ^ bs.length : Nat) := if_neg (Nat.not_lt.mpr h)

/-- The range of `k + 1` octets. -/
theorem beInt_bounds {bs : List UInt8} {k : Nat} (hlen : bs.length = k + 1) :
    -(128 * 256 ^ k : Nat) ≤ beInt bs ∧ beInt bs < (128 * 256 ^ k : Nat) := by
  obtain ⟨b, rest, rfl⟩ := List.exists_cons_of_length_eq_add_one hlen
  have hb := b.toNat_lt
  have hrest := beNat_lt rest
  have hk : rest.length = k := by simpa using hlen
  have hcons := beNat_cons b rest
  rw [hk] at hrest hcons
  by_cases hlow : b.toNat < 128
  · have hmul : b.toNat * 256 ^ k ≤ 127 * 256 ^ k := Nat.mul_le_mul_right _ (by omega)
    have hint : beInt (b :: rest) = beNat (b :: rest) := beInt_of_low hlow
    omega
  · have hmul : 128 * 256 ^ k ≤ b.toNat * 256 ^ k := Nat.mul_le_mul_right _ (by omega)
    have hmul' : b.toNat * 256 ^ k ≤ 255 * 256 ^ k := Nat.mul_le_mul_right _ (by omega)
    have hint : beInt (b :: rest) = beNat (b :: rest) - (256 ^ (b :: rest).length : Nat) :=
      beInt_of_high (Nat.not_lt.mp hlow)
    rw [hlen, Nat.pow_succ] at hint
    omega

/-! ## Words -/

/-- The integer is one of 32 bits. -/
def InWord (x : Int) : Prop := -2 ^ 31 ≤ x ∧ x < 2 ^ 31

instance (x : Int) : Decidable (InWord x) := inferInstanceAs (Decidable (_ ∧ _))

theorem bmod_eq_iff_inWord (x : Int) : x.bmod (2 ^ 32) = x ↔ InWord x := by
  constructor
  · intro h
    have hle := Int.le_bmod (x := x) (m := 2 ^ 32) (by decide)
    have hlt := Int.bmod_lt (x := x) (m := 2 ^ 32) (by decide)
    rw [h] at hle hlt
    unfold InWord
    omega
  · rintro ⟨hle, hlt⟩
    apply Int.bmod_eq_of_le <;> omega

theorem toInt_toInt32_eq (x : UInt32) : x.toInt32.toInt = (x.toNat : Int).bmod (2 ^ 32) :=
  BitVec.toInt_eq_toNat_bmod x.toBitVec

/-- A word that is filled with the sign, and then takes up the octets, holds the integer modulo
    `2 ^ 32`. -/
theorem toInt_signFill (bs : List UInt8) :
    (foldOctets (if bs.headD 0 &&& 0x80 = 0 then 0x00000000 else 0xFFFFFFFF) bs).toInt32.toInt =
      (beInt bs).bmod (2 ^ 32) := by
  rw [toInt_toInt32_eq, toNat_foldOctets_eq, Int.natCast_emod]
  simp only [and_high_eq_zero_iff]
  by_cases hlow : (bs.headD 0).toNat < 128
  · rw [if_pos hlow, beInt_of_low hlow, UInt32.toNat_zero, Nat.zero_mul, Nat.zero_add]
    exact Int.emod_bmod _ _
  · -- the ones in front of the octets count for `-256 ^ bs.length`
    have hshift : (((0xFFFFFFFF : UInt32).toNat * 256 ^ bs.length + beNat bs : Nat) : Int) =
        beInt bs + (2 ^ 32 : Nat) * (256 ^ bs.length : Nat) := by
      rw [beInt_of_high (Nat.not_lt.mp hlow), show (0xFFFFFFFF : UInt32).toNat = 2 ^ 32 - 1 from rfl]
      push_cast
      ring
    rw [if_neg hlow, hshift, Int.add_mul_emod_self_left]
    exact Int.emod_bmod _ _

/-- **Integers of 32 bits survive**, and no others. -/
theorem toInt_signFill_iff (bs : List UInt8) :
    (foldOctets (if bs.headD 0 &&& 0x80 = 0 then 0x00000000 else 0xFFFFFFFF) bs).toInt32.toInt =
      beInt bs ↔ InWord (beInt bs) := by
  rw [toInt_signFill, bmod_eq_iff_inWord]

/-! ## Shortest encodings -/

/-- No fewer octets denote the same integer. -/
def IsShortest (bs : List UInt8) : Prop :=
  ∀ bs', bs' ≠ [] → beInt bs' = beInt bs → bs.length ≤ bs'.length

theorem isShortest_of_length_le_one {bs : List UInt8} (h : bs.length ≤ 1) : IsShortest bs := by
  intro bs' hne _
  exact h.trans (List.length_pos_iff.mpr hne)

/-- Octets are needed for a number that `k + 1` octets do not reach. -/
theorem isShortest_of_le {bs : List UInt8} {k : Nat} (hlen : bs.length = k + 2)
    (h : (128 * 256 ^ k : Nat) ≤ beInt bs) : IsShortest bs := by
  intro bs' hne heq
  by_contra hshort
  obtain ⟨j, hj⟩ := Nat.exists_eq_add_of_le' (List.length_pos_iff.mpr hne)
  have hlt := (beInt_bounds hj).2
  have hpow : 256 ^ j ≤ 256 ^ k := Nat.pow_le_pow_right (by decide) (by omega)
  rw [heq] at hlt
  omega

/-- The same below zero. -/
theorem isShortest_of_lt {bs : List UInt8} {k : Nat} (hlen : bs.length = k + 2)
    (h : beInt bs < -(128 * 256 ^ k : Nat)) : IsShortest bs := by
  intro bs' hne heq
  by_contra hshort
  obtain ⟨j, hj⟩ := Nat.exists_eq_add_of_le' (List.length_pos_iff.mpr hne)
  have hle := (beInt_bounds hj).1
  have hpow : 256 ^ j ≤ 256 ^ k := Nat.pow_le_pow_right (by decide) (by omega)
  rw [heq] at hle
  omega

end SdkSnmpd.Lib.Ber
