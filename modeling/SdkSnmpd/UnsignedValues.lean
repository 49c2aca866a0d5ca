import SdkSnmpd.MibUpdate
import SdkSnmpd.Lib.TwosComplement

/-!
# Unsigned Values on the Wire

The elements that `encode_snmp_element_unsigned` writes for COUNTER, GAUGE and TIME_TICKS, as a
manager reads them. The number of octets is chosen by masks, while a reader takes the top bit of
the first octet for the sign.

## Contents

- `unsignedBytes`, `unsignedOctets_spec`: what is written, and the choice of the length.
- `HoldsUnsigned`: an entry after any build and updates (`HoldsUnsigned.bytes`).
- `validUnsigned_iff`: which values are valid BER.
-/

namespace SdkSnmpd

open Lib (Mem)
open Lib.Ber (octets foldOctets tlv lengthOctets beInt beNat IsShortest)

/-! ## What is written -/

/-- The number of octets that the masks choose. -/
def unsignedOctets (ticksValue : UInt32) : Nat :=
  if ticksValue &&& 0xFF000000 ≠ 0 then 4
  else if ticksValue &&& 0x00FF0000 ≠ 0 then 3
  else if ticksValue &&& 0x0000FF00 ≠ 0 then 2
  else 1

def unsignedContent (ticksValue : UInt32) : List UInt8 :=
  octets ticksValue (unsignedOctets ticksValue)

def unsignedBytes (type : UInt8) (ticksValue : UInt32) : List UInt8 :=
  tlv type (unsignedContent ticksValue)

theorem unsignedOctets_bounds (v : UInt32) : 1 ≤ unsignedOctets v ∧ unsignedOctets v ≤ 4 := by
  unfold unsignedOctets
  split_ifs <;> omega

@[simp] theorem length_unsignedContent (v : UInt32) :
    (unsignedContent v).length = unsignedOctets v := by
  simp only [unsignedContent, Lib.Ber.length_octets]

theorem length_unsignedBytes (type : UInt8) (v : UInt32) :
    (unsignedBytes type v).length = 2 + unsignedOctets v := by
  have hb := unsignedOctets_bounds v
  rw [unsignedBytes, Lib.Ber.length_tlv, Lib.Ber.length_lengthOctets, length_unsignedContent,
    if_neg (by omega), if_neg (by omega)]

theorem encodeSnmpElementUnsigned_eq (type : UInt8) (v : UInt32) :
    encodeSnmpElementUnsigned type v = modify fun data => data.store (unsignedBytes type v) := by
  have hb := unsignedOctets_bounds v
  have hlen : lengthOctets (unsignedContent v).length = [UInt8.ofNat (unsignedOctets v)] := by
    rw [length_unsignedContent, lengthOctets, if_neg (by omega), if_neg (by omega)]
  simp only [unsignedBytes, tlv, hlen]
  rfl

/-- A mask of an octet, in terms of the number. -/
theorem and_mask_ne_zero_iff (v mask : UInt32) {i : Nat} (hmask : mask.toNat = 255 <<< i) :
    v &&& mask ≠ 0 ↔ v.toNat / 2 ^ i % 256 ≠ 0 := by
  rw [Ne, ← UInt32.toNat_inj, UInt32.toNat_and, hmask]
  exact not_congr (Lib.Ber.and_octetMask_eq_zero_iff _ _)

/-- The masks choose the fewest octets that hold the number without a sign. -/
theorem unsignedOctets_spec (v : UInt32) : ∃ k, k < 4 ∧ unsignedOctets v = k + 1 ∧
    v.toNat < 256 ^ (k + 1) ∧ (k = 0 ∨ 256 ^ k ≤ v.toNat) := by
  have hlt := v.toNat_lt
  have h4 := and_mask_ne_zero_iff v 0xFF000000 (i := 24) rfl
  have h3 := and_mask_ne_zero_iff v 0x00FF0000 (i := 16) rfl
  have h2 := and_mask_ne_zero_iff v 0x0000FF00 (i := 8) rfl
  unfold unsignedOctets
  -- the masks are tried from the top, so that the higher octets are known to be zero
  by_cases h24 : v &&& 0xFF000000 ≠ 0
  · refine ⟨3, by omega, if_pos h24, by omega, .inr ?_⟩
    have hoctet := h4.mp h24
    omega
  rw [if_neg h24]
  rw [h4] at h24
  by_cases h16 : v &&& 0x00FF0000 ≠ 0
  · refine ⟨2, by omega, if_pos h16, by omega, .inr ?_⟩
    have hoctet := h3.mp h16
    omega
  rw [if_neg h16]
  rw [h3] at h16
  by_cases h8 : v &&& 0x0000FF00 ≠ 0
  · refine ⟨1, by omega, if_pos h8, by omega, .inr ?_⟩
    have hoctet := h2.mp h8
    omega
  rw [if_neg h8]
  rw [h2] at h8
  exact ⟨0, by omega, rfl, by omega, .inl rfl⟩

/-! ## What it denotes -/

theorem beNat_unsignedContent (v : UInt32) : beNat (unsignedContent v) = v.toNat := by
  obtain ⟨k, hk, hoctets, hlt, -⟩ := unsignedOctets_spec v
  rw [unsignedContent, hoctets]
  exact Lib.Ber.beNat_octets (by omega) hlt

/-- The top bit of the first octet is clear: the value is in the lower half of the numbers that
    take as many octets. -/
def LeadingBitClear (v : UInt32) : Prop :=
  ∃ k < 4, (k = 0 ∨ 256 ^ k ≤ v.toNat) ∧ v.toNat < 128 * 256 ^ k

theorem leadingBitClear_iff {v : UInt32} {k : Nat} (hlt : v.toNat < 256 ^ (k + 1))
    (hle : k = 0 ∨ 256 ^ k ≤ v.toNat) (hk : k < 4) :
    LeadingBitClear v ↔ v.toNat < 128 * 256 ^ k := by
  constructor
  · rintro ⟨j, -, hj, hlow⟩
    have hjk : j ≤ k := by
      by_contra hmore
      have hpow : 256 ^ (k + 1) ≤ 256 ^ j := Nat.pow_le_pow_right (by decide) (by omega)
      omega
    have hpow : 256 ^ j ≤ 256 ^ k := Nat.pow_le_pow_right (by decide) hjk
    omega
  · exact fun hlow => ⟨k, hk, hle, hlow⟩

/-- The first octet of the content. -/
theorem toNat_headD_unsignedContent {v : UInt32} {k : Nat} (hk : k < 4)
    (hoctets : unsignedOctets v = k + 1) (hlt : v.toNat < 256 ^ (k + 1)) :
    ((unsignedContent v).headD 0).toNat = v.toNat / 256 ^ k := by
  rw [unsignedContent, hoctets]
  change ((v >>> UInt32.ofNat (8 * k)).toUInt8).toNat = _
  rw [Lib.Ber.toNat_octet v hk]
  apply Nat.mod_eq_of_lt
  rw [Nat.pow_succ] at hlt
  exact Nat.div_lt_of_lt_mul hlt

/-- Read with a sign, the content denotes the value exactly when the top bit is clear. -/
theorem beInt_unsignedContent_iff (v : UInt32) :
    beInt (unsignedContent v) = v.toNat ↔ LeadingBitClear v := by
  obtain ⟨k, hk, hoctets, hlt, hle⟩ := unsignedOctets_spec v
  have hhead := toNat_headD_unsignedContent hk hoctets hlt
  have hpos : 0 < 256 ^ k := Nat.pow_pos (by decide)
  rw [leadingBitClear_iff hlt hle hk, ← Nat.div_lt_iff_lt_mul hpos, ← hhead]
  by_cases hlow : ((unsignedContent v).headD 0).toNat < 128
  · rw [Lib.Ber.beInt_of_low hlow, beNat_unsignedContent]
    exact iff_of_true rfl hlow
  · rw [Lib.Ber.beInt_of_high (Nat.not_lt.mp hlow), beNat_unsignedContent, length_unsignedContent]
    -- what is read is negative
    have hpos' : 0 < 256 ^ unsignedOctets v := Nat.pow_pos (by decide)
    exact iff_of_false (by omega) hlow

/-- No shorter content denotes the value. -/
theorem isShortest_unsignedContent {v : UInt32} (h : beInt (unsignedContent v) = v.toNat) :
    IsShortest (unsignedContent v) := by
  obtain ⟨k, hk, hoctets, hlt, hle⟩ := unsignedOctets_spec v
  cases k with
  | zero =>
    apply Lib.Ber.isShortest_of_length_le_one
    rw [length_unsignedContent, hoctets]
  | succ k =>
    apply Lib.Ber.isShortest_of_le (k := k)
    · rw [length_unsignedContent, hoctets]
    · rw [h]
      rw [Nat.pow_succ] at hle
      omega

/-- Without a sign, the octets are shifted back into the value. -/
theorem foldOctets_unsignedContent (v : UInt32) : foldOctets 0 (unsignedContent v) = v := by
  have hlt := v.toNat_lt
  rw [← UInt32.toNat_inj, Lib.Ber.toNat_foldOctets_eq, beNat_unsignedContent, UInt32.toNat_zero,
    Nat.zero_mul, Nat.zero_add]
  exact Nat.mod_eq_of_lt hlt

/-! ## The entries of the MIB -/

/-- The data of an entry that `mib_build_entry` has made for an unsigned value, after any number
    of updates with unsigned values. The last one is `v`. -/
inductive HoldsUnsigned : UnsignedType → (v : UInt32) → Data → Prop where
  | built {type v data} (h : (createData (.unsigned type v)).run unusedEntry.data = .ok () data) :
      HoldsUnsigned type v data
  | updated {type type' v v' data data'} (h : HoldsUnsigned type v data)
      (hrun : (updateData (.unsigned type' v')).run data = .ok () data') :
      HoldsUnsigned type' v' data'

theorem run_updateUnsigned (type : UnsignedType) (v : UInt32) (data : Data) :
    (updateData (.unsigned type v)).run data =
      .ok () (data.store (unsignedBytes type.tag v)) := by
  rw [updateData, encodeSnmpElementUnsigned_eq]
  rfl

theorem run_createUnsigned (type : UnsignedType) (v : UInt32) :
    (createData (.unsigned type v)).run unusedEntry.data =
      .ok () ((Data.mk (List.replicate 6 0) 6 0).store (unsignedBytes type.tag v)) := by
  rw [createData, encodeSnmpElementUnsigned_eq]
  rfl

namespace HoldsUnsigned

variable {type : UnsignedType} {v : UInt32} {data : Data}

/-- Updates find the buffer that was allotted when the entry was made. -/
theorem eq_store (h : HoldsUnsigned type v data) :
    ∃ old : Data, old.maxLength = 6 ∧ data = old.store (unsignedBytes type.tag v) := by
  induction h with
  | built h =>
    rw [run_createUnsigned] at h
    cases h
    exact ⟨_, rfl, rfl⟩
  | @updated type type' v v' data data' h hrun ih =>
    obtain ⟨old, hmax, rfl⟩ := ih
    rw [run_updateUnsigned] at hrun
    cases hrun
    exact ⟨old.store (unsignedBytes type.tag v), hmax, rfl⟩

theorem bytes (h : HoldsUnsigned type v data) : data.bytes = unsignedBytes type.tag v := by
  obtain ⟨old, -, rfl⟩ := h.eq_store
  have hlen := length_unsignedBytes type.tag v
  have hb := unsignedOctets_bounds v
  exact old.store_bytes (by omega)

theorem fits (h : HoldsUnsigned type v data) :
    0 < data.encodedLength ∧ data.encodedLength ≤ data.maxLength := by
  obtain ⟨old, hmax, rfl⟩ := h.eq_store
  have hlen := length_unsignedBytes type.tag v
  have hb := unsignedOctets_bounds v
  rw [old.store_encodedLength, old.store_maxLength, hmax, hlen,
    toShort_eq (by omega) (by omega)]
  omega

end HoldsUnsigned

/-! ## Valid BER -/

/-- The data is one element with the type and the content: an INTEGER in its shortest form that
    denotes `v`, no longer than what is allotted, which the decoder of the agent reads as `v`. -/
structure UnsignedElement (type : UnsignedType) (v : UInt32) (data : Data)
    (content : List UInt8) : Prop where
  bytes : data.bytes = tlv type.tag content
  denotes : beInt content = v.toNat
  shortest : IsShortest content
  fits : 0 < data.encodedLength ∧ data.encodedLength ≤ data.maxLength
  decodes : ∀ (mem : Mem) (size pos : Nat), size ≤ maxPacketSize → Stands mem size pos content →
    (decodeSnmpElementValueUnsigned size pos content.length).eval mem =
      .ok (v, pos + content.length)

def ValidUnsigned (type : UnsignedType) (v : UInt32) (data : Data) : Prop :=
  ∃ content, UnsignedElement type v data content

/-- The decoder of the agent reads every value back. -/
theorem eval_unsignedContent {v : UInt32} {mem : Mem} {size pos : Nat} (hsize : size ≤ maxPacketSize)
    (h : Stands mem size pos (unsignedContent v)) :
    (decodeSnmpElementValueUnsigned size pos (unsignedContent v).length).eval mem =
      .ok (v, pos + (unsignedContent v).length) := by
  rw [eval_unsigned_eq_ok, h.slice, foldOctets_unsignedContent]
  exact ⟨guardPasses_of_fits hsize h.2, rfl⟩

/-- **Unsigned values.** An entry for a value is valid BER exactly when the top bit of the first
    octet of the value is clear. A manager reads all others as negative numbers. -/
theorem validUnsigned_iff (type : UnsignedType) (v : UInt32) (data : Data)
    (h : HoldsUnsigned type v data) : ValidUnsigned type v data ↔ LeadingBitClear v := by
  rw [← beInt_unsignedContent_iff]
  constructor
  · rintro ⟨content, helement⟩
    have hbytes : tlv type.tag content = unsignedBytes type.tag v :=
      helement.bytes.symm.trans h.bytes
    rw [← Lib.Ber.tlv_inj hbytes]
    exact helement.denotes
  · intro hdenotes
    exact ⟨unsignedContent v, {
      bytes := h.bytes
      denotes := hdenotes
      shortest := isShortest_unsignedContent hdenotes
      fits := h.fits
      decodes := fun _ _ _ => eval_unsignedContent }⟩

/-- A COUNTER of 128 is written as the octet that denotes -128. -/
theorem counter128_not_validUnsigned :
    ∃ data, HoldsUnsigned .counter 128 data ∧ data.bytes = tlv berTypeCounter [0x80] ∧
      beInt [0x80] = -128 ∧ ¬ ValidUnsigned .counter 128 data := by
  have hholds : HoldsUnsigned .counter 128 _ := .built (run_createUnsigned .counter 128)
  refine ⟨_, hholds, hholds.bytes, by decide, ?_⟩
  rintro ⟨content, helement⟩
  have hbytes : tlv berTypeCounter content = tlv berTypeCounter [0x80] :=
    helement.bytes.symm.trans hholds.bytes
  have hdenotes := helement.denotes
  rw [Lib.Ber.tlv_inj hbytes] at hdenotes
  revert hdenotes
  decide

theorem validUnsigned_iff_gauge127 :
    ValidUnsigned .gauge 127 ((Data.mk (List.replicate 6 0) 6 0).store
        (unsignedBytes UnsignedType.gauge.tag 127)) ↔ LeadingBitClear 127 :=
  validUnsigned_iff .gauge 127 _ (.built (run_createUnsigned .gauge 127))

end SdkSnmpd
