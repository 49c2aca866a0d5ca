import SdkSnmpd.MibBuild
import SdkSnmpd.RequestIntegers

/-!
# The Integer Codec

INTEGER elements are written by `encode_snmp_integer` and by `encode_snmp_element_integer`, their
length is predicted by `get_integer_length`, and they are read by the two steps of the decoder.
Each of the three functions of the encoder has a ladder of thresholds of its own.

## Contents

- `integerOctets_spec`: the octets that the ladder chooses are needed.
- `codesInteger`: the functions agree on every `int`.
-/

namespace SdkSnmpd

open Lib (Mem)
open Lib.Ber (tlv beInt IsShortest)

/-! ## The shortest form -/

/-- Where there is more than one octet, one octet less would not reach the integer. -/
theorem integerOctets_spec (v : Int32) : integerOctets v = 1 ∨ ∃ k, integerOctets v = k + 2 ∧
    ((128 * 256 ^ k : Nat) ≤ v.toInt ∨ v.toInt < -(128 * 256 ^ k : Nat)) := by
  rw [integerOctets_eq]
  -- one case for each rung of the ladder
  split_ifs with hfour hthree htwo
  · exact .inr ⟨2, rfl, by omega⟩
  · exact .inr ⟨1, rfl, by omega⟩
  · exact .inr ⟨0, rfl, by omega⟩
  · exact .inl rfl

/-- No shorter content denotes the integer. -/
theorem isShortest_integerContent (v : Int32) : IsShortest (integerContent v) := by
  have hlen := length_integerContent v
  have hdenotes := beInt_integerContent v
  rcases integerOctets_spec v with hone | ⟨k, hk, hhigh | hlow⟩
  · exact Lib.Ber.isShortest_of_length_le_one (by omega)
  · apply Lib.Ber.isShortest_of_le (k := k) (hlen.trans hk)
    rwa [hdenotes]
  · apply Lib.Ber.isShortest_of_lt (k := k) (hlen.trans hk)
    rwa [hdenotes]

/-! ## Reading it back -/

section

variable {mem : Mem} {size pos : Nat} {v : Int32}

/-- The content is decoded to the integer. -/
theorem eval_integerContent (hsize : size < sizeTModulus)
    (h : Stands mem size pos (integerContent v)) :
    (decodeSnmpElementValueInteger size pos (integerContent v).length).eval mem =
      .ok (v, pos + (integerContent v).length) := by
  have hpos : 1 ≤ (integerContent v).length := by
    rw [length_integerContent]
    exact (integerOctets_bounds v).1
  rw [eval_integer_eq_ok mem hpos, h.slice, integerValue_integerContent]
  exact ⟨guardPasses_of_le hsize hpos h.2, rfl⟩

end

/-! ## The codec -/

/-- What the functions make of an `int`: they write as many bytes as are predicted, and the same
    bytes, an INTEGER whose content is the shortest that denotes the `int`, and wherever these
    bytes stand in a packet, they are read as the `int`. -/
structure CodesInteger (v : Int32) : Prop where
  length : ((encodeSnmpInteger v).length : Int) = getIntegerLength v
  element : ∀ data, (encodeSnmpElementInteger v).run data =
    .ok () (data.store (encodeSnmpInteger v))
  content : ∃ content, encodeSnmpInteger v = tlv berTypeInteger content ∧
    beInt content = v.toInt ∧ IsShortest content
  decodes : ∀ (mem : Mem) (size pos : Nat), size < sizeTModulus →
    Stands mem size pos (encodeSnmpInteger v) →
      ∃ header, (decodeSnmpElementTypeLength size pos).eval mem = .ok header ∧
        header.type = berTypeInteger ∧
        (decodeSnmpElementValueInteger size header.pos header.length).eval mem =
          .ok (v, pos + (encodeSnmpInteger v).length)

/-- **The integer codec.** -/
theorem codesInteger (v : Int32) : CodesInteger v where
  length := (getIntegerLength_eq v).symm
  element := fun data => by
    rw [encodeSnmpElementInteger_eq, ← integerBytes_eq]
    rfl
  content := by
    refine ⟨integerContent v, (integerBytes_eq v).symm, ?_, isShortest_integerContent v⟩
    exact beInt_integerContent v
  decodes := fun mem size pos hsize h => by
    have hshort : (integerContent v).length < 65536 := by
      have hb := integerOctets_bounds v
      rw [length_integerContent]
      omega
    -- the header, then the content behind it
    rw [← integerBytes_eq] at h ⊢
    obtain ⟨q, hheader, hcontent, hend⟩ := eval_header (by decide) hshort h
    refine ⟨_, hheader, rfl, ?_⟩
    rw [eval_integerContent hsize hcontent, hend]
    rfl

end SdkSnmpd
