import SdkSnmpd.Accepted
import SdkSnmpd.Encode

/-!
# Object Identifiers on the Wire

The OID decoder and the OID encoder against each other, in both directions.

## Contents

- `WireOid`: an OID that the encoder represents faithfully. It is decoded to itself
  (`oidValue_oidContent`).
- `DecodedOid.length_encode_le`: the encoder never writes more for a decoded OID than the
  length recorded for it. It may write less, because the decoder accepts padded and
  oversized subids.
-/

namespace SdkSnmpd

open Lib.Ber (groups foldGroups tlv lengthOctets)

/-! ## Subids and their groups -/

theorem subidLength_bounds (x : UInt32) : 1 ≤ subidLength x ∧ subidLength x ≤ 5 := by
  unfold subidLength
  split_ifs <;> omega

/-- The ladder of `subidLength` in terms of powers of 128. -/
theorem subidLength_le_iff (x : UInt32) {k : Nat} (hk : 1 ≤ k) (hk' : k ≤ 4) :
    subidLength x ≤ k ↔ x.toNat < 128 ^ k := by
  have hlt := x.toNat_lt
  unfold subidLength
  simp only [ge_iff_le, UInt32.le_iff_toNat_le, show ((1 : UInt32) <<< 28).toNat = 128 ^ 4 from rfl,
    show ((1 : UInt32) <<< 21).toNat = 128 ^ 3 from rfl,
    show ((1 : UInt32) <<< 14).toNat = 128 ^ 2 from rfl,
    show ((1 : UInt32) <<< 7).toNat = 128 ^ 1 from rfl]
  match k, hk, hk' with
  | 1, _, _ => split_ifs <;> omega
  | 2, _, _ => split_ifs <;> omega
  | 3, _, _ => split_ifs <;> omega
  | 4, _, _ => split_ifs <;> omega

/-- A subid below `128 ^ k` takes at most `k` groups. -/
theorem subidLength_le {x : UInt32} {k : Nat} (hk : 1 ≤ k) (h : x.toNat < 128 ^ k) :
    subidLength x ≤ k := by
  by_cases hbig : k ≤ 4
  · exact (subidLength_le_iff x hk hbig).mpr h
  · have hb := (subidLength_bounds x).2
    omega

/-- The groups of a subid hold it completely. -/
theorem foldGroups_subidLength (x : UInt32) : foldGroups 0 (groups x (subidLength x)) = x := by
  have hb := subidLength_bounds x
  have hlt := x.toNat_lt
  have hmod : x.toNat % 128 ^ subidLength x = x.toNat := by
    apply Nat.mod_eq_of_lt
    by_cases hbig : subidLength x ≤ 4
    · exact (subidLength_le_iff x hb.1 hbig).mp le_rfl
    · -- five groups hold every 32-bit number
      have hfive : subidLength x = 5 := by omega
      rw [hfive]
      omega
  rw [← UInt32.toNat_inj, Lib.Ber.toNat_foldGroups 0 x hb.2, hmod]
  simp only [UInt32.toNat_zero, Nat.zero_mul, Nat.zero_add]
  exact Nat.mod_eq_of_lt hlt

/-- The groups after the first one are those of a shorter row. -/
theorem groups_succ (x : UInt32) (k : Nat) : groups x (k + 1 + 1) =
    (groups x (k + 1 + 1)).head (by simp [groups]) :: groups x (k + 1) := rfl

/-- The decoder takes the groups of one subid off a row of octets. -/
theorem subidsOf_groups (acc x : UInt32) {k : Nat} (hk : k < 5) (rest : List UInt8) :
    subidsOf acc (groups x (k + 1) ++ rest) =
      foldGroups acc (groups x (k + 1)) :: subidsOf 0 rest := by
  induction k generalizing acc with
  | zero =>
    -- the last group of a subid has its high bit clear
    have hhead := Lib.Ber.toNat_head_groups x hk
    simp only [groups, List.head_cons] at hhead
    simp only [groups, List.cons_append, List.nil_append, subidsOf, foldGroups, List.foldl_cons,
      List.foldl_nil]
    rw [if_pos (by rw [hhead]; simp; omega)]
  | succ k ih =>
    -- the groups before it have their high bits set
    have hhead := Lib.Ber.toNat_head_groups x hk
    have hlen := groups_succ x k
    rw [hlen, List.cons_append, subidsOf]
    simp only [hhead]
    rw [if_neg (by rw [if_neg (by omega)]; omega), ih _ (by omega)]
    rfl

theorem groups_subidLength (x : UInt32) : ∃ k < 5, subidLength x = k + 1 := by
  have hb := subidLength_bounds x
  exact ⟨subidLength x - 1, by omega, by omega⟩

/-- **Subids survive.** -/
theorem subidsOf_encodeSubids (subids : List UInt32) :
    subidsOf 0 (encodeSubids subids) = subids := by
  induction subids with
  | nil => rfl
  | cons x subids ih =>
    obtain ⟨k, hk, hlen⟩ := groups_subidLength x
    have hfold := foldGroups_subidLength x
    rw [hlen] at hfold
    rw [encodeSubids, List.flatMap_cons, hlen, subidsOf_groups 0 x hk, hfold]
    exact congrArg (x :: ·) ih

/-- Each group row ends exactly one subid. -/
theorem stops_groups (x : UInt32) {k : Nat} (hk : k < 5) : stops (groups x (k + 1)) = 1 := by
  induction k with
  | zero =>
    have hhead := Lib.Ber.toNat_head_groups x hk
    simp only [groups, List.head_cons] at hhead
    simp only [groups, stops_cons]
    rw [if_pos (by rw [hhead]; simp; omega)]
    rfl
  | succ k ih =>
    have hhead := Lib.Ber.toNat_head_groups x hk
    have hlen := groups_succ x k
    rw [hlen, stops_cons, ih (by omega), hhead, if_neg (by rw [if_neg (by omega)]; omega)]

theorem closed_groups (x : UInt32) {k : Nat} (hk : k < 5) : Closed (groups x (k + 1)) := by
  induction k with
  | zero =>
    have hhead := Lib.Ber.toNat_head_groups x hk
    simp only [groups, List.head_cons] at hhead
    simp only [groups, closed_singleton]
    rw [hhead]
    simp
    omega
  | succ k ih => exact (closed_cons_cons _ _ _).mpr (ih (by omega))

theorem closed_append {xs ys : List UInt8} (hx : Closed xs) (hy : Closed ys) :
    Closed (xs ++ ys) := by
  intro b hb
  rw [List.getLast?_append] at hb
  cases hlast : ys.getLast? with
  | none =>
    -- the last octet is the one of the first row
    rw [hlast] at hb
    exact hx b hb
  | some c =>
    rw [hlast] at hb
    obtain rfl : c = b := by simpa using hb
    exact hy c (by simp [hlast])

theorem stops_append (xs ys : List UInt8) : stops (xs ++ ys) = stops xs + stops ys :=
  List.countP_append

theorem stops_encodeSubids (subids : List UInt32) :
    stops (encodeSubids subids) = subids.length := by
  induction subids with
  | nil => rfl
  | cons x subids ih =>
    obtain ⟨k, hk, hlen⟩ := groups_subidLength x
    rw [encodeSubids, List.flatMap_cons, hlen, stops_append, stops_groups x hk, List.length_cons,
      ← ih]
    exact Nat.add_comm _ _

theorem closed_encodeSubids (subids : List UInt32) : Closed (encodeSubids subids) := by
  induction subids with
  | nil => simp [encodeSubids, Closed]
  | cons x subids ih =>
    obtain ⟨k, hk, hlen⟩ := groups_subidLength x
    rw [encodeSubids, List.flatMap_cons, hlen]
    exact closed_append (closed_groups x hk) ih

/-! ## Lengths of an encoded OID -/

theorem length_encodeSubids (subids : List UInt32) :
    (encodeSubids subids).length = (subids.map subidLength).sum := by
  simp [encodeSubids, List.length_flatMap]

/-- The content length is computed right. -/
theorem length_oidContent (subids : List UInt32) :
    (oidContent subids).length = oidContentLength subids := by
  rw [oidContent, List.length_cons, length_encodeSubids, oidContentLength, Nat.add_comm]

/-- The OIDs of the agent have short contents. -/
theorem oidContentLength_le {subids : List UInt32} (h : subids.length ≤ maxNrSubids) :
    oidContentLength subids ≤ 71 := by
  have hsum : ∀ xs : List UInt32, (xs.map subidLength).sum ≤ xs.length * 5 := by
    intro xs
    induction xs with
    | nil => exact le_rfl
    | cons x xs ih =>
      have hb := (subidLength_bounds x).2
      rw [List.map_cons, List.sum_cons, List.length_cons]
      omega
  have hdrop := hsum (subids.drop 2)
  rw [List.length_drop] at hdrop
  unfold maxNrSubids at h
  unfold oidContentLength
  omega

/-- An OID is written as one complete element in shortest form. -/
theorem encodeSnmpOid_eq_tlv {oid : Oid} (h : oidContentLength oid.subidList ≤ 0xFFFF) :
    encodeSnmpOid oid = tlv berTypeOid (oidContent oid.subidList) := by
  unfold encodeSnmpOid
  rw [if_neg (by omega), encodeLength_natCast, tlv, length_oidContent]
  rfl

/-! ## From the agent to the wire and back -/

/-- An OID of the agent that the wire represents: two to 16 subids, the first two of which
    share an octet below 128, and the length of its encoding. -/
structure WireOid (oid : Oid) : Prop where
  two : 2 ≤ oid.subidList.length
  room : oid.subidList.length ≤ maxNrSubids
  second : (oid.subidList.getD 1 0).toNat < 40
  start : (oid.subidList.getD 0 0).toNat * 40 + (oid.subidList.getD 1 0).toNat ≤ 127
  exact : oid.encodedLength = (tlv berTypeOid (oidContent oid.subidList)).length

namespace WireOid

variable {oid : Oid}

theorem contentLength_le (h : WireOid oid) : oidContentLength oid.subidList ≤ 71 :=
  oidContentLength_le h.room

/-- The start octet. -/
theorem toNat_start (h : WireOid oid) :
    (oid.subidList.getD 0 0 * 40 + oid.subidList.getD 1 0).toUInt8.toNat =
      (oid.subidList.getD 0 0).toNat * 40 + (oid.subidList.getD 1 0).toNat := by
  have hstart := h.start
  rw [UInt32.toNat_toUInt8, UInt32.toNat_add, UInt32.toNat_mul]
  simp only [UInt32.reduceToNat]
  omega

theorem content (h : WireOid oid) : OidContent (oidContent oid.subidList) where
  start := by
    have hstart := h.start
    change (UInt32.toUInt8 _).toNat < 128
    rw [h.toNat_start]
    omega
  closed := closed_encodeSubids (oid.subidList.drop 2)
  room := by
    have hroom := h.room
    change stops (encodeSubids (oid.subidList.drop 2)) ≤ _
    rw [stops_encodeSubids, List.length_drop]
    omega

theorem encodedLength_eq (h : WireOid oid) :
    oid.encodedLength = oidEncodedLength (oidContent oid.subidList).length := by
  have hle := h.contentLength_le
  rw [h.exact, Lib.Ber.length_tlv, Lib.Ber.length_lengthOctets, length_oidContent]
  unfold oidEncodedLength
  rw [if_neg (by omega), if_neg (by omega), if_neg (by omega), if_neg (by omega),
    toShort_eq (x := oidContentLength oid.subidList) (by omega) (by omega),
    toShort_eq (by omega) (by omega)]
  omega

/-- **An OID is decoded to itself.** -/
theorem oidValue_oidContent (h : WireOid oid) : oidValue (oidContent oid.subidList) = oid := by
  have hlength := h.encodedLength_eq
  have hstart := h.toNat_start
  have hsecond := h.second
  have htwo := h.two
  obtain ⟨subidList, encodedLength⟩ := oid
  rcases subidList with _ | ⟨x, _ | ⟨y, subids⟩⟩
  · simp at htwo
  · simp at htwo
  simp only [List.getD_cons_zero, List.getD_cons_succ] at hstart hsecond
  -- the start octet splits into the two subids again
  have hx : (((x * 40 + y).toUInt8 / 40).toUInt32) = x := by
    rw [← UInt32.toNat_inj, UInt8.toNat_toUInt32, UInt8.toNat_div, hstart]
    simp only [UInt8.reduceToNat]
    omega
  have hy : (((x * 40 + y).toUInt8 % 40).toUInt32) = y := by
    rw [← UInt32.toNat_inj, UInt8.toNat_toUInt32, UInt8.toNat_mod, hstart]
    simp only [UInt8.reduceToNat]
    omega
  rw [oidValue, ← hlength]
  simp only [oidContent, List.getD_cons_zero, List.getD_cons_succ, List.headD_cons,
    List.tail_cons, List.drop_succ_cons, List.drop_zero, subidsOf_encodeSubids, hx, hy,
    List.cons_append, List.nil_append]

end WireOid

/-! ## From the wire to the agent and back -/

/-- Decoded subids take at most the groups that they were decoded from. The first `j`
    groups of the subid at hand are in `acc` already. -/
theorem sum_subidLength_subidsOf_le (acc : UInt32) (j : Nat) (h : acc.toNat < 128 ^ j)
    (bs : List UInt8) : ((subidsOf acc bs).map subidLength).sum ≤ j + bs.length := by
  induction bs generalizing acc j with
  | nil => simp [subidsOf]
  | cons b bs ih =>
    -- seven more bits
    have hacc : ((acc <<< 7) + (b &&& 0x7F).toUInt32).toNat < 128 ^ (j + 1) := by
      rw [Lib.Ber.toNat_shiftLeft_add, Nat.pow_succ]
      omega
    rw [subidsOf]
    by_cases hlow : b.toNat < 128
    · -- the subid ends here
      have hlen := subidLength_le (Nat.le_add_left 1 j) hacc
      have hrest := ih 0 0 (by decide)
      simp only [hlow, ite_true, List.map_cons, List.sum_cons, List.length_cons]
      omega
    · -- the subid goes on
      have hrest := ih _ (j + 1) hacc
      simp only [hlow, ite_false, List.length_cons]
      omega

/-- The content that is written for a decoded OID is no longer than the one it was decoded
    from. -/
theorem oidContentLength_oidValue_le {bs : List UInt8} (hne : bs ≠ []) :
    oidContentLength (oidValue bs).subidList ≤ bs.length := by
  obtain ⟨b, rest, rfl⟩ := List.exists_cons_of_ne_nil hne
  have hsum := sum_subidLength_subidsOf_le 0 0 (by decide) rest
  rw [List.length_cons]
  simp only [oidContentLength, oidValue, List.tail_cons, List.cons_append, List.nil_append,
    List.drop_succ_cons, List.drop_zero]
  omega

/-- What the encoder writes for a decoded OID fits into the length recorded for it. -/
theorem DecodedOid.length_encode_le {n : Nat} (hn : n ≤ maxPacketSize) {oid : Oid}
    (h : DecodedOid n oid) : ((encodeSnmpOid oid).length : Int) ≤ oid.encodedLength := by
  obtain ⟨bs, hne, hlen, -, rfl⟩ := h
  have hcontent := oidContentLength_oidValue_le hne
  unfold maxPacketSize at hn
  -- the header of shorter content is no longer
  rw [encodeSnmpOid_eq_tlv (by omega), Lib.Ber.length_tlv, Lib.Ber.length_lengthOctets,
    length_oidContent]
  change _ ≤ oidEncodedLength bs.length
  unfold oidEncodedLength
  rw [toShort_eq (x := bs.length) (by omega) (by omega)]
  split_ifs <;> rw [toShort_eq (by omega) (by omega)] <;> omega

end SdkSnmpd
