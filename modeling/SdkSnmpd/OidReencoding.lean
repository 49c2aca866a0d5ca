import SdkSnmpd.Lib.Groups
import SdkSnmpd.OidCodec

/-!
# Encoding Again what Was Decoded

The decoder of OIDs takes rows of base-128 groups of any length and keeps their numbers modulo
`2 ^ 32`. The encoder writes each subid in as few groups as it needs.

## Contents

- `CanonicalRow`: a row without padding whose number is a word.
- `encodeSubids_subidsOf_iff`: subids are encoded as the rows that they were decoded from exactly
  if these are canonical.
- `reproduces_iff`: the same for a whole OID, and for the length recorded for it.
- `canonical_injective`: canonical contents of the same OID are equal.
-/

namespace SdkSnmpd

open Lib (Mem)
open Lib.Ber (groups foldGroups tlv lengthOctets Row rows groupNumber)

/-! ## Rows -/

/-- The first group is not a zero with a continuation bit, and the number fits into 32 bits. -/
structure CanonicalRow (row : List UInt8) : Prop where
  unpadded : row.head? ≠ some 0x80
  word : groupNumber row < 2 ^ 32

instance (row : List UInt8) : Decidable (CanonicalRow row) :=
  decidable_of_iff (row.head? ≠ some 0x80 ∧ groupNumber row < 2 ^ 32)
    ⟨fun h => ⟨h.1, h.2⟩, fun h => ⟨h.unpadded, h.word⟩⟩

/-- The decoder takes one subid off a row. -/
theorem subidsOf_row {row : List UInt8} (h : Row row) (acc : UInt32) (rest : List UInt8) :
    subidsOf acc (row ++ rest) = foldGroups acc row :: subidsOf 0 rest := by
  induction h generalizing acc with
  | last hlow =>
    rw [List.singleton_append, subidsOf, if_pos hlow]
    rfl
  | more hhigh hrow ih =>
    rw [List.cons_append, subidsOf, if_neg (Nat.not_lt.mpr hhigh)]
    exact ih _

theorem subidsOf_flatten {rs : List (List UInt8)} (h : ∀ row ∈ rs, Row row) :
    subidsOf 0 rs.flatten = rs.map (foldGroups 0) := by
  induction rs with
  | nil => rfl
  | cons row rs ih =>
    obtain ⟨hrow, hrs⟩ := List.forall_mem_cons.mp h
    rw [List.flatten_cons, subidsOf_row hrow, ih hrs, List.map_cons]

/-- The groups that the encoder writes for a subid hold it. -/
theorem lt_pow_subidLength (x : UInt32) : x.toNat < 128 ^ subidLength x := by
  have hb := subidLength_bounds x
  have hlt := x.toNat_lt
  by_cases hbig : subidLength x ≤ 4
  · exact (subidLength_le_iff x hb.1 hbig).mp le_rfl
  · -- five groups hold every 32-bit number
    rw [show subidLength x = 5 by omega]
    omega

/-- Fewer groups would not hold it. -/
theorem pow_le_of_lt_subidLength {x : UInt32} {k : Nat} (hk : 1 ≤ k) (h : k < subidLength x) :
    128 ^ k ≤ x.toNat := by
  have hb := (subidLength_bounds x).2
  rw [← Nat.not_lt, ← subidLength_le_iff x hk (by omega)]
  exact Nat.not_le.mpr h

/-- What the encoder writes for a subid is a canonical row. -/
theorem canonicalRow_groups (x : UInt32) :
    Row (groups x (subidLength x)) ∧ CanonicalRow (groups x (subidLength x)) := by
  have hpow := lt_pow_subidLength x
  have hnumber : groupNumber (groups x (subidLength x)) = x.toNat := by
    rw [Lib.Ber.groupNumber_groups x (subidLength_bounds x).2, Nat.mod_eq_of_lt hpow]
  obtain ⟨k, hk, hlen⟩ := groups_subidLength x
  rw [hlen] at hnumber hpow ⊢
  refine ⟨Lib.Ber.row_groups x hk, fun hhead => ?_, hnumber ▸ x.toNat_lt⟩
  obtain ⟨b, hgroups, hb⟩ := Lib.Ber.exists_head_groups x hk
  rw [hgroups, List.head?_cons, Option.some.injEq] at hhead
  rw [hhead, show (0x80 : UInt8).toNat = 128 from rfl] at hb
  split at hb
  · omega
  · -- the leading digit is not 0
    rename_i hpos
    have hlow := pow_le_of_lt_subidLength (Nat.pos_of_ne_zero hpos) (show k < subidLength x by omega)
    have hdigit : 1 ≤ x.toNat / 128 ^ k := (Nat.one_le_div_iff (Nat.pow_pos (by decide))).mpr hlow
    have hsmall : x.toNat / 128 ^ k < 128 := by
      rw [Nat.div_lt_iff_lt_mul (Nat.pow_pos (by decide)), Nat.mul_comm, ← Nat.pow_succ]
      exact hpow
    omega

/-- A canonical row is what the encoder writes for its number. -/
theorem CanonicalRow.eq_groups {row : List UInt8} (hrow : Row row) (h : CanonicalRow row) :
    groups (foldGroups 0 row) (subidLength (foldGroups 0 row)) = row := by
  have hx : (foldGroups 0 row).toNat = groupNumber row := by
    rw [Lib.Ber.toNat_foldGroups_eq, UInt32.toNat_zero, Nat.zero_mul, Nat.zero_add,
      Nat.mod_eq_of_lt h.word]
  have hlt := Lib.Ber.groupNumber_lt row
  have hword := h.word
  -- the leading digit is not 0, so that no shorter row holds the number
  have hlow : 1 < row.length → 128 ^ (row.length - 1) ≤ groupNumber row := by
    intro hlong
    cases hrow with
    | last _ => exact absurd hlong (Nat.lt_irrefl 1)
    | @more b row hhigh hrow =>
      have hb := b.toNat_lt
      have hne : b.toNat ≠ 128 := fun heq =>
        h.unpadded (congrArg some (UInt8.toNat_inj.mp heq))
      rw [Lib.Ber.groupNumber_cons]
      calc 128 ^ row.length = 1 * 128 ^ row.length := (Nat.one_mul _).symm
        _ ≤ b.toNat % 128 * 128 ^ row.length := Nat.mul_le_mul_right _ (by omega)
        _ ≤ _ := Nat.le_add_right _ _
  have hlen : subidLength (foldGroups 0 row) = row.length := by
    apply Nat.le_antisymm
    · exact subidLength_le hrow.length_pos (by rwa [hx])
    · by_contra hshort
      have hb := (subidLength_bounds (foldGroups 0 row)).1
      have hpow := lt_pow_subidLength (foldGroups 0 row)
      rw [hx] at hpow
      have hmono : 128 ^ subidLength (foldGroups 0 row) ≤ 128 ^ (row.length - 1) :=
        Nat.pow_le_pow_right (by decide) (by omega)
      have hge := hlow (by omega)
      omega
  rw [hlen]
  symm
  apply hrow.eq_groups
  · rw [← hlen]
    exact (subidLength_bounds _).2
  · rw [hx, Nat.mod_eq_of_lt hlt]

/-! ## Sequences of subids -/

/-- Subids are written as the rows that they were read from exactly if all these are
    canonical. -/
theorem encodeSubids_subidsOf_iff {bs : List UInt8} (hclosed : Closed bs) :
    encodeSubids (subidsOf 0 bs) = bs ↔ ∀ row ∈ rows bs, CanonicalRow row := by
  obtain ⟨hrows, hflatten⟩ := Lib.Ber.rows_spec hclosed
  constructor
  · intro heq
    -- the rows are those that the encoder has written
    have hwritten : rows bs = (subidsOf 0 bs).map fun x => groups x (subidLength x) := by
      rw [← heq, encodeSubids, List.flatMap_def, Lib.Ber.rows_flatten, ← List.flatMap_def]
      · change _ = (subidsOf 0 (encodeSubids (subidsOf 0 bs))).map _
        rw [heq]
      · intro row hrow
        obtain ⟨x, -, rfl⟩ := List.mem_map.mp hrow
        exact (canonicalRow_groups x).1
    intro row hrow
    rw [hwritten] at hrow
    obtain ⟨x, -, rfl⟩ := List.mem_map.mp hrow
    exact (canonicalRow_groups x).2
  · intro hcanonical
    have hsubids : subidsOf 0 bs = (rows bs).map (foldGroups 0) := by
      rw [← subidsOf_flatten hrows, hflatten]
    rw [hsubids, encodeSubids, List.flatMap_map, List.flatMap_def]
    have hmap : (rows bs).map (fun row => groups (foldGroups 0 row)
        (subidLength (foldGroups 0 row))) = rows bs := by
      conv_rhs => rw [← List.map_id (rows bs)]
      apply List.map_congr_left
      intro row hrow
      exact (hcanonical row hrow).eq_groups (hrows row hrow)
    rw [hmap, hflatten]

/-! ## Object identifiers -/

/-- The start octet is written as it was read. -/
theorem start_octet {b : UInt8} (h : b.toNat < 128) :
    ((b / 40).toUInt32 * 40 + (b % 40).toUInt32).toUInt8 = b := by
  rw [← UInt8.toNat_inj, UInt32.toNat_toUInt8, UInt32.toNat_add, UInt32.toNat_mul,
    UInt8.toNat_toUInt32, UInt8.toNat_toUInt32, UInt8.toNat_div, UInt8.toNat_mod]
  simp only [UInt8.reduceToNat, UInt32.reduceToNat]
  omega

/-- Accepted content is written again exactly if all its subids are canonical. -/
theorem oidContent_oidValue_iff {bs : List UInt8} (hne : bs ≠ []) (h : OidContent bs) :
    oidContent (oidValue bs).subidList = bs ↔ ∀ row ∈ rows bs.tail, CanonicalRow row := by
  obtain ⟨b, rest, rfl⟩ := List.exists_cons_of_ne_nil hne
  have hstart := start_octet h.start
  rw [← encodeSubids_subidsOf_iff h.closed]
  simp only [List.headD_cons] at hstart
  simp only [oidContent, oidValue, List.headD_cons, List.tail_cons, List.cons_append,
    List.nil_append, List.getD_cons_zero, List.getD_cons_succ, List.drop_succ_cons,
    List.drop_zero, hstart, List.cons.injEq, true_and]

/-- What is recorded for content inside a packet is the length of its element. -/
theorem oidEncodedLength_eq {bs : List UInt8} (hlen : bs.length ≤ maxPacketSize) :
    oidEncodedLength bs.length = (tlv berTypeOid bs).length := by
  unfold maxPacketSize at hlen
  rw [Lib.Ber.length_tlv, Lib.Ber.length_lengthOctets]
  unfold oidEncodedLength
  rw [toShort_eq (x := bs.length) (by omega) (by omega)]
  split_ifs <;> rw [toShort_eq (by omega) (by omega)] <;> omega

/-- The encoder writes the content again, in as many octets as are recorded. -/
structure Reproduces (oid : Oid) (content : List UInt8) : Prop where
  element : encodeSnmpOid oid = tlv berTypeOid content
  length : ((encodeSnmpOid oid).length : Int) = oid.encodedLength

/-- **Encoding again.** An OID decoded from inside a packet is encoded as the content that it was
    decoded from exactly if all subids there are canonical. -/
theorem reproduces_iff {mem : Mem} {size pos length : Nat} {r : Oid × Nat}
    (hsize : size ≤ maxPacketSize) (hlength : 1 ≤ length) (hinside : pos + length ≤ size)
    (h : (decodeSnmpElementValueOid size pos length).eval mem = .ok r) :
    Reproduces r.1 (mem.slice pos length) ↔
      ∀ row ∈ rows (mem.slice pos length).tail, CanonicalRow row := by
  have hshort : length < 65536 := by
    unfold maxPacketSize at hsize
    omega
  obtain ⟨-, hcontent, rfl⟩ := (eval_oid_eq_ok mem hlength hshort).mp h
  have hlen := Mem.length_slice mem pos length
  have hne : mem.slice pos length ≠ [] := List.ne_nil_of_length_pos (by omega)
  have hle := oidContentLength_oidValue_le hne
  have hwritten : encodeSnmpOid (oidValue (mem.slice pos length)) =
      tlv berTypeOid (oidContent (oidValue (mem.slice pos length)).subidList) :=
    encodeSnmpOid_eq_tlv (by omega)
  rw [← oidContent_oidValue_iff hne hcontent]
  constructor
  · intro hsame
    -- elements of one tag are equal only if their contents are
    have helement := hsame.element
    dsimp only at helement
    rw [hwritten] at helement
    exact Lib.Ber.tlv_inj helement
  · intro hsame
    refine ⟨by rw [hwritten, hsame], ?_⟩
    rw [hwritten, hsame, ← oidEncodedLength_eq (by omega)]
    rfl

/-- Canonical contents that are decoded to the same OID are equal. -/
theorem canonical_injective {bs bs' : List UInt8} (hne : bs ≠ []) (hne' : bs' ≠ [])
    (h : OidContent bs) (h' : OidContent bs') (hcanonical : ∀ row ∈ rows bs.tail, CanonicalRow row)
    (hcanonical' : ∀ row ∈ rows bs'.tail, CanonicalRow row) (heq : oidValue bs = oidValue bs') :
    bs = bs' := by
  have hcontent := (oidContent_oidValue_iff hne h).mpr hcanonical
  have hcontent' := (oidContent_oidValue_iff hne' h').mpr hcanonical'
  rw [← hcontent, heq, hcontent']

/-- The content of `.1.3.1` with a padded last subid. -/
def paddedOid : Mem := Mem.ofList [0x2B, 0x80, 0x01]

theorem eval_paddedOid : (decodeSnmpElementValueOid 3 0 3).eval paddedOid =
    .ok (⟨[1, 3, 1], 5⟩, 3) := Lib.ok_of_toOption (by decide +kernel)

/-- It is accepted, and written again in fewer octets than are recorded. -/
theorem paddedOid_not_reproduces :
    (decodeSnmpElementValueOid 3 0 3).eval paddedOid = .ok (⟨[1, 3, 1], 5⟩, 3) ∧
      ¬ Reproduces ⟨[1, 3, 1], 5⟩ (paddedOid.slice 0 3) :=
  ⟨eval_paddedOid, fun h => absurd h.length (by decide)⟩

theorem reproduces_iff_paddedOid :
    Reproduces ⟨[1, 3, 1], 5⟩ (paddedOid.slice 0 3) ↔
      ∀ row ∈ rows (paddedOid.slice 0 3).tail, CanonicalRow row :=
  reproduces_iff (by decide) (by decide) (by decide) eval_paddedOid

end SdkSnmpd
