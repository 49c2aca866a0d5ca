import SdkSnmpd.MibCalls

/-!
# Transporting Object Identifiers

The OIDs that enter the agent as text or are built for the MIB, through an encoder and back through
the decoder. `encode_snmp_element_oid` and `encode_snmp_oid` are two copies of one encoder, and
`mib_build_entry` predicts its length in a third one.

## Contents

- `Transported`: an element is written for the OID, and decoded to the same subids.
- `transported_iff`: exactly the OIDs whose first two subids share an octet below 128 are
  transported.
- `textualOid_transported_iff`: the same for the OIDs that `oid_aton` accepts.
- `builtOid_agrees`: the copies of the encoder agree on the OIDs of the MIB.
-/

namespace SdkSnmpd

open Lib (Mem finalState)
open Lib.Ber (tlv)

/-! ## The two copies of the encoder -/

/-- The OIDs of the agent are written as one element, the same by both copies. -/
theorem run_encodeSnmpElementOid {oid : Oid} (h : oid.subidList.length ≤ maxNrSubids)
    (data : Data) :
    (encodeSnmpElementOid (some oid)).run data = .ok () (data.store (encodeSnmpOid oid)) := by
  have hle := oidContentLength_le h
  unfold encodeSnmpElementOid encodeSnmpOid
  dsimp only
  rw [if_neg (by omega), if_neg (by omega)]
  rfl

theorem encodeSnmpOid_eq {oid : Oid} (h : oid.subidList.length ≤ maxNrSubids) :
    encodeSnmpOid oid = tlv berTypeOid (oidContent oid.subidList) := by
  have hle := oidContentLength_le h
  exact encodeSnmpOid_eq_tlv (by omega)

/-- It takes at most 73 bytes. -/
theorem length_encodeSnmpOid {oid : Oid} (h : oid.subidList.length ≤ maxNrSubids) :
    (encodeSnmpOid oid).length = oidContentLength oid.subidList + 2 := by
  have hle := oidContentLength_le h
  rw [encodeSnmpOid_eq h, Lib.Ber.length_tlv, Lib.Ber.length_lengthOctets, length_oidContent,
    if_neg (by omega), if_neg (by omega)]
  omega

/-! ## From the encoder to the decoder -/

/-- The data is decoded as one OID element with the subids. -/
def DecodesTo (data : Data) (subids : List UInt32) : Prop :=
  ∃ header r,
    (decodeSnmpElementTypeLength data.encodedLength.toNat 0).eval (Mem.ofList data.buffer) =
      .ok header ∧ header.type = berTypeOid ∧
    (decodeSnmpElementValueOid data.encodedLength.toNat header.pos header.length).eval
      (Mem.ofList data.buffer) = .ok r ∧ r.1.subidList = subids

/-- Whatever the data held before, `encode_snmp_element_oid` returns 0, and what it stores is
    decoded to the same subids. -/
def Transported (oid : Oid) : Prop :=
  ∀ data, ∃ data', (encodeSnmpElementOid (some oid)).run data = .ok () data' ∧
    DecodesTo data' oid.subidList

/-- The first two subids share an octet below 128. -/
def SharesStart (subids : List UInt32) : Prop :=
  (subids.getD 1 0).toNat < 40 ∧ (subids.getD 0 0).toNat * 40 + (subids.getD 1 0).toNat ≤ 127

instance (subids : List UInt32) : Decidable (SharesStart subids) :=
  inferInstanceAs (Decidable (_ ∧ _))

/-- What is stored stands at the start of the buffer. -/
theorem stands_store (data : Data) {bytes : List UInt8} (h : bytes.length < 32768) :
    Stands (Mem.ofList (data.store bytes).buffer) (data.store bytes).encodedLength.toNat 0
      bytes := by
  have hlength : (data.store bytes).encodedLength = bytes.length := by
    rw [data.store_encodedLength, toShort_eq (by omega) (by omega)]
  rw [hlength, Int.toNat_natCast]
  exact ⟨Mem.holdsAt_ofList bytes _, (Nat.zero_add _).le⟩

/-- An OID element is decoded to the subids of its content, if the decoder accepts these. -/
theorem decodesTo_iff (data : Data) {content : List UInt8} {subids : List UInt32}
    (hpos : 1 ≤ content.length) (hshort : content.length ≤ 71) :
    DecodesTo (data.store (tlv berTypeOid content)) subids ↔
      OidContent content ∧ (oidValue content).subidList = subids := by
  have hlen := Lib.Ber.length_tlv berTypeOid content
  rw [Lib.Ber.length_lengthOctets, if_neg (by omega), if_neg (by omega)] at hlen
  have hstands := stands_store data (show (tlv berTypeOid content).length < 32768 by omega)
  obtain ⟨q, hheader, hcontent, hend⟩ := eval_header (by decide) (by omega) hstands
  have hsize : (data.store (tlv berTypeOid content)).encodedLength.toNat < sizeTModulus := by
    rw [data.store_encodedLength, toShort_eq (by omega) (by omega), Int.toNat_natCast]
    unfold sizeTModulus
    omega
  have hguard := guardPasses_of_le hsize hpos hcontent.2
  constructor
  · -- there is one header at the start of the data
    rintro ⟨header, r, hheader', -, hoid, rfl⟩
    rw [hheader] at hheader'
    cases hheader'
    rw [eval_oid_eq_ok _ hpos (by omega), hcontent.slice] at hoid
    obtain ⟨-, haccepted, rfl⟩ := hoid
    exact ⟨haccepted, rfl⟩
  · rintro ⟨haccepted, rfl⟩
    refine ⟨_, (oidValue content, q + content.length), hheader, rfl, ?_, rfl⟩
    rw [eval_oid_eq_ok _ hpos (by omega), hcontent.slice]
    exact ⟨hguard, haccepted, rfl⟩

/-- The decoder finds the subids again exactly if the first two share an octet. -/
theorem oidContent_faithful_iff {subids : List UInt32} (htwo : 2 ≤ subids.length)
    (hroom : subids.length ≤ maxNrSubids) :
    OidContent (oidContent subids) ∧ (oidValue (oidContent subids)).subidList = subids ↔
      SharesStart subids := by
  constructor
  · rintro ⟨haccepted, hsame⟩
    have hstart := haccepted.start
    obtain ⟨x, y, rest, rfl⟩ : ∃ x y rest, subids = x :: y :: rest := by
      match subids, htwo with
      | x :: y :: rest, _ => exact ⟨x, y, rest, rfl⟩
    simp only [oidValue, oidContent, List.headD_cons, List.getD_cons_zero, List.getD_cons_succ,
      List.cons_append, List.cons.injEq] at hsame hstart
    obtain ⟨hx, hy, -⟩ := hsame
    -- the two subids are quotient and remainder of the start octet
    have hx' := congrArg UInt32.toNat hx
    have hy' := congrArg UInt32.toNat hy
    simp only [UInt8.toNat_toUInt32, UInt8.toNat_div, UInt8.toNat_mod, UInt8.reduceToNat]
      at hx' hy'
    simp only [SharesStart, List.getD_cons_zero, List.getD_cons_succ]
    omega
  · rintro ⟨hsecond, hfirst⟩
    have hwire : WireOid ⟨subids, (tlv berTypeOid (oidContent subids)).length⟩ :=
      ⟨htwo, hroom, hsecond, hfirst, rfl⟩
    have hvalue := congrArg Oid.subidList hwire.oidValue_oidContent
    exact ⟨hwire.content, hvalue⟩

/-- **Transport.** An OID with 2 to 16 subids is transported exactly if its first two subids share
    an octet below 128. -/
theorem transported_iff {oid : Oid} (htwo : 2 ≤ oid.subidList.length)
    (hroom : oid.subidList.length ≤ maxNrSubids) :
    Transported oid ↔ SharesStart oid.subidList := by
  have hlen := length_oidContent oid.subidList
  have hle := oidContentLength_le hroom
  have hpos : 1 ≤ (oidContent oid.subidList).length := Nat.succ_le_succ (Nat.zero_le _)
  rw [← oidContent_faithful_iff htwo hroom]
  have hdecodes : ∀ data : Data,
      DecodesTo (data.store (tlv berTypeOid (oidContent oid.subidList))) oid.subidList ↔ _ :=
    fun data => decodesTo_iff data hpos (by omega)
  constructor
  · intro h
    -- any data shows what the decoder makes of the content
    obtain ⟨data', hrun, hto⟩ := h unusedEntry.data
    rw [run_encodeSnmpElementOid hroom, encodeSnmpOid_eq hroom] at hrun
    cases hrun
    exact (hdecodes _).mp hto
  · intro h data
    refine ⟨_, run_encodeSnmpElementOid hroom data, ?_⟩
    rw [encodeSnmpOid_eq hroom]
    exact (hdecodes data).mpr h

/-- **OIDs from text.** What `oid_aton` accepts is transported exactly if the first two subids
    share an octet below 128. Its own test lets them make up any octet. -/
theorem textualOid_transported_iff {str : CString} {oid : Oid} (h : oidAton str = some oid) :
    Transported oid ↔ SharesStart oid.subidList := by
  obtain ⟨htwo, hroom, -⟩ := oidAton_spec h
  exact transported_iff htwo hroom

/-- `.2.100`, whose start octet is 180. -/
def jointOid : CString := .ofList [0x2E, 0x32, 0x2E, 0x31, 0x30, 0x30]

/-- It is accepted as text, and refused by the decoder. -/
theorem jointOid_not_transported :
    oidAton jointOid = some ⟨[2, 100], 0⟩ ∧ ¬ Transported ⟨[2, 100], 0⟩ := by
  refine ⟨by decide, ?_⟩
  rw [transported_iff (by decide) (by decide)]
  decide

/-- `.1.3.6` -/
def internetOid : CString := .ofList [0x2E, 0x31, 0x2E, 0x33, 0x2E, 0x36]

theorem textualOid_transported_iff_internet :
    Transported ⟨[1, 3, 6], 0⟩ ↔ SharesStart [1, 3, 6] :=
  textualOid_transported_iff (show oidAton internetOid = some ⟨[1, 3, 6], 0⟩ by decide)

/-! ## OIDs that are built -/

/-- The copies of the encoder agree on the OID: the length recorded for it is the number of bytes
    that are written, both copies write the same bytes, and wherever the content of these stands in
    a packet, it is decoded to the OID with its length. -/
structure CopiesAgree (oid : Oid) : Prop where
  predicted : oid.encodedLength = (encodeSnmpOid oid).length
  same : ∀ data, (encodeSnmpElementOid (some oid)).run data =
    .ok () (data.store (encodeSnmpOid oid))
  decoded : ∃ content, encodeSnmpOid oid = tlv berTypeOid content ∧
    ∀ (mem : Mem) (size pos : Nat), size < sizeTModulus → Stands mem size pos content →
      (decodeSnmpElementValueOid size pos content.length).eval mem =
        .ok (oid, pos + content.length)

/-- The copies agree on every OID that the wire represents. -/
theorem WireOid.copiesAgree {oid : Oid} (h : WireOid oid) : CopiesAgree oid where
  predicted := by
    rw [encodeSnmpOid_eq h.room]
    exact h.exact
  same := run_encodeSnmpElementOid h.room
  decoded := by
    have hlen := length_oidContent oid.subidList
    have hle := h.contentLength_le
    have hpos : 1 ≤ (oidContent oid.subidList).length := Nat.succ_le_succ (Nat.zero_le _)
    refine ⟨oidContent oid.subidList, encodeSnmpOid_eq h.room, fun mem size pos hsize hstands => ?_⟩
    rw [eval_oid_eq_ok mem hpos (by omega), hstands.slice, h.oidValue_oidContent]
    exact ⟨guardPasses_of_le hsize hpos hstands.2, h.content, rfl⟩

/-- The wire represents an OID that is built under a prefix whose first subids share an octet. -/
theorem wireOid_oid {var : MibVariable} (htwo : 2 ≤ var.oidPrefix.subidList.length)
    (hroom : var.oidPrefix.subidList.length ≤ 14) (hstart : SharesStart var.oidPrefix.subidList) :
    WireOid var.oid := by
  have hlen := length_subids var
  have hmax : var.oid.subidList.length ≤ maxNrSubids := by
    change var.subids.length ≤ 16
    omega
  have hstarts : ∀ i < 2, var.subids.getD i 0 = var.oidPrefix.subidList.getD i 0 := by
    intro i hi
    rw [MibVariable.subids, List.getD_eq_getElem?_getD, List.getElem?_append_left (by omega),
      List.getD_eq_getElem?_getD]
  obtain ⟨hsecond, hfirst⟩ := hstart
  refine ⟨?_, hmax, ?_, ?_, ?_⟩
  · change 2 ≤ var.subids.length
    omega
  · change (var.subids.getD 1 0).toNat < 40
    rwa [hstarts 1 (by decide)]
  · change (var.subids.getD 0 0).toNat * 40 + (var.subids.getD 1 0).toNat ≤ 127
    rwa [hstarts 0 (by decide), hstarts 1 (by decide)]
  · rw [← encodeSnmpOid_eq hmax, length_encodeSnmpOid hmax]
    rfl

/-- The OID of an entry is made before the value is looked at: it is there even if the entry
    cannot be filled in. -/
theorem finalState_createEntry_oid {var : MibVariable}
    (h : var.oidPrefix.subidList.length + 2 ≤ maxNrSubids) :
    (finalState ((createEntry var).run unusedEntry)).oid = var.oid := by
  rw [createEntry, run_bind_of_ok (run_onOid (run_buildOid h unusedEntry.oid)), finalState_onData]

/-- **The copies of the OID encoder agree** on the OID of every entry, for every column, row and
    value. -/
theorem builtOid_agrees (var : MibVariable) (htwo : 2 ≤ var.oidPrefix.subidList.length)
    (hroom : var.oidPrefix.subidList.length ≤ 14) (hstart : SharesStart var.oidPrefix.subidList)
    (values : List Value) (hfree : values.length < maxNrValues) :
    ∃ value, finalState ((mibBuildEntry var).run values) = values ++ [value] ∧
      value.oid.subidList =
        var.oidPrefix.subidList ++ [var.column.toUInt32, var.row.toUInt32] ∧
      CopiesAgree value.oid := by
  have hmax : var.oidPrefix.subidList.length + 2 ≤ maxNrSubids := by
    change _ ≤ 16
    omega
  have hoid := finalState_createEntry_oid hmax
  refine ⟨finalState ((createEntry var).run unusedEntry), ?_, ?_, ?_⟩
  · rw [finalState_mibBuildEntry, if_pos hfree]
  · rw [hoid]
    rfl
  · rw [hoid]
    exact (wireOid_oid htwo hroom hstart).copiesAgree

theorem builtOid_agrees_sdk :
    ∃ value, finalState ((mibBuildEntry (sdkInteger (-1) 300 0)).run []) = [] ++ [value] ∧
      value.oid.subidList = [1, 3, 6, 1, 4, 1, 126, 3] ++ [0xFFFFFFFF, 300] ∧
      CopiesAgree value.oid :=
  builtOid_agrees (sdkInteger (-1) 300 0) (by decide) (by decide) (by decide) [] (by decide)

end SdkSnmpd
