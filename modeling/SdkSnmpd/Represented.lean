import SdkSnmpd.MibCalls
import SdkSnmpd.RequestIntegers
import SdkSnmpd.UnsignedValues

/-!
# What the Entries Hold

After a call of `mib_build_entry` or `mib_update_entry` that returns 0, the addressed entry is
to hold the value in an element of its type. The buffer is allotted when the entry is made, and
an update relies on it to be large enough.

## Contents

- `Denotes`, `Represents`: the element and what it means, independently of the encoders.
- `updateData_ok`, `createData_ok`: what the encoders store.
- `Stores`: a call that returns 0, and the entry that it addresses.
- `stores_represents_iff`: when the entry holds the value.
-/

namespace SdkSnmpd

open Lib.Ber (tlv lengthOctets beInt beNat)

/-! ## Elements and their meaning -/

/-- The content octets of an element with the tag denote the value. -/
inductive Denotes : TypedValue → (tag : UInt8) → (content : List UInt8) → Prop where
  | integer {v content} (hne : content ≠ []) (h : beInt content = v.toInt) :
      Denotes (.integer v) berTypeInteger content
  | octetString {s} : Denotes (.octetString (some s)) berTypeOctetString s.bytes
  | oid {s oid content} (haton : oidAton s = some oid) (hcontent : OidContent content)
      (h : (oidValue content).subidList = oid.subidList) :
      Denotes (.oid (some s)) berTypeOid content
  | unsigned {type v content} (hne : content ≠ []) (h : beNat content = v.toNat) :
      Denotes (.unsigned type v) type.tag content

/-- The data is one element that denotes the value, within the allotted length. -/
structure Represents (data : Data) (value : TypedValue) : Prop where
  pos : 0 < data.encodedLength
  fits : data.encodedLength ≤ data.maxLength
  element : ∃ tag content, data.bytes = tlv tag content ∧
    data.encodedLength = (tlv tag content).length ∧ Denotes value tag content

/-- The element for a value. A missing string has none, nor has a string that is no OID. -/
def TypedValue.element : TypedValue → Option (List UInt8)
  | .integer v => some (integerBytes v)
  | .octetString none => none
  | .octetString (some s) => some (tlv berTypeOctetString s.bytes)
  | .oid none => none
  | .oid (some s) => (oidAton s).map fun oid => tlv berTypeOid (oidContent oid.subidList)
  | .unsigned type v => some (unsignedBytes type.tag v)
  | .other _ _ => none

/-- The first two subids of an OID share an octet below 128. -/
def SharedStart (value : TypedValue) : Prop :=
  ∀ s oid, value = .oid (some s) → oidAton s = some oid →
    (oid.subidList.getD 1 0).toNat < 40 ∧
      (oid.subidList.getD 0 0).toNat * 40 + (oid.subidList.getD 1 0).toNat ≤ 127

/-- The content of an OID from text means the OID. -/
theorem denotes_oid {s : CString} {oid : Oid} (haton : oidAton s = some oid)
    (hstart : SharedStart (.oid (some s))) :
    Denotes (.oid (some s)) berTypeOid (oidContent oid.subidList) := by
  obtain ⟨htwo, hroom, -⟩ := oidAton_spec haton
  obtain ⟨hsecond, hfirst⟩ := hstart s oid rfl haton
  have hwire : WireOid ⟨oid.subidList, (tlv berTypeOid (oidContent oid.subidList)).length⟩ :=
    ⟨htwo, hroom, hsecond, hfirst, rfl⟩
  have hvalue : (oidValue (oidContent oid.subidList)).subidList = oid.subidList := by
    have hdecoded := congrArg Oid.subidList hwire.oidValue_oidContent
    exact hdecoded
  exact .oid haton hwire.content hvalue

/-- The element for a value denotes it. -/
theorem exists_denotes {value : TypedValue} {element : List UInt8}
    (h : value.element = some element) (hstart : SharedStart value) :
    ∃ tag content, element = tlv tag content ∧ Denotes value tag content := by
  cases value with
  | integer v =>
    cases h
    have hlen : 1 ≤ (integerContent v).length := by
      rw [integerContent, Lib.Ber.length_octets]
      exact (integerOctets_bounds v).1
    exact ⟨_, _, rfl, .integer (List.length_pos_iff.mp hlen) (beInt_integerContent v)⟩
  | octetString value =>
    cases value with
    | none => cases h
    | some s =>
      cases h
      exact ⟨_, _, rfl, .octetString⟩
  | oid value =>
    cases value with
    | none => cases h
    | some s =>
      obtain ⟨oid, haton, rfl⟩ := Option.map_eq_some_iff.mp h
      exact ⟨_, _, rfl, denotes_oid haton hstart⟩
  | unsigned type v =>
    cases h
    have hlen : 1 ≤ (unsignedContent v).length := by
      rw [length_unsignedContent]
      exact (unsignedOctets_bounds v).1
    exact ⟨_, _, rfl, .unsigned (List.length_pos_iff.mp hlen) (beNat_unsignedContent v)⟩
  | other type unsupported => cases h

/-! ## What the encoders store -/

theorem run_modify_ok {f : Data → Data} {data data' : Data}
    (h : (modify f : MibM Data Unit).run data = .ok () data') : data' = f data := by
  rw [EStateM.run_modify] at h
  cases h
  rfl

/-- A string that the encoder accepts. Below 32768 bytes its element is the shortest one; the
    length of a longer one can have wrapped around. -/
theorem encodeString_ok {s : CString} {data data' : Data}
    (h : (encodeSnmpElementString s).run data = .ok () data') :
    ∃ bytes, data' = data.store bytes ∧
      ((tlv berTypeOctetString s.bytes).length < 32768 → bytes = tlv berTypeOctetString s.bytes) := by
  unfold encodeSnmpElementString at h
  dsimp only at h
  split at h
  · rw [EStateM.run_bind, EStateM.run_modify] at h
    cases h
  · have hstore := run_modify_ok h
    refine ⟨_, hstore, fun hshort => ?_⟩
    -- `strlen` is an `int` here, and the header is made for this `int`
    rw [Lib.Ber.length_tlv] at hshort
    have hlen : s.strlen < 32768 := by
      unfold CString.strlen
      omega
    rw [Int32.toInt_ofNat_of_lt (by omega), encodeLength_natCast]
    rfl

theorem encodeOid_ok {oidValue : Option Oid} {data data' : Data}
    (h : (encodeSnmpElementOid oidValue).run data = .ok () data') :
    ∃ oid, oidValue = some oid ∧
      data' = data.store (tlv berTypeOid (oidContent oid.subidList)) := by
  cases oidValue with
  | none => cases h
  | some oid =>
    refine ⟨oid, rfl, ?_⟩
    unfold encodeSnmpElementOid at h
    dsimp only at h
    split at h
    · rw [EStateM.run_bind, EStateM.run_modify] at h
      cases h
    · have hstore := run_modify_ok h
      rwa [encodeLength_natCast, ← length_oidContent] at hstore

/-- **What an update stores.** It returns 0 only for a value that has an element, and stores
    that element unless the element is too long for a `short` to tell its length. -/
theorem updateData_ok {value : TypedValue} {data data' : Data}
    (h : (updateData value).run data = .ok () data') :
    ∃ element bytes, value.element = some element ∧ data' = data.store bytes ∧
      (element.length < 32768 → bytes = element) := by
  cases value with
  | integer v =>
    rw [updateData, encodeSnmpElementInteger_eq] at h
    have hstore := run_modify_ok h
    exact ⟨_, _, rfl, hstore, fun _ => rfl⟩
  | octetString value =>
    cases value with
    | none => cases h
    | some s =>
      obtain ⟨bytes, hstore, hshort⟩ := encodeString_ok h
      exact ⟨_, bytes, rfl, hstore, hshort⟩
  | oid value =>
    cases value with
    | none => cases h
    | some s =>
      obtain ⟨oid, haton, hstore⟩ := encodeOid_ok h
      exact ⟨_, _, congrArg (Option.map _) haton, hstore, fun _ => rfl⟩
  | unsigned type v =>
    rw [run_updateUnsigned] at h
    cases h
    exact ⟨_, _, rfl, rfl, fun _ => rfl⟩
  | other type unsupported => cases h

/-- What is allotted for a new entry, before it is stored in a `short`. -/
def TypedValue.allotted : TypedValue → Int
  | .integer _ => 6
  | .octetString none => 0
  | .octetString (some s) => s.strlen + 4
  | .oid none => 0
  | .oid (some _) => maxNrSubids * 5 + 4
  | .unsigned _ _ => 6
  | .other _ _ => 0

theorem allot_bind_ok {length : Int} {f : Unit → MibM Data Unit} {data data' : Data}
    (h : (allot length >>= f).run data = .ok () data') :
    ∃ new : Data, new.maxLength = toShort length ∧ (f ()).run new = .ok () data' := by
  obtain ⟨u, new, hallot, hrest⟩ := exists_of_run_bind h
  unfold allot at hallot
  split at hallot
  · cases hallot
  · cases hallot
    exact ⟨_, rfl, hrest⟩

/-- A failure that is caught and reported with another message is still a failure. -/
theorem tryCatch_fail_ok {m : MibM Data Unit} {message : String} {data data' : Data}
    (h : (tryCatch m fun _ => fail message).run data = .ok () data') :
    m.run data = .ok () data' := by
  change EStateM.tryCatch m _ data = _ at h
  unfold EStateM.tryCatch at h
  change m data = _
  cases hrun : m data with
  | error e data'' =>
    rw [hrun] at h
    cases h
  | ok u data'' =>
    rw [hrun] at h
    exact h

/-- A new entry is filled in like an update of a buffer of the allotted length. -/
theorem createData_ok {value : TypedValue} {data data' : Data}
    (h : (createData value).run data = .ok () data') :
    ∃ new : Data, new.maxLength = toShort value.allotted ∧
      (updateData value).run new = .ok () data' := by
  cases value with
  | integer v => exact allot_bind_ok h
  | octetString value =>
    cases value with
    | none => cases h
    | some s => exact allot_bind_ok h
  | oid value =>
    cases value with
    | none => cases h
    | some s =>
      obtain ⟨new, hmax, hencode⟩ := allot_bind_ok h
      exact ⟨new, hmax, tryCatch_fail_ok hencode⟩
  | unsigned type v => exact allot_bind_ok h
  | other type unsupported => cases h

/-- The element for a value fits into what is allotted for it. -/
theorem length_element_le {value : TypedValue} {element : List UInt8}
    (h : value.element = some element) : (element.length : Int) ≤ value.allotted := by
  cases value with
  | integer v =>
    cases h
    have hlen := length_integerBytes v
    have hb := integerOctets_bounds v
    rw [TypedValue.allotted]
    omega
  | octetString value =>
    cases value with
    | none => cases h
    | some s =>
      cases h
      -- the header of a string takes two to four octets
      rw [TypedValue.allotted, Lib.Ber.length_tlv, Lib.Ber.length_lengthOctets]
      unfold CString.strlen
      split_ifs <;> omega
  | oid value =>
    cases value with
    | none => cases h
    | some s =>
      obtain ⟨oid, haton, rfl⟩ := Option.map_eq_some_iff.mp h
      have hlen := oidContentLength_le (oidAton_spec haton).2.1
      rw [TypedValue.allotted, Lib.Ber.length_tlv, Lib.Ber.length_lengthOctets, length_oidContent]
      unfold maxNrSubids
      split_ifs <;> omega
  | unsigned type v =>
    cases h
    have hlen := length_unsignedBytes type.tag v
    have hb := unsignedOctets_bounds v
    rw [TypedValue.allotted]
    omega
  | other type unsupported => cases h

/-- Strings apart, elements are short. -/
theorem length_element_lt {value : TypedValue} {element : List UInt8}
    (h : value.element = some element) (hstring : ∀ s, value ≠ .octetString (some s)) :
    element.length < 32768 := by
  have hle := length_element_le h
  unfold TypedValue.allotted maxNrSubids at hle
  -- every other allotment is a constant
  split at hle
  · omega
  · omega
  · exact absurd rfl (hstring _)
  · omega
  · omega
  · omega
  · omega

/-- **A stored value.** The data holds the value exactly when its element is no longer than the
    buffer. -/
theorem represents_store_iff {value : TypedValue} {element bytes : List UInt8} {data : Data}
    (helement : value.element = some element) (hstart : SharedStart value)
    (hbytes : element.length < 32768 → bytes = element) (hmax : data.maxLength < 32768) :
    Represents (data.store bytes) value ↔ (element.length : Int) ≤ data.maxLength := by
  by_cases hshort : element.length < 32768
  · -- the `short` tells the length
    obtain rfl := hbytes hshort
    have hlength : (data.store bytes).encodedLength = bytes.length := by
      rw [data.store_encodedLength, toShort_eq (by omega) (by omega)]
    constructor
    · intro h
      rw [← hlength]
      exact h.fits
    · intro hle
      obtain ⟨tag, content, rfl, hdenotes⟩ := exists_denotes helement hstart
      have hpos := Lib.Ber.length_tlv tag content
      refine ⟨by omega, ?_, tag, content, data.store_bytes hshort, hlength, hdenotes⟩
      rw [hlength]
      exact hle
  · -- a string that does not fit in any buffer
    refine iff_of_false (fun h => ?_) (by omega)
    obtain ⟨tag, content, -, hlength, hdenotes⟩ := h.element
    have hfits := h.fits
    rw [data.store_maxLength] at hfits
    -- the recorded length would be that of the element, which exceeds every `short`
    cases hdenotes with
    | octetString =>
      cases helement
      omega
    | integer => exact hshort (length_element_lt helement (by simp))
    | oid => exact hshort (length_element_lt helement (by simp))
    | unsigned => exact hshort (length_element_lt helement (by simp))

/-! ## Calls that return 0 -/

def MibCall.var : MibCall → MibVariable
  | .build var => var
  | .update var _ => var

/-- The call returns 0, addresses entry `i`, and leaves the table `values'`. -/
inductive Stores (values : List Value) : MibCall → (i : Nat) → (values' : List Value) → Prop where
  | build {var values'} (h : (mibBuildEntry var).run values = .ok () values') :
      Stores values (.build var) values.length values'
  | update {var pos i values'} (h : (mibUpdateEntry var pos).run values = .ok i values') :
      Stores values (.update var pos) i values'

/-- What the search finds has the OID. -/
theorem findFrom_spec {subids : List UInt32} {pos : Nat} {values : List Value} {value : Value}
    (h : values[findFrom subids pos values]? = some value) : value.oid.subidList = subids := by
  rw [findFrom, ← List.getElem?_drop] at h
  obtain ⟨hlt, rfl⟩ := List.getElem?_eq_some_iff.mp h
  simpa using List.findIdx_getElem (w := hlt)

/-- An update that returns 0 has found the entry and changed its data. -/
theorem mibUpdateEntry_ok {var : MibVariable} {pos i : Nat} {values values' : List Value}
    (h : (mibUpdateEntry var pos).run values = .ok i values') :
    ∃ old data, values[i]? = some old ∧ old.oid.subidList = var.subids ∧
      (updateData var.value).run old.data = .ok () data ∧
      values' = values.set i { old with data } := by
  change mibUpdateEntry var pos values = _ at h
  unfold mibUpdateEntry at h
  split at h
  · cases h
  · rename_i oid oid' hoid
    have hroom := createOid_ok hoid
    rw [run_createOid _ hroom] at hoid
    cases hoid
    dsimp only at h
    split at h
    · cases h
    · rename_i old hold
      cases hdata : (onData (updateData var.value)).run old with
      | error e value =>
        rw [hdata] at h
        cases h
      | ok u value =>
        rw [hdata] at h
        cases h
        obtain ⟨data, hrun, rfl⟩ := onData_ok hdata
        exact ⟨old, data, hold, findFrom_spec hold, hrun, rfl⟩

/-- The length of a buffer is a `short`. -/
theorem stable_maxLength : Stable fun data => data.maxLength < 32768 where
  store := fun _ _ _ _ h => h
  storeType := fun _ _ _ h => h
  allot := fun length => by
    have hlt := Int.bmod_lt (x := length) (m := 2 ^ 16) (by decide)
    exact hlt

/-- The data that the encoder of a call works on: a new buffer, or that of the entry. -/
def Finds (values : List Value) (i : Nat) : MibCall → (data : Data) → Prop
  | .build var, data => data.maxLength = toShort var.value.allotted
  | .update _ _, data => ∃ value, values[i]? = some value ∧ value.data = data

/-- The entry that a call addresses has the OID of the variable. Its data is what the encoder of
    the type has made of the data that it found. -/
theorem Stores.entry {values values' : List Value} {call : MibCall} {i : Nat}
    (h : Stores values call i values') :
    ∃ entry old, values'[i]? = some entry ∧ entry.oid.subidList = call.var.subids ∧
      (updateData call.var.value).run old = .ok () entry.data ∧ Finds values i call old := by
  cases h with
  | @build var _ h =>
    obtain ⟨-, value, hcreate, rfl⟩ := mibBuildEntry_spec h
    obtain ⟨-, hoid, hdata⟩ := createEntry_ok hcreate
    obtain ⟨new, hmax, hrun⟩ := createData_ok hdata
    exact ⟨value, new, by simp, congrArg Oid.subidList hoid, hrun, hmax⟩
  | @update var pos _ _ h =>
    obtain ⟨old, data, hold, hoid, hrun, rfl⟩ := mibUpdateEntry_ok h
    obtain ⟨hlt, -⟩ := List.getElem?_eq_some_iff.mp hold
    refine ⟨{ old with data }, old.data, ?_, hoid, hrun, old, hold, rfl⟩
    rw [List.getElem?_set_self hlt]

/-! ## What the entries hold -/

/-- A new string is so short that a `short` holds the length that is allotted for it. -/
def AllotsAll : MibCall → Prop
  | .build var => var.value.allotted < 32768
  | .update _ _ => True

/-- The buffer was allotted to hold the value when the entry was made. -/
def HasRoom (values : List Value) (i : Nat) : MibCall → Prop
  | .build _ => True
  | .update var _ => ∀ old ∈ values[i]?, ∀ element ∈ var.value.element,
      (element.length : Int) ≤ old.data.maxLength

/-- **What the entries hold.** After any calls, a call that returns 0 leaves the value in the
    addressed entry: one element of the type, which is no longer than the buffer and denotes the
    value. For an update this is so exactly when the buffer of the entry has room. -/
theorem stores_represents_iff (calls : List MibCall) (call : MibCall) (i : Nat)
    (values : List Value) (h : Stores (tableAfter calls) call i values)
    (hstart : SharedStart call.var.value) (hallots : AllotsAll call) :
    ∃ entry, values[i]? = some entry ∧ entry.oid.subidList = call.var.subids ∧
      (Represents entry.data call.var.value ↔ HasRoom (tableAfter calls) i call) := by
  obtain ⟨entry, old, hentry, hoid, hrun, hold⟩ := h.entry
  refine ⟨entry, hentry, hoid, ?_⟩
  obtain ⟨element, bytes, helement, hstore, hbytes⟩ := updateData_ok hrun
  rw [hstore]
  cases call with
  | build var =>
    -- a new buffer has the length that was allotted
    have hle : (element.length : Int) ≤ var.value.allotted := length_element_le helement
    have hlt : var.value.allotted < 32768 := hallots
    have hmax : old.maxLength = var.value.allotted := hold.trans (toShort_eq (by omega) hlt)
    have hiff := represents_store_iff helement hstart hbytes (hmax ▸ hlt)
    rw [hiff, hmax]
    exact iff_of_true hle trivial
  | update var pos =>
    obtain ⟨value, hvalue, rfl⟩ := hold
    have hlt := stable_maxLength.tableAfter (by decide) calls value (List.mem_of_getElem? hvalue)
    have helement' : var.value.element = some element := helement
    have hiff := represents_store_iff helement hstart hbytes hlt
    rw [hiff, HasRoom, hvalue, helement']
    simp

/-- The variables of a table of one string, as it is built and as it is updated. -/
def nameVariable : MibVariable := ⟨mDemoOid, 3, 0, .octetString (some ⟨[0x61], by decide⟩)⟩

def longNameVariable : MibVariable :=
  ⟨mDemoOid, 3, 0, .octetString (some ⟨[0x61, 0x62, 0x63, 0x64, 0x65, 0x66], by decide⟩)⟩

/-- The table after the update. -/
def longNameTable : List Value :=
  [⟨longNameVariable.oid,
    ⟨[0x04, 0x06, 0x61, 0x62, 0x63, 0x64, 0x65, 0x66], 5, 8⟩⟩]

theorem stores_longName :
    Stores (tableAfter [.build nameVariable]) (.update longNameVariable 0) 0 longNameTable :=
  .update (Lib.eq_ok_of_okState (by decide +kernel))

/-- A longer string is stored past the end of the buffer, and 0 is returned. -/
theorem longName_not_represented :
    Stores (tableAfter [.build nameVariable]) (.update longNameVariable 0) 0 longNameTable ∧
      ∀ entry ∈ longNameTable[0]?, ¬ Represents entry.data longNameVariable.value := by
  refine ⟨stores_longName, fun entry hentry h => ?_⟩
  cases hentry
  have hfits : (8 : Int) ≤ 5 := h.fits
  revert hfits
  decide

theorem stores_represents_iff_name :
    ∃ entry, (tableAfter [.build nameVariable])[0]? = some entry ∧
      entry.oid.subidList = nameVariable.subids ∧
      (Represents entry.data nameVariable.value ↔
        HasRoom (tableAfter []) 0 (.build nameVariable)) :=
  stores_represents_iff [] (.build nameVariable) 0 (tableAfter [.build nameVariable])
    (.build (Lib.eq_ok_of_okState (by decide +kernel))) (by intro _ _ h; cases h)
    (show nameVariable.value.allotted < 32768 by decide)

end SdkSnmpd
