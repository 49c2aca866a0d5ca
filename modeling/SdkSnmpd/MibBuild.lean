import SdkSnmpd.OidText
import SdkSnmpd.RoundTrip
import SdkSnmpd.VersionOne

/-!
# Building the MIB

The value encoders of `mib.c`, `mib_build_entry` and `mib_build`.

## Contents

- `TypedValue`: the type of a MIB variable together with its value.
- `encodeSnmpElementInteger` and its siblings: they fill the data buffer of an entry.
- `mibBuildEntry`, `mibBuild`: the table is made, entry by entry.
- `mibBuildEntries_integer`: building INTEGER entries succeeds while there is room.
-/

namespace SdkSnmpd

open Lib.Ber (octets tlv lengthOctets)

/-! ## Values with their types -/

/-- The types that are stored as 32-bit unsigned numbers. -/
inductive UnsignedType where
  | counter
  | gauge
  | timeTicks
  deriving DecidableEq

def UnsignedType.tag : UnsignedType → UInt8
  | counter => berTypeCounter
  | gauge => berTypeGauge
  | timeTicks => berTypeTimeTicks

/-- The types that the `switch` of `mib_build_entry` and `mib_update_entry` knows. -/
def mibTypes : List Int32 := [0x02, 0x04, 0x06, 0x41, 0x42, 0x43]

/-- The parameters `type` and `default_value` (or `new_value`): a pointer stands for a number
    or for a string that may be missing, as the type says. -/
inductive TypedValue where
  | integer (value : Int32)
  | octetString (value : Option CString)
  | oid (value : Option CString)
  | unsigned (type : UnsignedType) (value : UInt32)
  | other (type : Int32) (unsupported : type ∉ mibTypes)

/-- A MIB variable as the calls name it, with a value for it. -/
structure MibVariable where
  oidPrefix : Oid
  column : Int32
  row : Int32
  value : TypedValue

/-- How a call ends when it does not return 0: it returns -1 and has logged a message, if any,
    or it writes to a buffer that could not be allocated. -/
inductive MibError where
  | failed (message : Option String)
  | fault
  deriving DecidableEq

abbrev MibM (σ α : Type) := EStateM MibError σ α

def fail {σ α : Type} (message : String) : MibM σ α := throw (.failed (some message))

theorem run_bind_of_ok {σ α β : Type} {m : MibM σ α} {s s' : σ} {a : α} (h : m.run s = .ok a s')
    (f : α → MibM σ β) : (m >>= f).run s = (f a).run s' := by
  rw [EStateM.run_bind, h]

/-- A sequence returns 0 only if both parts do. -/
theorem exists_of_run_bind {σ α β : Type} {m : MibM σ α} {f : α → MibM σ β} {s s'' : σ} {b : β}
    (h : (m >>= f).run s = .ok b s'') : ∃ a s', m.run s = .ok a s' ∧ (f a).run s' = .ok b s'' := by
  rw [EStateM.run_bind] at h
  cases hrun : m.run s with
  | error e s' =>
    rw [hrun] at h
    cases h
  | ok a s' =>
    rw [hrun] at h
    exact ⟨a, s', rfl, h⟩

/-! ## Encoding values -/

/-- Store the bytes of an element and record its length. Nothing keeps a writer inside the
    allotted bytes: `buffer` is the memory from the first byte on. -/
def Data.store (data : Data) (bytes : List UInt8) : Data :=
  { data with
    buffer := bytes ++ data.buffer.drop bytes.length
    encodedLength := toShort bytes.length }

/-- Store a type, and nothing else. -/
def Data.storeType (data : Data) (type : UInt8) : Data :=
  { data with buffer := type :: data.buffer.drop 1 }

def encodeSnmpElementInteger (integerValue : Int32) : MibM Data Unit :=
  let length :=
    if integerValue < -8388608 ∨ integerValue > 8388607 then 4
    else if integerValue < -32768 ∨ integerValue > 32767 then 3
    else if integerValue < -128 ∨ integerValue > 127 then 2
    else 1
  modify fun data =>
    data.store ([berTypeInteger, UInt8.ofNat length] ++ octets integerValue.toUInt32 length)

def encodeSnmpElementString (stringValue : CString) : MibM Data Unit := do
  let length := (Int32.ofNat stringValue.strlen).toInt
  if length > 65535 then
    modify fun data => data.storeType berTypeOctetString
    fail "could not encode '%s': string overflow"
  else
    modify fun data =>
      data.store ([berTypeOctetString] ++ encodeLength length ++ stringValue.bytes)

/-- Nothing is logged for a missing OID. -/
def encodeSnmpElementOid : Option Oid → MibM Data Unit
  | none => throw (.failed none)
  | some oidValue => do
      let length := oidContentLength oidValue.subidList
      if length > 0xFFFF then
        modify fun data => data.storeType berTypeOid
        fail "could not encode '%s': oid overflow"
      else
        modify fun data =>
          data.store ([berTypeOid] ++ encodeLength length ++ oidContent oidValue.subidList)

def encodeSnmpElementUnsigned (type : UInt8) (ticksValue : UInt32) : MibM Data Unit :=
  let length :=
    if ticksValue &&& 0xFF000000 ≠ 0 then 4
    else if ticksValue &&& 0x00FF0000 ≠ 0 then 3
    else if ticksValue &&& 0x0000FF00 ≠ 0 then 2
    else 1
  modify fun data => data.store ([type, UInt8.ofNat length] ++ octets ticksValue length)

/-! ## `mib_build_entry` -/

/-- Append a subid, if there is room for it. -/
def appendSubid (message : String) (subid : UInt32) : MibM Oid Unit := do
  let oid ← get
  if oid.subidList.length < maxNrSubids then
    set { oid with subidList := oid.subidList ++ [subid] }
  else fail message

/-- Create the OID from the prefix, the column and the row. -/
def createOid (message : String) (var : MibVariable) : MibM Oid Unit := do
  set var.oidPrefix
  appendSubid message var.column.toUInt32
  appendSubid message var.row.toUInt32

/-- Calculate the encoded length of the created OID: first the length of the content, then
    the header. -/
def setEncodedLength : MibM Oid Unit := do
  let oid ← get
  let length := oidContentLength oid.subidList
  if length > 0xFFFF then fail "could not encode '%s': oid overflow"
  else if length > 0xFF then set { oid with encodedLength := toShort (length + 4) }
  else if length > 0x7F then set { oid with encodedLength := toShort (length + 3) }
  else set { oid with encodedLength := toShort (length + 2) }

/-- Allocate and clear a data buffer. The length is a `short`; if it is negative, `malloc`
    is asked for more memory than there is, and `memset` writes all the same. -/
def allot (length : Int) : MibM Data Unit :=
  if toShort length < 0 then throw .fault
  else set (⟨List.replicate (toShort length).toNat 0, toShort length, 0⟩ : Data)

def invalidDefaultValue : String :=
  "could not create MIB entry '%s.%d.%d': invalid default value"

/-- Create a data buffer for the value depending on the type. A missing string is noticed
    before there is a buffer. -/
def createData : TypedValue → MibM Data Unit
  | .integer value => do
      -- a header of two bytes, and an `int`
      allot 6
      encodeSnmpElementInteger value
  | .octetString none => fail invalidDefaultValue
  | .octetString (some value) => do
      allot (value.strlen + 4)
      encodeSnmpElementString value
  | .oid none => fail invalidDefaultValue
  | .oid (some value) => do
      -- five groups for each subid, and the longest header
      allot (maxNrSubids * 5 + 4)
      tryCatch (encodeSnmpElementOid (oidAton value)) fun _ =>
        fail "could not create MIB entry '%s.%d.%d': invalid oid '%s'"
  | .unsigned type value => do
      allot 6
      encodeSnmpElementUnsigned type.tag value
  | .other _ _ => fail "could not create MIB entry '%s.%d.%d': unsupported type %d"

/-- Work on the OID of an entry. -/
def onOid (m : MibM Oid Unit) : MibM Value Unit := fun value =>
  match m.run value.oid with
  | .ok () oid => .ok () { value with oid }
  | .error e oid => .error e { value with oid }

/-- Work on the data of an entry. -/
def onData (m : MibM Data Unit) : MibM Value Unit := fun value =>
  match m.run value.data with
  | .ok () data => .ok () { value with data }
  | .error e data => .error e { value with data }

theorem run_onOid {m : MibM Oid Unit} {value : Value} {oid : Oid}
    (h : m.run value.oid = .ok () oid) : (onOid m).run value = .ok () { value with oid } := by
  change (match m.run value.oid with | .ok () oid => _ | .error e oid => _) = _
  rw [h]

theorem run_onData {m : MibM Data Unit} {value : Value} {data : Data}
    (h : m.run value.data = .ok () data) : (onData m).run value = .ok () { value with data } := by
  change (match m.run value.data with | .ok () data => _ | .error e data => _) = _
  rw [h]

/-- Fill in a new entry. -/
def createEntry (var : MibVariable) : MibM Value Unit := do
  onOid do
    createOid "could not create MIB entry '%s.%d.%d': oid overflow" var
    setEncodedLength
  onData (createData var.value)

/-- An entry of the static array `g_mib` before it is used. -/
def unusedEntry : Value := ⟨⟨[], 0⟩, ⟨[], 0, 0⟩⟩

/-- The state is `g_mib` up to `g_mib_length`. An entry that could not be filled in stays in
    the table. -/
def mibBuildEntry (var : MibVariable) : MibM (List Value) Unit := fun values =>
  -- the entry is counted before it is filled in
  if values.length < maxNrValues then
    match (createEntry var).run unusedEntry with
    | .ok () value => .ok () (values ++ [value])
    | .error e value => .error e (values ++ [value])
  else .error (.failed (some "could not create MIB entry '%s.%d.%d': table overflow")) values

/-! ## `mib_build` -/

def mSdkOid : Oid := ⟨[1, 3, 6, 1, 4, 1, 126, 3], 10⟩
def mDemoOid : Oid := ⟨[1, 3, 6, 1, 4, 1, 125], 10⟩

/-- The variables under `m_demo_oid` and `m_sdk_oid` are all INTEGERs. -/
def demoInteger (column row value : Int32) : MibVariable := ⟨mDemoOid, column, row, .integer value⟩
def sdkInteger (column row value : Int32) : MibVariable := ⟨mSdkOid, column, row, .integer value⟩

/-- The calls for a build with `__DEMO__`. -/
def demoDefaults : List MibVariable := [demoInteger 1 0 0, demoInteger 2 0 0]

def sdkDefaults : List MibVariable :=
  [sdkInteger 1 0 0,
    sdkInteger 1 1 0,
    sdkInteger 1 2 0,
    sdkInteger 1 3 0,
    sdkInteger 1 4 0,
    sdkInteger 1 5 0,
    sdkInteger 1 6 0,
    sdkInteger 1 7 0,
    sdkInteger 1 8 0,
    sdkInteger 1 9 0,
    sdkInteger 1 10 0,
    sdkInteger 1 11 0,
    sdkInteger 1 12 0,
    sdkInteger 1 13 0,
    sdkInteger 1 14 0,
    sdkInteger 1 15 0,
    sdkInteger 1 16 0,
    sdkInteger 1 17 0,
    sdkInteger 1 18 0,
    sdkInteger 1 19 0,
    sdkInteger 2 0 0,
    sdkInteger 3 0 0,
    sdkInteger 4 0 0,
    sdkInteger 5 0 0,
    sdkInteger 6 0 0,
    sdkInteger 6 1 0,
    sdkInteger 6 2 0,
    sdkInteger 6 3 0]

/-- The calls of `mib_build`; the first that fails ends it. -/
def defaults (demo : Bool) : List MibVariable :=
  if demo then demoDefaults ++ sdkDefaults else sdkDefaults

def mibBuild (demo : Bool) : MibM (List Value) Unit := forM (defaults demo) mibBuildEntry

/-! ## INTEGER elements -/

/-- The data buffer of an INTEGER entry: it has room for every `int`, and one complete element
    at its start. -/
structure HoldsInteger (data : Data) (v : Int32) : Prop where
  allotted : data.maxLength = 6
  buffer : data.buffer.length = 6
  encodedLength : data.encodedLength = (integerBytes v).length
  bytes : data.bytes = integerBytes v

theorem integerBytes_eq (v : Int32) : integerBytes v = encodeSnmpInteger v :=
  (encodeSnmpInteger_eq v).symm

theorem length_integerBytes (v : Int32) : (integerBytes v).length = 2 + integerOctets v := by
  simp only [integerBytes_eq, encodeSnmpInteger, List.cons_append, List.nil_append,
    List.length_cons, Lib.Ber.length_octets]
  omega

/-- The two encoders of an `int` write the same bytes. -/
theorem encodeSnmpElementInteger_eq (v : Int32) :
    encodeSnmpElementInteger v = modify fun data => data.store (integerBytes v) := by
  simp only [integerBytes_eq]
  rfl

@[simp] theorem Data.store_maxLength (data : Data) (bytes : List UInt8) :
    (data.store bytes).maxLength = data.maxLength := rfl

@[simp] theorem Data.store_encodedLength (data : Data) (bytes : List UInt8) :
    (data.store bytes).encodedLength = toShort bytes.length := by
  simp only [Data.store]

theorem Data.store_bytes (data : Data) {bytes : List UInt8} (h : bytes.length < 32768) :
    (data.store bytes).bytes = bytes := by
  have hlen : toShort bytes.length = bytes.length := toShort_eq (by omega) (by omega)
  rw [Data.bytes, Data.store, hlen, Int.toNat_natCast, List.take_left]

theorem Data.length_store (data : Data) {bytes : List UInt8}
    (h : bytes.length ≤ data.buffer.length) :
    (data.store bytes).buffer.length = data.buffer.length := by
  rw [Data.store, List.length_append, List.length_drop]
  omega

/-- A buffer of six bytes takes every `int`. -/
theorem holdsInteger_store {data : Data} (hmax : data.maxLength = 6)
    (hbuffer : data.buffer.length = 6) (v : Int32) :
    HoldsInteger (data.store (integerBytes v)) v := by
  have hlen := length_integerBytes v
  have hb := integerOctets_bounds v
  have hshort : toShort (integerBytes v).length = (integerBytes v).length :=
    toShort_eq (by omega) (by omega)
  exact {
    allotted := (data.store_maxLength _).trans hmax
    buffer := (data.length_store (by omega)).trans hbuffer
    encodedLength := (data.store_encodedLength _).trans hshort
    bytes := data.store_bytes (by omega) }

namespace HoldsInteger

variable {data : Data} {v : Int32}

theorem pos (h : HoldsInteger data v) : 0 < data.encodedLength := by
  have hlen := length_integerBytes v
  rw [h.encodedLength]
  omega

theorem le_maxLength (h : HoldsInteger data v) : data.encodedLength ≤ data.maxLength := by
  have hlen := length_integerBytes v
  have hb := integerOctets_bounds v
  rw [h.encodedLength, h.allotted]
  omega

/-- Whoever finds the element in a packet reads the number from it. -/
theorem decodes (h : HoldsInteger data v) {mem : Lib.Mem} {size pos : Nat}
    (hsize : size ≤ maxPacketSize) (hstands : Stands mem size pos data.bytes) :
    (readInteger size pos).eval mem = .ok (v, pos + data.bytes.length) := by
  rw [h.bytes] at hstands ⊢
  exact eval_readInteger hsize hstands

/-- An INTEGER is no exception. -/
theorem not_isException (h : HoldsInteger data v) : ¬ IsException data := by
  -- the first byte is the tag
  have hhead : data.buffer.head? = some berTypeInteger := by
    have hbytes := h.bytes
    have hlen := h.encodedLength
    rw [Data.bytes, hlen, Int.toNat_natCast, integerBytes, tlv, List.cons_append] at hbytes
    cases hbuffer : data.buffer with
    | nil => simp [hbuffer] at hbytes
    | cons b rest =>
      rw [hbuffer, List.length_cons, List.take_succ_cons, List.cons.injEq] at hbytes
      rw [List.head?_cons, hbytes.1]
  unfold IsException
  rw [hhead]
  decide

end HoldsInteger

/-! ## Building entries -/

/-- The subids of a variable: those of the prefix, the column and the row. -/
def MibVariable.subids (var : MibVariable) : List UInt32 :=
  var.oidPrefix.subidList ++ [var.column.toUInt32, var.row.toUInt32]

/-- The variable is an INTEGER, and its prefix leaves room for the column and the row. -/
structure MibVariable.IsInteger (var : MibVariable) (v : Int32) : Prop where
  value : var.value = .integer v
  room : var.oidPrefix.subidList.length + 2 ≤ maxNrSubids

/-- The same, as a test. -/
def MibVariable.isInteger (var : MibVariable) : Bool :=
  match var.value with
  | .integer _ => var.oidPrefix.subidList.length + 2 ≤ maxNrSubids
  | _ => false

theorem isInteger_of_all {vars : List MibVariable} (h : vars.all MibVariable.isInteger = true) :
    ∀ var ∈ vars, ∃ v, var.IsInteger v := by
  intro var hvar
  have hbool := List.all_eq_true.mp h var hvar
  unfold MibVariable.isInteger at hbool
  split at hbool
  · rename_i v hvalue
    exact ⟨v, hvalue, of_decide_eq_true hbool⟩
  · cases hbool

theorem run_appendSubid (message : String) (subid : UInt32) {oid : Oid}
    (h : oid.subidList.length < maxNrSubids) :
    (appendSubid message subid).run oid =
      .ok () { oid with subidList := oid.subidList ++ [subid] } := by
  simp [appendSubid, h]

theorem run_createOid (message : String) {var : MibVariable}
    (h : var.oidPrefix.subidList.length + 2 ≤ maxNrSubids) (oid : Oid) :
    (createOid message var).run oid = .ok () ⟨var.subids, var.oidPrefix.encodedLength⟩ := by
  rw [createOid, EStateM.run_bind, EStateM.run_set]
  dsimp only
  rw [run_bind_of_ok (run_appendSubid message _ (by omega)),
    run_appendSubid message _ (by simp; omega)]
  simp [MibVariable.subids]

theorem length_subids (var : MibVariable) :
    var.subids.length = var.oidPrefix.subidList.length + 2 := by
  simp [MibVariable.subids]

/-- The encoded length of an OID of the agent: a header of two octets, and the content. -/
theorem run_setEncodedLength {oid : Oid} (h : oid.subidList.length ≤ maxNrSubids) :
    setEncodedLength.run oid =
      .ok () { oid with encodedLength := (oidContentLength oid.subidList + 2 : Nat) } := by
  have hle := oidContentLength_le h
  have hshort : toShort (oidContentLength oid.subidList + 2) =
      (oidContentLength oid.subidList + 2 : Nat) := toShort_eq (by omega) (by omega)
  rw [setEncodedLength, EStateM.run_bind, EStateM.run_get]
  dsimp only
  rw [if_neg (by omega), if_neg (by omega), if_neg (by omega), hshort, EStateM.run_set]

/-- The data of a new INTEGER entry. -/
def integerData (v : Int32) : Data := (Data.mk (List.replicate 6 0) 6 0).store (integerBytes v)

theorem holdsInteger_integerData (v : Int32) : HoldsInteger (integerData v) v :=
  holdsInteger_store rfl rfl v

/-- The OID of a variable, with the length that it has once encoded. -/
def MibVariable.oid (var : MibVariable) : Oid :=
  ⟨var.subids, (oidContentLength var.subids + 2 : Nat)⟩

/-- The OID of a new entry is made from any prefix that leaves room. -/
theorem run_buildOid {var : MibVariable} (h : var.oidPrefix.subidList.length + 2 ≤ maxNrSubids)
    (oid : Oid) :
    (createOid "could not create MIB entry '%s.%d.%d': oid overflow" var >>= fun _ =>
      setEncodedLength).run oid = .ok () var.oid := by
  have hlen := length_subids var
  rw [run_bind_of_ok (run_createOid _ h _), run_setEncodedLength (by simp only; omega)]
  rfl

theorem run_createEntry {var : MibVariable} {v : Int32} (h : var.IsInteger v) :
    (createEntry var).run unusedEntry = .ok () ⟨var.oid, integerData v⟩ := by
  have hoid := run_buildOid h.room unusedEntry.oid
  have hdata : (createData (.integer v)).run unusedEntry.data = .ok () (integerData v) := by
    rw [createData, encodeSnmpElementInteger_eq]
    rfl
  rw [createEntry, run_bind_of_ok (run_onOid hoid), h.value]
  exact run_onData hdata

/-- An entry of the table stands for an INTEGER variable: it has its OID, and its data is the
    number. -/
def Publishes (var : MibVariable) (value : Value) : Prop :=
  value.oid = var.oid ∧ ∃ v, var.value = .integer v ∧ HoldsInteger value.data v

theorem run_mibBuildEntry {var : MibVariable} {v : Int32} (h : var.IsInteger v)
    {values : List Value} (hroom : values.length < maxNrValues) :
    (mibBuildEntry var).run values = .ok () (values ++ [⟨var.oid, integerData v⟩]) := by
  change (if values.length < maxNrValues then _ else _) = _
  rw [if_pos hroom, run_createEntry h]

/-- **Building INTEGER entries succeeds while there is room.** The induction is on the
    variables; every call appends the entry of its own. -/
theorem forM_mibBuildEntry {vars : List MibVariable} (h : ∀ var ∈ vars, ∃ v, var.IsInteger v)
    {values : List Value} (hroom : values.length + vars.length ≤ maxNrValues) :
    ∃ entries, (forM vars mibBuildEntry).run values = .ok () (values ++ entries) ∧
      List.Forall₂ Publishes vars entries := by
  induction vars generalizing values with
  | nil => exact ⟨[], by rw [List.append_nil]; rfl, .nil⟩
  | cons var vars ih =>
    rw [List.length_cons] at hroom
    obtain ⟨v, hvar⟩ := h var List.mem_cons_self
    -- the first call appends its entry, and leaves room for the others
    have hrun := @run_mibBuildEntry var v hvar values (by omega)
    obtain ⟨entries, hentries, hall⟩ := @ih
      (fun var' hvar' => h var' (List.mem_cons_of_mem _ hvar'))
      (values ++ [⟨var.oid, integerData v⟩]) (by simp; omega)
    refine ⟨⟨var.oid, integerData v⟩ :: entries, ?_, .cons ?_ hall⟩
    · rw [List.forM_cons, run_bind_of_ok hrun, hentries, List.append_assoc,
        List.singleton_append]
    · exact ⟨rfl, v, hvar.value, holdsInteger_integerData v⟩

/-! ## What a successful build says -/

/-- The appending of a subid returns 0 only if there is room for it. -/
theorem appendSubid_ok {message : String} {subid : UInt32} {oid oid' : Oid}
    (h : (appendSubid message subid).run oid = .ok () oid') :
    oid.subidList.length < maxNrSubids ∧
      oid' = { oid with subidList := oid.subidList ++ [subid] } := by
  by_cases hroom : oid.subidList.length < maxNrSubids
  · rw [run_appendSubid message subid hroom] at h
    cases h
    exact ⟨hroom, rfl⟩
  · simp [appendSubid, hroom, fail] at h

theorem createOid_ok {message : String} {var : MibVariable} {oid oid' : Oid}
    (h : (createOid message var).run oid = .ok () oid') :
    var.oidPrefix.subidList.length + 2 ≤ maxNrSubids := by
  rw [createOid, EStateM.run_bind, EStateM.run_set] at h
  dsimp only at h
  -- the row finds room behind the column
  obtain ⟨u, oid'', hcolumn, hrow⟩ := exists_of_run_bind h
  obtain ⟨-, rfl⟩ := appendSubid_ok hcolumn
  have hroom := (appendSubid_ok hrow).1
  rw [List.length_append, List.length_singleton] at hroom
  exact hroom

theorem onOid_ok {m : MibM Oid Unit} {value value' : Value}
    (h : (onOid m).run value = .ok () value') :
    ∃ oid, m.run value.oid = .ok () oid ∧ value' = { value with oid } := by
  change (match m.run value.oid with | .ok () oid => _ | .error e oid => _) = _ at h
  cases hrun : m.run value.oid with
  | error e oid =>
    rw [hrun] at h
    cases h
  | ok u oid =>
    rw [hrun] at h
    cases h
    exact ⟨oid, rfl, rfl⟩

theorem onData_ok {m : MibM Data Unit} {value value' : Value}
    (h : (onData m).run value = .ok () value') :
    ∃ data, m.run value.data = .ok () data ∧ value' = { value with data } := by
  change (match m.run value.data with | .ok () data => _ | .error e data => _) = _ at h
  cases hrun : m.run value.data with
  | error e data =>
    rw [hrun] at h
    cases h
  | ok u data =>
    rw [hrun] at h
    cases h
    exact ⟨data, rfl, rfl⟩

/-- A new entry that could be filled in. -/
theorem createEntry_ok {var : MibVariable} {value value' : Value}
    (h : (createEntry var).run value = .ok () value') :
    var.oidPrefix.subidList.length + 2 ≤ maxNrSubids ∧ value'.oid = var.oid ∧
      (createData var.value).run value.data = .ok () value'.data := by
  rw [createEntry] at h
  obtain ⟨u, value'', hoid, hdata⟩ := exists_of_run_bind h
  obtain ⟨oid, hrun, rfl⟩ := onOid_ok hoid
  obtain ⟨data, hcreate, rfl⟩ := onData_ok hdata
  obtain ⟨u, oid', hcreateOid, hlength⟩ := exists_of_run_bind hrun
  -- with room for the column and the row, the OID is the one of the variable
  have hroom := createOid_ok hcreateOid
  have hlen := length_subids var
  rw [run_createOid _ hroom] at hcreateOid
  cases hcreateOid
  rw [run_setEncodedLength (by dsimp only; omega)] at hlength
  cases hlength
  exact ⟨hroom, rfl, hcreate⟩

/-- A call that returns 0 has appended an entry that could be filled in. -/
theorem mibBuildEntry_spec {var : MibVariable} {values values' : List Value}
    (h : (mibBuildEntry var).run values = .ok () values') :
    values.length < maxNrValues ∧ ∃ value, (createEntry var).run unusedEntry = .ok () value ∧
      values' = values ++ [value] := by
  change (if values.length < maxNrValues then _ else _) = _ at h
  split at h
  · rename_i hroom
    refine ⟨hroom, ?_⟩
    cases hcreate : (createEntry var).run unusedEntry with
    | error e value =>
      rw [hcreate] at h
      cases h
    | ok u value =>
      rw [hcreate] at h
      cases h
      exact ⟨value, rfl, rfl⟩
  · cases h

/-- A call for an INTEGER variable that returns 0 has found room, for the entry and for its
    OID. -/
theorem mibBuildEntry_ok {var : MibVariable} {v : Int32} (hvalue : var.value = .integer v)
    {values values' : List Value} (h : (mibBuildEntry var).run values = .ok () values') :
    values.length < maxNrValues ∧ var.IsInteger v := by
  obtain ⟨hroom, value, hcreate, -⟩ := mibBuildEntry_spec h
  exact ⟨hroom, hvalue, (createEntry_ok hcreate).1⟩

/-- Calls for INTEGER variables that all return 0. The induction is on the variables. -/
theorem forM_mibBuildEntry_ok {vars : List MibVariable}
    (hvars : ∀ var ∈ vars, ∃ v, var.value = .integer v) {values values' : List Value}
    (h : (forM vars mibBuildEntry).run values = .ok () values')
    (hroom : values.length ≤ maxNrValues) :
    values.length + vars.length ≤ maxNrValues ∧ ∀ var ∈ vars, ∃ v, var.IsInteger v := by
  induction vars generalizing values with
  | nil => exact ⟨hroom, fun _ hvar => absurd hvar List.not_mem_nil⟩
  | cons var vars ih =>
    obtain ⟨⟨v, hvalue⟩, hrest⟩ := List.forall_mem_cons.mp hvars
    rw [List.forM_cons] at h
    obtain ⟨u, built, hcall, hcalls⟩ := exists_of_run_bind h
    obtain ⟨hlt, hinteger⟩ := mibBuildEntry_ok hvalue hcall
    -- the call has succeeded, so that it has appended the entry of the variable
    rw [run_mibBuildEntry hinteger hlt] at hcall
    cases hcall
    obtain ⟨hlength, hall⟩ := ih hrest hcalls (by rw [List.length_append]; exact hlt)
    rw [List.length_append, List.length_singleton] at hlength
    refine ⟨?_, List.forall_mem_cons.mpr ⟨⟨v, hinteger⟩, hall⟩⟩
    rw [List.length_cons]
    omega

/-! ## The MIB as built -/

/-- An INTEGER entry is one that the response encoder can place. -/
theorem mibEntry_integer {var : MibVariable} {value : Value} {v : Int32}
    (hroom : var.oidPrefix.subidList.length + 2 ≤ maxNrSubids) (hoid : value.oid = var.oid)
    (hdata : HoldsInteger value.data v) : MibEntry value := by
  have hlen := length_subids var
  have hle : oidContentLength var.subids ≤ 71 := oidContentLength_le (by omega)
  have hoctets := length_integerBytes v
  have hb := integerOctets_bounds v
  have hsubids : value.oid.subidList = var.subids := congrArg Oid.subidList hoid
  exact {
    subids := by
      rw [hsubids]
      omega
    exact := by
      -- at most 71 octets: the length takes one
      rw [encodeSnmpOid_eq_tlv (by rw [hsubids]; omega), Lib.Ber.length_tlv, hsubids,
        Lib.Ber.length_lengthOctets, length_oidContent, if_neg (by omega), if_neg (by omega), hoid,
        MibVariable.oid]
      dsimp only
      omega
    data := hdata.pos.le
    buffer := by
      rw [hdata.encodedLength, hdata.buffer]
      omega }

/-- **A table of INTEGER entries.** Whatever calls of `mib_build_entry` for INTEGER variables
    have made it, it is a MIB for the handlers and the encoder. -/
theorem exists_mib_of_forM {vars : List MibVariable}
    (hvars : ∀ var ∈ vars, ∃ v, var.value = .integer v) {values : List Value}
    (h : (forM vars mibBuildEntry).run [] = .ok () values) : ∃ mib : Mib, mib.values = values := by
  obtain ⟨hroom, hintegers⟩ := forM_mibBuildEntry_ok hvars h (Nat.zero_le _)
  -- the same calls again, now with what their success says about the variables
  obtain ⟨entries, hrun, hpublishes⟩ := forM_mibBuildEntry hintegers hroom
  rw [hrun] at h
  cases h
  refine ⟨⟨entries, ?_, fun value hvalue => ?_⟩, rfl⟩
  · rw [← hpublishes.length_eq]
    simpa using hroom
  · obtain ⟨i, hi, rfl⟩ := List.mem_iff_getElem.mp hvalue
    have hlt : i < vars.length := hpublishes.length_eq ▸ hi
    obtain ⟨hoid, v, -, hdata⟩ := List.forall₂_iff_get.mp hpublishes |>.2 i hlt hi
    obtain ⟨_, hinteger⟩ := hintegers _ (List.getElem_mem hlt)
    exact mibEntry_integer hinteger.room hoid hdata

theorem isInteger_defaults (demo : Bool) : ∀ var ∈ defaults demo, ∃ v, var.IsInteger v :=
  isInteger_of_all (by cases demo <;> rfl)

/-- **The MIB is built.** -/
theorem mibBuild_publishes (demo : Bool) :
    ∃ built, (mibBuild demo).run [] = .ok () built ∧
      List.Forall₂ Publishes (defaults demo) built := by
  have hroom : (defaults demo).length ≤ maxNrValues := by cases demo <;> decide
  exact @forM_mibBuildEntry _ (isInteger_defaults demo) [] (by simpa using hroom)

end SdkSnmpd
