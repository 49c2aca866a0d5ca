import SdkSnmpd.Lib.Maintains
import SdkSnmpd.MibUpdate

/-!
# Tables Made by Any Calls

`mib_build_entry` and `mib_update_entry` for variables of any type, in any order, whether or
not they succeed.

## Contents

- `MibCall`, `tableAfter`: the calls, and the table after them.
- `finalState_mibBuildEntry`, `finalState_mibUpdateEntry`: what one call makes of the table.
- `Stable`: what every call keeps of the data of the entries.
- `tableAfter_spec`, `tableAfter_oids`: what holds of every table.
-/

namespace SdkSnmpd

open Lib (Maintains finalState maintains_throw maintains_set maintains_modify maintains_bind
  maintains_ite maintains_tryCatch)

/-! ## Calls -/

/-- A call for a variable. -/
inductive MibCall where
  | build (var : MibVariable)
  | update (var : MibVariable) (pos : Nat)

def MibCall.run : MibCall → MibM (List Value) Unit
  | .build var => mibBuildEntry var
  | .update var pos => mibUpdateEntry var pos >>= fun _ => pure ()

/-- `g_mib` after the calls. -/
def tableAfter (calls : List MibCall) : List Value :=
  calls.foldl (fun values call => finalState (call.run.run values)) []

/-- A new entry is appended while there is room, even if it could not be filled in. -/
theorem finalState_mibBuildEntry (var : MibVariable) (values : List Value) :
    finalState ((mibBuildEntry var).run values) =
      if values.length < maxNrValues then
        values ++ [finalState ((createEntry var).run unusedEntry)]
      else values := by
  change finalState (if values.length < maxNrValues then _ else _) = _
  split
  · cases (createEntry var).run unusedEntry <;> rfl
  · rfl

/-- An update leaves the table as it is, or changes the data of one entry. -/
theorem finalState_mibUpdateEntry (var : MibVariable) (pos : Nat) (values : List Value) :
    finalState ((MibCall.update var pos).run.run values) = values ∨
      ∃ i value, values[i]? = some value ∧
        finalState ((MibCall.update var pos).run.run values) =
          values.set i (finalState ((onData (updateData var.value)).run value)) := by
  have hstate : finalState ((MibCall.update var pos).run.run values) =
      finalState ((mibUpdateEntry var pos).run values) := by
    rw [MibCall.run, EStateM.run_bind]
    cases (mibUpdateEntry var pos).run values <;> rfl
  rw [hstate]
  change finalState (mibUpdateEntry var pos values) = _ ∨ ∃ i value, _ ∧
    finalState (mibUpdateEntry var pos values) = _
  unfold mibUpdateEntry
  split
  · exact .inl rfl
  · dsimp only
    split
    · exact .inl rfl
    · rename_i value hvalue
      refine .inr ⟨_, value, hvalue, ?_⟩
      cases (onData (updateData var.value)).run value <;> rfl

/-! ## Data buffers -/

/-- An element is told from the exceptions by its type. -/
theorem not_isException_of_head {data : Data} {tag : UInt8}
    (hhead : data.buffer.head? = some tag) (htag : tag < 0x80) : ¬ IsException data := by
  unfold IsException
  rw [hhead]
  rintro (h | h | h) <;> cases h <;> exact absurd htag (by decide)

/-- What the encoders and the allocation of a buffer keep. -/
structure Stable (P : Data → Prop) : Prop where
  store : ∀ (tag : UInt8) (bytes : List UInt8) (data : Data), tag < 0x80 → P data →
    P (data.store (tag :: bytes))
  storeType : ∀ (tag : UInt8) (data : Data), tag < 0x80 → P data → P (data.storeType tag)
  allot : ∀ length : Int, P ⟨List.replicate (toShort length).toNat 0, toShort length, 0⟩

/-- No element and no new buffer is an exception. -/
theorem stable_noException : Stable fun data => ¬ IsException data where
  store := fun _ _ _ htag _ => not_isException_of_head rfl htag
  storeType := fun _ _ htag _ => not_isException_of_head rfl htag
  allot := by
    intro length
    -- a new buffer holds zeros, or nothing
    cases (toShort length).toNat with
    | zero => simp [IsException]
    | succ n => exact not_isException_of_head rfl (by decide : (0 : UInt8) < 0x80)

namespace Stable

variable {P : Data → Prop}

theorem encodeInteger (h : Stable P) (integerValue : Int32) :
    Maintains P (encodeSnmpElementInteger integerValue) :=
  maintains_modify fun data => h.store berTypeInteger _ data (by decide)

theorem encodeString (h : Stable P) (stringValue : CString) :
    Maintains P (encodeSnmpElementString stringValue) := by
  apply maintains_ite
  · -- the type is stored before the error is noticed
    intro _
    apply maintains_bind
    · exact maintains_modify fun data => h.storeType berTypeOctetString data (by decide)
    · exact fun _ => maintains_throw _
  · intro _
    exact maintains_modify fun data => h.store berTypeOctetString _ data (by decide)

theorem encodeOid (h : Stable P) (oidValue : Option Oid) :
    Maintains P (encodeSnmpElementOid oidValue) := by
  cases oidValue with
  | none => exact maintains_throw _
  | some oidValue =>
    apply maintains_ite
    · intro _
      apply maintains_bind
      · exact maintains_modify fun data => h.storeType berTypeOid data (by decide)
      · exact fun _ => maintains_throw _
    · intro _
      exact maintains_modify fun data => h.store berTypeOid _ data (by decide)

theorem encodeUnsigned (h : Stable P) (type : UnsignedType) (ticksValue : UInt32) :
    Maintains P (encodeSnmpElementUnsigned type.tag ticksValue) :=
  maintains_modify fun data => h.store type.tag _ data (by cases type <;> decide)

theorem maintains_allot (h : Stable P) (length : Int) : Maintains P (SdkSnmpd.allot length) := by
  apply maintains_ite
  · exact fun _ => maintains_throw _
  · exact fun _ => maintains_set (h.allot length)

theorem maintains_createData (h : Stable P) (value : TypedValue) :
    Maintains P (createData value) := by
  cases value with
  | integer value => exact maintains_bind (h.maintains_allot _) fun _ => h.encodeInteger value
  | octetString value =>
    cases value with
    | none => exact maintains_throw _
    | some value => exact maintains_bind (h.maintains_allot _) fun _ => h.encodeString value
  | oid value =>
    cases value with
    | none => exact maintains_throw _
    | some value =>
      exact maintains_bind (h.maintains_allot _) fun _ =>
        maintains_tryCatch (h.encodeOid _) fun _ => maintains_throw _
  | unsigned type value =>
    exact maintains_bind (h.maintains_allot _) fun _ => h.encodeUnsigned type value
  | other type unsupported => exact maintains_throw _

theorem maintains_updateData (h : Stable P) (value : TypedValue) :
    Maintains P (updateData value) := by
  cases value with
  | integer value => exact h.encodeInteger value
  | octetString value =>
    cases value with
    | none => exact maintains_throw _
    | some value => exact h.encodeString value
  | oid value =>
    cases value with
    | none => exact maintains_throw _
    | some value => exact h.encodeOid _
  | unsigned type value => exact h.encodeUnsigned type value
  | other type unsupported => exact maintains_throw _

end Stable

/-! ## Entries -/

theorem finalState_onOid (m : MibM Oid Unit) (value : Value) :
    finalState ((onOid m).run value) = { value with oid := finalState (m.run value.oid) } := by
  change finalState (onOid m value) = _
  unfold onOid
  cases m.run value.oid <;> rfl

theorem finalState_onData (m : MibM Data Unit) (value : Value) :
    finalState ((onData m).run value) = { value with data := finalState (m.run value.data) } := by
  change finalState (onData m value) = _
  unfold onData
  cases m.run value.data <;> rfl

/-- What is maintained of the data is maintained of the entry. -/
theorem maintains_onData {P : Data → Prop} {m : MibM Data Unit} (h : Maintains P m) :
    Maintains (fun value => P value.data) (onData m) := by
  intro value hvalue
  rw [finalState_onData]
  exact h value.data hvalue

/-- The data of a new entry, whether or not it could be filled in. -/
theorem Stable.createEntry {P : Data → Prop} (h : Stable P) (hunused : P unusedEntry.data)
    (var : MibVariable) : P (finalState ((createEntry var).run unusedEntry)).data := by
  have hoid : ∀ m : MibM Oid Unit, Maintains (fun value => P value.data) (onOid m) := by
    intro m value hvalue
    rw [finalState_onOid]
    exact hvalue
  -- the OID comes first, and an error in it leaves the unused data
  exact maintains_bind (hoid _) (fun _ => maintains_onData (h.maintains_createData var.value))
    unusedEntry hunused

/-! ## Tables -/

/-- Every call keeps to the size of the table. -/
theorem maintains_room (call : MibCall) :
    Maintains (fun values : List Value => values.length ≤ maxNrValues) call.run := by
  intro values hroom
  cases call with
  | build var =>
    rw [MibCall.run, finalState_mibBuildEntry]
    -- a full table refuses the entry
    split
    · rw [List.length_append, List.length_singleton]
      omega
    · exact hroom
  | update var pos =>
    rcases finalState_mibUpdateEntry var pos values with hsame | ⟨i, value, hvalue, hset⟩
    · rwa [hsame]
    · rwa [hset, List.length_set]

/-- What is stable holds of the data of every entry. -/
theorem Stable.maintains_entries {P : Data → Prop} (h : Stable P) (hunused : P unusedEntry.data)
    (call : MibCall) :
    Maintains (fun values : List Value => ∀ value ∈ values, P value.data) call.run := by
  intro values hvalues
  cases call with
  | build var =>
    rw [MibCall.run, finalState_mibBuildEntry]
    split
    · rw [List.forall_mem_append, List.forall_mem_singleton]
      exact ⟨hvalues, h.createEntry hunused var⟩
    · exact hvalues
  | update var pos =>
    rcases finalState_mibUpdateEntry var pos values with hsame | ⟨i, value, hvalue, hset⟩
    · rwa [hsame]
    · rw [hset]
      intro value' hvalue'
      rcases List.mem_or_eq_of_mem_set hvalue' with hold | rfl
      · exact hvalues value' hold
      · exact maintains_onData (h.maintains_updateData var.value) value
          (hvalues value (List.mem_of_getElem? hvalue))

theorem Stable.tableAfter {P : Data → Prop} (h : Stable P) (hunused : P unusedEntry.data)
    (calls : List MibCall) : ∀ value ∈ tableAfter calls, P value.data :=
  Lib.maintains_foldl (h.maintains_entries hunused) calls (by simp)

/-- An update leaves every OID as it is. -/
theorem maintains_oids (var : MibVariable) (pos : Nat) (oids : List Oid) :
    Maintains (fun values : List Value => values.map Value.oid = oids)
      (MibCall.update var pos).run := by
  intro values hoids
  rcases finalState_mibUpdateEntry var pos values with hsame | ⟨i, value, hvalue, hset⟩
  · rwa [hsame]
  · rw [hset, finalState_onData]
    rw [Lib.map_key_set hvalue]
    · exact hoids
    · rfl

/-- **Tables made by any calls.** There are never more than `MAX_NR_VALUES` entries, and none of
    them is an exception. -/
theorem tableAfter_spec (calls : List MibCall) :
    (tableAfter calls).length ≤ maxNrValues ∧
      ∀ value ∈ tableAfter calls, ¬ IsException value.data :=
  ⟨Lib.maintains_foldl maintains_room calls (Nat.zero_le _),
    stable_noException.tableAfter (by decide) calls⟩

/-- After any calls, updates leave the OIDs as they are. -/
theorem tableAfter_oids (calls : List MibCall) (updates : List (MibVariable × Nat)) :
    (tableAfter (calls ++ updates.map fun u => .update u.1 u.2)).map Value.oid =
      (tableAfter calls).map Value.oid := by
  rw [tableAfter, List.foldl_append, List.foldl_map]
  exact @Lib.maintains_foldl _ _ _ _ _ (fun u : MibVariable × Nat => (MibCall.update u.1 u.2).run)
    (fun u => maintains_oids u.1 u.2 _) updates _ rfl

end SdkSnmpd
