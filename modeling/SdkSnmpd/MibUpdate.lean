import SdkSnmpd.Lib.Cursor
import SdkSnmpd.MibBuild
import SdkSnmpd.OidOrder

/-!
# Refreshing the MIB

`mib_update_entry` and `mib_update`: the values of the table are replaced in one pass, by a
search that goes on where the one before has ended.

## Contents

- `mibUpdateEntry`, `mibUpdate`: the model.
- `run_updateEntries`: the calls are a pass in the sense of `Lib.revise`.
- `Refreshed`: what holds of the table after `mibBuild` and any number of `mibUpdate`s.
- `mibUpdate_refreshes`: the calls never fail, and the table stays as built but for its values.
- `exists_mib`: what the handlers assume of the MIB.
-/

namespace SdkSnmpd

open Lib (Ascending)

/-! ## `mib_update_entry` -/

/-- The switch over the type. Nothing is logged when a string is no OID. -/
def updateData : TypedValue → MibM Data Unit
  | .integer value => encodeSnmpElementInteger value
  | .octetString none => fail "could not update MIB entry '%s.%d.%d': invalid default value"
  | .octetString (some value) => encodeSnmpElementString value
  | .oid none => fail "could not update MIB entry '%s.%d.%d': invalid default value"
  | .oid (some value) => encodeSnmpElementOid (oidAton value)
  | .unsigned type value => encodeSnmpElementUnsigned type.tag value
  | .other _ _ => fail "could not update MIB entry '%s.%d.%d': unsupported type %d"

/-- Search the MIB for the OID beginning at the given position. -/
def findFrom (subids : List UInt32) (pos : Nat) (values : List Value) : Nat :=
  pos + (values.drop pos).findIdx fun value => decide (value.oid.subidList = subids)

/-- Returns the new `*pos`. The OID is a local variable; its old contents do not matter. -/
def mibUpdateEntry (var : MibVariable) (pos : Nat) : MibM (List Value) Nat := fun values =>
  match (createOid "could not update MIB entry '%s.%d.%d': oid overflow" var).run ⟨[], 0⟩ with
  | .error e _ => .error e values
  | .ok () oid =>
      let pos := findFrom oid.subidList pos values
      match values[pos]? with
      | none =>
          .error (.failed (some "could not update MIB entry '%s.%d.%d': oid not found")) values
      | some value =>
          match (onData (updateData var.value)).run value with
          | .error e value => .error e (values.set pos value)
          | .ok () value => .ok pos (values.set pos value)

/-! ## `mib_update` -/

/-- `sdkinfo_t` -/
structure Sdkinfo where
  dryContact1 : Int32
  dryContact2 : Int32
  dryContact3 : Int32
  dryContact4 : UInt32
  dryContact5 : UInt32
  dryContact6 : UInt32
  dryContact7 : UInt32
  dryContact8 : UInt32
  dryContact9 : UInt32
  dryContact10 : UInt32
  dryContact11 : UInt32
  dryContact12 : UInt32
  dryContact13 : UInt32
  dryContact14 : UInt32
  dryContact15 : UInt32
  dryContact16 : UInt32
  dryContact17 : UInt32
  dryContact18 : UInt32
  dryContact19 : UInt32
  dryContact20 : UInt32
  sdkTemp : UInt32
  sdkHw : UInt32
  sdkSw : UInt32
  sdkRelay : UInt32
  opticalRelay1 : UInt32
  opticalRelay2 : UInt32
  opticalRelay3 : UInt32
  opticalRelay4 : UInt32

/-- `demoinfo_t` -/
structure Demoinfo where
  randomValue1 : UInt32
  randomValue2 : UInt32

/-- A call of `mib_update`: its parameter, and what `get_sdkinfo` and `get_demoinfo` tell it. -/
structure Update where
  full : Bool
  sdkinfo : Sdkinfo
  demoinfo : Demoinfo

def demoValues (demoinfo : Demoinfo) : List MibVariable :=
  [demoInteger 1 0 demoinfo.randomValue1.toInt32,
    demoInteger 2 0 demoinfo.randomValue2.toInt32]

def sdkValues (sdkinfo : Sdkinfo) : List MibVariable :=
  [sdkInteger 1 0 sdkinfo.dryContact1,
    sdkInteger 1 1 sdkinfo.dryContact2,
    sdkInteger 1 2 sdkinfo.dryContact3,
    sdkInteger 1 3 sdkinfo.dryContact4.toInt32,
    sdkInteger 1 4 sdkinfo.dryContact5.toInt32,
    sdkInteger 1 5 sdkinfo.dryContact6.toInt32,
    sdkInteger 1 6 sdkinfo.dryContact7.toInt32,
    sdkInteger 1 7 sdkinfo.dryContact8.toInt32,
    sdkInteger 1 8 sdkinfo.dryContact9.toInt32,
    sdkInteger 1 9 sdkinfo.dryContact10.toInt32,
    sdkInteger 1 10 sdkinfo.dryContact11.toInt32,
    sdkInteger 1 11 sdkinfo.dryContact12.toInt32,
    sdkInteger 1 12 sdkinfo.dryContact13.toInt32,
    sdkInteger 1 13 sdkinfo.dryContact14.toInt32,
    sdkInteger 1 14 sdkinfo.dryContact15.toInt32,
    sdkInteger 1 15 sdkinfo.dryContact16.toInt32,
    sdkInteger 1 16 sdkinfo.dryContact17.toInt32,
    sdkInteger 1 17 sdkinfo.dryContact18.toInt32,
    sdkInteger 1 18 sdkinfo.dryContact19.toInt32,
    sdkInteger 1 19 sdkinfo.dryContact20.toInt32,
    sdkInteger 2 0 sdkinfo.sdkTemp.toInt32,
    sdkInteger 3 0 sdkinfo.sdkHw.toInt32,
    sdkInteger 4 0 sdkinfo.sdkSw.toInt32,
    sdkInteger 5 0 sdkinfo.sdkRelay.toInt32,
    sdkInteger 6 0 sdkinfo.opticalRelay1.toInt32,
    sdkInteger 6 1 sdkinfo.opticalRelay2.toInt32,
    sdkInteger 6 2 sdkinfo.opticalRelay3.toInt32,
    sdkInteger 6 3 sdkinfo.opticalRelay4.toInt32]

/-- The calls of a full update; the first that fails ends it. -/
def published (demo : Bool) (update : Update) : List MibVariable :=
  if demo then demoValues update.demoinfo ++ sdkValues update.sdkinfo
  else sdkValues update.sdkinfo

/-- The calls one after another, with `pos` handed on. -/
def updateEntries : List MibVariable → (pos : Nat) → MibM (List Value) Unit
  | [], _ => pure ()
  | var :: vars, pos => do
      let pos ← mibUpdateEntry var pos
      updateEntries vars pos

def mibUpdate (demo : Bool) (update : Update) : MibM (List Value) Unit :=
  if update.full then updateEntries (published demo update) 0 else pure ()

/-! ## The calls as a pass over the table -/

/-- What a call makes of the entry that it finds. -/
def revision (var : MibVariable) : Lib.Revision (List UInt32) Value where
  key := var.subids
  apply value :=
    match var.value with
    | .integer v => { value with data := value.data.store (integerBytes v) }
    | _ => value

theorem run_updateData (v : Int32) (value : Value) :
    (onData (updateData (.integer v))).run value =
      .ok () { value with data := value.data.store (integerBytes v) } := by
  apply run_onData
  rw [updateData, encodeSnmpElementInteger_eq, EStateM.run_modify]

/-- A call for an INTEGER variable whose OID is in the table from `pos` on. -/
theorem run_mibUpdateEntry {var : MibVariable} {v : Int32} (h : var.IsInteger v) {pos : Nat}
    {values : List Value} {value : Value}
    (hfound : values[findFrom var.subids pos values]? = some value) :
    (mibUpdateEntry var pos).run values =
      .ok (findFrom var.subids pos values)
        (values.set (findFrom var.subids pos values) ((revision var).apply value)) := by
  have hoid := run_createOid "could not update MIB entry '%s.%d.%d': oid overflow" h.room ⟨[], 0⟩
  change (match (createOid _ var).run ⟨[], 0⟩ with | .error e _ => _ | .ok () oid => _) = _
  -- the OID is built anew, so that only the search can fail
  rw [hoid]
  simp only [hfound, h.value, run_updateData, revision]

/-- **The calls are a pass.** The induction is on the variables. -/
theorem run_updateEntries {vars : List MibVariable} (h : ∀ var ∈ vars, ∃ v, var.IsInteger v)
    {pos : Nat} {values table : List Value}
    (hpass : Lib.revise (fun value : Value => value.oid.subidList) pos (vars.map revision) values =
      some table) :
    (updateEntries vars pos).run values = .ok () table := by
  induction vars generalizing pos values with
  | nil =>
    cases hpass
    rfl
  | cons var vars ih =>
    obtain ⟨v, hvar⟩ := h var List.mem_cons_self
    rw [List.map_cons, Lib.revise] at hpass
    split at hpass
    · -- the pass has found every key
      cases hpass
    · rename_i value hvalue
      -- the next search goes on at the entry that this one has found
      rw [updateEntries, run_bind_of_ok (run_mibUpdateEntry hvar hvalue)]
      exact ih (fun var' hvar' => h var' (List.mem_cons_of_mem _ hvar')) hpass

/-! ## The variables that the agent publishes -/

theorem isInteger_published (demo : Bool) (update : Update) :
    ∀ var ∈ published demo update, ∃ v, var.IsInteger v :=
  isInteger_of_all (by cases demo <;> rfl)

/-- The MIB is built in the order in which it is updated. -/
theorem published_oids (demo : Bool) (update : Update) :
    (published demo update).map MibVariable.oid = (defaults demo).map MibVariable.oid := by
  cases demo <;> rfl

/-- The MIB is built in ascending order. -/
theorem ascending_defaults (demo : Bool) :
    ((defaults demo).map MibVariable.oid).Pairwise fun oid1 oid2 => oidCmp oid1 oid2 < 0 := by
  have hchain : (((defaults demo).map MibVariable.oid).map oidKey).IsChain (· < ·) := by
    -- both tables are fixed
    cases demo <;> decide
  exact (List.pairwise_map.mp hchain.pairwise).imp (oidCmp_neg_iff _ _).mpr

/-- They ascend in the SNMP order as well. -/
theorem ascending_names_defaults (demo : Bool) :
    Ascending Oid.name ((defaults demo).map MibVariable.oid) := by
  have hchain : (((defaults demo).map MibVariable.oid).map Oid.name).IsChain (· < ·) := by
    -- here the subids compare as unsigned numbers
    cases demo <;> decide
  exact List.pairwise_map.mp hchain.pairwise

theorem nodup_defaults (demo : Bool) : ((defaults demo).map MibVariable.subids).Nodup := by
  have hasc := List.pairwise_map.mp (ascending_names_defaults demo)
  -- two names in ascending order are two names
  refine List.pairwise_map.mpr (hasc.imp fun {var1 var2} hlt heq => ?_)
  have hname : var1.oid.name = var2.oid.name := congrArg (List.map UInt32.toNat) heq
  exact absurd hname (ne_of_lt hlt)

/-! ## Runs -/

/-- The table is as built, but for its numbers. -/
structure Refreshed (demo : Bool) (values : List Value) : Prop where
  oids : values.map Value.oid = (defaults demo).map MibVariable.oid
  integers : ∀ value ∈ values, ∃ v, HoldsInteger value.data v

theorem Refreshed.of_publishes {demo : Bool} {vars : List MibVariable} {values : List Value}
    (hoids : vars.map MibVariable.oid = (defaults demo).map MibVariable.oid)
    (h : List.Forall₂ Publishes vars values) : Refreshed demo values where
  oids := by
    rw [← hoids]
    clear hoids
    induction h with
    | nil => rfl
    | cons hentry _ ih => rw [List.map_cons, List.map_cons, hentry.1, ih]
  integers := by
    clear hoids
    induction h with
    | nil => simp
    | cons hentry _ ih =>
      obtain ⟨_, v, _, hdata⟩ := hentry
      exact List.forall_mem_cons.mpr ⟨⟨v, hdata⟩, ih⟩

namespace Refreshed

variable {demo : Bool} {values : List Value}

theorem keys (h : Refreshed demo values) (update : Update) :
    ((published demo update).map revision).map Lib.Revision.key =
      values.map fun value => value.oid.subidList := by
  have hoids := congrArg (List.map Oid.subidList) (h.oids.trans (published_oids demo update).symm)
  -- the key of a revision is the subid list of its variable
  rw [List.map_map, List.map_map] at hoids
  rw [List.map_map]
  exact hoids.symm

theorem nodup (h : Refreshed demo values) :
    (values.map fun value => value.oid.subidList).Nodup := by
  have hoids := congrArg (List.map Oid.subidList) h.oids
  rw [List.map_map, List.map_map] at hoids
  change values.map (fun value => value.oid.subidList) =
    (defaults demo).map MibVariable.subids at hoids
  rw [hoids]
  exact nodup_defaults demo

/-- A number replaces a number. -/
theorem publishes_apply {var : MibVariable} {value : Value} {v : Int32} (hvar : var.IsInteger v)
    (hoid : value.oid = var.oid) (hdata : ∃ v, HoldsInteger value.data v) :
    Publishes var ((revision var).apply value) := by
  obtain ⟨old, hold⟩ := hdata
  simp only [revision, hvar.value]
  exact ⟨hoid, v, hvar.value, holdsInteger_store hold.allotted hold.buffer v⟩

/-- Entry by entry, the revisions put the numbers of the variables into the table. -/
theorem publishes_zipWith {vars : List MibVariable} (hvars : ∀ var ∈ vars, ∃ v, var.IsInteger v)
    {values : List Value} (hoids : values.map Value.oid = vars.map MibVariable.oid)
    (hdata : ∀ value ∈ values, ∃ v, HoldsInteger value.data v) :
    List.Forall₂ Publishes vars (List.zipWith Lib.Revision.apply (vars.map revision) values) := by
  induction vars generalizing values with
  | nil =>
    cases values with
    | nil => exact .nil
    | cons => cases hoids
  | cons var vars ih =>
    cases values with
    | nil => cases hoids
    | cons value values =>
      rw [List.map_cons, List.map_cons, List.cons.injEq] at hoids
      rw [List.forall_mem_cons] at hvars hdata
      obtain ⟨v, hvar⟩ := hvars.1
      -- the heads have one OID, and so have the tails one after another
      exact .cons (publishes_apply hvar hoids.1 hdata.1) (ih hvars.2 hoids.2 hdata.2)

/-- **A full update.** It succeeds, and every entry has the number of its field. -/
theorem full (h : Refreshed demo values) (update : Update) :
    ∃ table, (updateEntries (published demo update) 0).run values = .ok () table ∧
      List.Forall₂ Publishes (published demo update) table := by
  have hkeys := h.keys update
  have hsublist : (((published demo update).map revision).map Lib.Revision.key).Sublist
      ((values.drop 0).map fun value => value.oid.subidList) := by
    rw [List.drop_zero, hkeys]
  -- one pass finds all keys, as they stand in the order of the table
  have hpass := Lib.revise_eq h.nodup hsublist fun r hr value => by
    -- a revision leaves the OID as it is
    obtain ⟨var, _, rfl⟩ := List.mem_map.mp hr
    simp only [revision]
    split <;> rfl
  refine ⟨_, run_updateEntries (isInteger_published demo update) hpass, ?_⟩
  -- each entry has been revised by the variable at its place
  rw [Lib.map_revised_eq_zipWith h.nodup hkeys]
  exact publishes_zipWith (isInteger_published demo update)
    (h.oids.trans (published_oids demo update).symm) h.integers

theorem run_mibUpdate (h : Refreshed demo values) (update : Update) :
    ∃ table, (mibUpdate demo update).run values = .ok () table ∧ Refreshed demo table ∧
      (update.full = true → List.Forall₂ Publishes (published demo update) table) ∧
      (update.full = false → table = values) := by
  unfold mibUpdate
  cases hfull : update.full with
  -- a partial update makes no calls
  | false => exact ⟨values, rfl, h, fun hcontra => (by cases hcontra), fun _ => rfl⟩
  | true =>
    obtain ⟨table, hrun, hpublishes⟩ := h.full update
    exact ⟨table, hrun, .of_publishes (published_oids demo update) hpublishes,
      fun _ => hpublishes, fun hcontra => (by cases hcontra)⟩

end Refreshed

/-- The last full update of a run. -/
def lastFull (updates : List Update) : Option Update := updates.reverse.find? Update.full

theorem lastFull_concat (updates : List Update) (update : Update) :
    lastFull (updates ++ [update]) =
      if update.full = true then some update else lastFull updates := by
  rw [lastFull, List.reverse_concat, List.find?_cons]
  cases update.full <;> rfl

/-- **Runs of updates.** The induction is on the run, from its end: a full update replaces all
    numbers, and another call none. -/
theorem Refreshed.run_updates {demo : Bool} {values : List Value} (h : Refreshed demo values)
    (updates : List Update) :
    ∃ table, (forM updates (mibUpdate demo)).run values = .ok () table ∧ Refreshed demo table ∧
      ∀ update, lastFull updates = some update →
        List.Forall₂ Publishes (published demo update) table := by
  induction updates using List.reverseRecOn with
  | nil => exact ⟨values, rfl, h, fun _ hlast => (by cases hlast)⟩
  | append_singleton updates update ih =>
    obtain ⟨middle, hmiddle, hrefreshed, hlast⟩ := ih
    obtain ⟨table, hrun, htable, hfull, hpartial⟩ := hrefreshed.run_mibUpdate update
    refine ⟨table, ?_, htable, ?_⟩
    · rw [List.forM_append, run_bind_of_ok hmiddle, List.forM_cons, run_bind_of_ok hrun]
      rfl
    · intro update' hlast'
      rw [lastFull_concat] at hlast'
      cases hb : update.full with
      | true =>
        -- the update at the end is the last full one
        rw [hb, if_pos rfl, Option.some.injEq] at hlast'
        exact hlast' ▸ hfull hb
      | false =>
        -- the table is that of the updates before
        rw [hb, if_neg Bool.false_ne_true] at hlast'
        exact hpartial hb ▸ hlast update' hlast'

/-! ## The table of the agent -/

namespace Refreshed

variable {demo : Bool} {values : List Value}

theorem ascending (h : Refreshed demo values) :
    values.Pairwise fun value value' => oidCmp value.oid value'.oid < 0 := by
  have hasc := ascending_defaults demo
  rw [← h.oids, List.pairwise_map] at hasc
  exact hasc

theorem ascending_names (h : Refreshed demo values) :
    Ascending (fun value => value.oid.name) values := by
  have hasc := ascending_names_defaults demo
  unfold Ascending at hasc
  rw [← h.oids, List.pairwise_map] at hasc
  exact hasc

/-- The table is a MIB for the handlers and the encoder. -/
def mib (h : Refreshed demo values) : Mib where
  values := values
  room := by
    have hlength := congrArg List.length h.oids
    rw [List.length_map, List.length_map] at hlength
    rw [hlength]
    cases demo <;> decide
  entries := by
    intro value hvalue
    obtain ⟨v, hdata⟩ := h.integers value hvalue
    have hoid : value.oid ∈ (defaults demo).map MibVariable.oid := by
      rw [← h.oids]
      exact List.mem_map_of_mem hvalue
    obtain ⟨var, hvar, hoid⟩ := List.mem_map.mp hoid
    obtain ⟨_, hinteger⟩ := isInteger_defaults demo var hvar
    exact mibEntry_integer hinteger.room hoid.symm hdata

theorem not_isException (h : Refreshed demo values) :
    ∀ value ∈ values, ¬ IsException value.data := by
  intro value hvalue
  obtain ⟨v, hdata⟩ := h.integers value hvalue
  exact hdata.not_isException

end Refreshed

/-- The element in the data is read as the number, wherever it stands in a packet. -/
def Data.ReadsAs (data : Data) (v : Int32) : Prop :=
  ∀ (mem : Lib.Mem) (size pos : Nat), size ≤ maxPacketSize → Stands mem size pos data.bytes →
    (readInteger size pos).eval mem = .ok (v, pos + data.bytes.length)

/-- **The refresh of the MIB.** After `mibBuild`, no run of updates fails, and none changes the
    OIDs or their order. Every data buffer holds one complete INTEGER; after a full update it is
    the field that is published under the OID. -/
theorem mibUpdate_refreshes (demo : Bool) :
    ∃ built, (mibBuild demo).run [] = .ok () built ∧
      ∀ updates : List Update,
        ∃ table, (forM updates (mibUpdate demo)).run built = .ok () table ∧
          table.map Value.oid = built.map Value.oid ∧
          (table.Pairwise fun value value' => oidCmp value.oid value'.oid < 0) ∧
          (∀ value ∈ table, ∃ v, value.data.bytes = integerBytes v ∧
            value.data.encodedLength = (integerBytes v).length ∧ 0 < value.data.encodedLength ∧
            value.data.encodedLength ≤ value.data.maxLength) ∧
          ∀ update, lastFull updates = some update →
            List.Forall₂ (fun var value => value.oid = var.oid ∧
              ∃ v, var.value = .integer v ∧ value.data.ReadsAs v) (published demo update) table := by
  obtain ⟨built, hbuild, hpublishes⟩ := mibBuild_publishes demo
  -- the build establishes what every update keeps
  have hbuilt := Refreshed.of_publishes rfl hpublishes
  refine ⟨built, hbuild, fun updates => ?_⟩
  obtain ⟨table, hrun, htable, hlast⟩ := hbuilt.run_updates updates
  refine ⟨table, hrun, htable.oids.trans hbuilt.oids.symm, htable.ascending, ?_, ?_⟩
  · intro value hvalue
    obtain ⟨v, hdata⟩ := htable.integers value hvalue
    exact ⟨v, hdata.bytes, hdata.encodedLength, hdata.pos, hdata.le_maxLength⟩
  · intro update hupdate
    -- what an entry publishes is what a reader decodes from it
    refine (hlast update hupdate).imp fun var value hentry => ?_
    obtain ⟨hoid, v, hv, hdata⟩ := hentry
    exact ⟨hoid, v, hv, fun _ _ _ hsize hstands => hdata.decodes hsize hstands⟩

/-- What the handlers assume of the MIB holds of the table of the agent at all times. -/
theorem exists_mib (demo : Bool) (updates : List Update) :
    ∃ mib : Mib, (mibBuild demo >>= fun _ => forM updates (mibUpdate demo)).run [] =
        .ok () mib.values ∧
      (mib.values.Pairwise fun value value' => oidCmp value.oid value'.oid < 0) ∧
      Ascending (fun value => value.oid.name) mib.values ∧
      ∀ value ∈ mib.values, ¬ IsException value.data := by
  obtain ⟨built, hbuild, hpublishes⟩ := mibBuild_publishes demo
  have hbuilt := Refreshed.of_publishes rfl hpublishes
  obtain ⟨table, hrun, htable, _⟩ := hbuilt.run_updates updates
  refine ⟨htable.mib, ?_, htable.ascending, htable.ascending_names, htable.not_isException⟩
  rw [run_bind_of_ok hbuild]
  exact hrun

end SdkSnmpd
