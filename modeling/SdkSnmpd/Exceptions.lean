import SdkSnmpd.Answers

/-!
# The Exceptions of GET

An OID that is not in the MIB is answered with `noSuchInstance` if the object exists, and with
`noSuchObject` if not. The OID of an object is the OID of an entry without the final row.
`handle_snmp_get` infers the exception from the first entry that extends the requested OID.

## Contents

- `ObjectExists`, `RightException`: the exceptions as they are defined.
- `FirstIsOneLonger`: the first entry that extends the OID is one subid longer.
- `handleSnmpGet_exceptions_iff`: exactly when GET reports the right exceptions.
-/

namespace SdkSnmpd

/-- The OID names an object of the MIB, or extends the name of one. -/
def ObjectExists (values : List Value) (oid : Oid) : Prop :=
  ∃ entry ∈ values, entry.oid.subidList.dropLast <+: oid.subidList

/-- No entry has the OID. -/
def Absent (values : List Value) (oid : Oid) : Prop :=
  ∀ entry ∈ values, entry.oid.subidList ≠ oid.subidList

/-- An absent OID is answered with the exception that is defined for it. -/
structure RightException (values : List Value) (oid : Oid) (answer : Value) : Prop where
  named : answer.oid.subidList = oid.subidList
  noSuchInstance : Absent values oid → ObjectExists values oid → answer.data = mNoSuchInstance
  noSuchObject : Absent values oid → ¬ ObjectExists values oid → answer.data = mNoSuchObject

/-- The first entry that extends the OID is one subid longer. -/
def FirstIsOneLonger (values : List Value) (oid : Oid) : Prop :=
  ∃ entry, values.find? (isExtension oid) = some entry ∧
    entry.oid.subidList.length = oid.subidList.length + 1

section

variable {values : List Value} {oid : Oid}

/-- An entry that is one subid longer belongs to the object with the OID. -/
theorem FirstIsOneLonger.objectExists (h : FirstIsOneLonger values oid) :
    ObjectExists values oid := by
  obtain ⟨entry, hfind, hlength⟩ := h
  obtain ⟨rest, hrest⟩ := isExtension_iff.mp (List.find?_some hfind)
  rw [hrest, List.length_append, Nat.add_left_cancel_iff] at hlength
  obtain ⟨subid, rfl⟩ := List.length_eq_one_iff.mp hlength
  have hobject : entry.oid.subidList.dropLast = oid.subidList := by
    rw [hrest, List.dropLast_concat]
  exact ⟨entry, List.mem_of_find?_eq_some hfind, hobject ▸ List.prefix_refl _⟩

/-- GET answers an absent OID with the exception that the first extension suggests. -/
theorem lookupGet_of_absent (habsent : Absent values oid) :
    (FirstIsOneLonger values oid → lookupGet values oid = .missing mNoSuchInstance) ∧
      (¬ FirstIsOneLonger values oid → lookupGet values oid = .missing mNoSuchObject) := by
  unfold lookupGet FirstIsOneLonger
  rw [mibFind_eq, ← List.find?_eq_getElem?_findIdx]
  cases hfind : values.find? (isExtension oid) with
  | none => simp
  | some entry =>
    obtain ⟨rest, hrest⟩ := isExtension_iff.mp (List.find?_some hfind)
    -- the entry is longer than the OID
    have hne : entry.oid.subidList.length ≠ oid.subidList.length := by
      intro hlength
      rw [hrest, List.length_append, Nat.add_eq_left, List.length_eq_zero_iff] at hlength
      rw [hlength, List.append_nil] at hrest
      exact habsent entry (List.mem_of_find?_eq_some hfind) hrest
    simp only [Option.some.injEq, exists_eq_left', hne, ne_eq, not_false_eq_true, if_true]
    exact ⟨fun h => if_pos h, fun h => if_neg h⟩

/-- One OID: the exception is right exactly if an object that exists shows in the first
    extension. -/
theorem rightException_answerOf_iff :
    RightException values oid (answerOf (lookupGet values) oid) ↔
      (Absent values oid → ObjectExists values oid → FirstIsOneLonger values oid) := by
  have hdistinct : mNoSuchObject ≠ mNoSuchInstance := by decide
  by_cases habsent : Absent values oid
  · obtain ⟨hinstance, hobject⟩ := lookupGet_of_absent habsent
    simp only [habsent, true_implies]
    by_cases hfirst : FirstIsOneLonger values oid
    · rw [(isMissing_of_missing (hinstance hfirst)).2]
      refine iff_of_true ⟨rfl, fun _ _ => rfl, fun _ hnone => ?_⟩ fun _ => hfirst
      exact absurd hfirst.objectExists hnone
    · rw [(isMissing_of_missing (hobject hfirst)).2]
      constructor
      · exact fun hright hexists => absurd (hright.noSuchInstance habsent hexists) hdistinct
      · intro hcond
        exact ⟨rfl, fun _ hexists => absurd (hcond hexists) hfirst, fun _ _ => rfl⟩
  · refine iff_of_true ⟨?_, fun h => absurd h habsent, fun h => absurd h habsent⟩
      fun h => absurd h habsent
    -- the answer carries the OID in any case
    cases hlookup : lookupGet values oid with
    | found entry =>
      rw [(isMissing_of_found hlookup).2]
      exact (lookupGet_found hlookup).2
    | missing exception => rw [(isMissing_of_missing hlookup).2]

end

/-- **Exceptions.** A version 2 GET with at most 16 OIDs answers every OID that is not in the MIB
    with the right exception, exactly if for each of them whose object exists the first entry
    that extends it is one subid longer. -/
theorem handleSnmpGet_exceptions_iff (values : List Value) (request : Request)
    (hversion : request.version = snmpVersion2c) (hroom : request.oidList.length ≤ maxNrOids) :
    ∃ answers, handleSnmpGet values request emptyResponse = .ok ⟨snmpStatusOk, 0, answers⟩ ∧
      (List.Forall₂ (RightException values) request.oidList answers ↔
        ∀ oid ∈ request.oidList, Absent values oid → ObjectExists values oid →
          FirstIsOneLonger values oid) := by
  refine ⟨_, handleSnmpGet_version2c values hversion hroom, ?_⟩
  rw [List.forall₂_map_right_iff, List.forall₂_same]
  exact forall₂_congr fun oid _ => rightException_answerOf_iff

/-- The first entry of the agent: column 1, row 0. -/
def sdkColumn : List Value :=
  [⟨⟨[1, 3, 6, 1, 4, 1, 126, 3, 1, 0], 11⟩, ⟨[0x02, 0x01, 0x00, 0, 0, 0], 6, 3⟩⟩]

/-- A GET for row 99 of column 1. -/
def missingRow : Request :=
  ⟨.ofList [0x70], berTypeSnmpGet, snmpVersion2c, 7, 0, 0,
    [⟨[1, 3, 6, 1, 4, 1, 126, 3, 1, 99], 11⟩]⟩

/-- The column exists, and its missing row is answered with `noSuchObject`. -/
theorem missingRow_noSuchObject :
    (∀ oid ∈ missingRow.oidList, Absent sdkColumn oid ∧ ObjectExists sdkColumn oid) ∧
      handleSnmpGet sdkColumn missingRow emptyResponse =
        .ok ⟨snmpStatusOk, 0, missingRow.oidList.map fun oid => ⟨oid, mNoSuchObject⟩⟩ ∧
      mNoSuchObject ≠ mNoSuchInstance := by
  refine ⟨?_, by rfl, by decide⟩
  simp only [missingRow, List.forall_mem_singleton, Absent, ObjectExists, sdkColumn]
  exact ⟨by decide, ⟨_, List.mem_cons_self, by decide⟩⟩

theorem handleSnmpGet_exceptions_iff_missingRow :
    ∃ answers,
      handleSnmpGet sdkColumn missingRow emptyResponse = .ok ⟨snmpStatusOk, 0, answers⟩ ∧
        (List.Forall₂ (RightException sdkColumn) missingRow.oidList answers ↔
          ∀ oid ∈ missingRow.oidList, Absent sdkColumn oid → ObjectExists sdkColumn oid →
            FirstIsOneLonger sdkColumn oid) :=
  handleSnmpGet_exceptions_iff sdkColumn missingRow rfl (by decide)

end SdkSnmpd
