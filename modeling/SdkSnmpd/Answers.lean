import SdkSnmpd.Handlers

/-!
# The Answers to GET and GETNEXT

What the loop of GET and GETNEXT makes of a list of OIDs, and what GET finds in a MIB that is
in order.

## Contents

- `answerOf`: the value that answers one OID in version 2.
- `answerLoop_of_ne_version1`: in version 2 every OID is answered.
- `answerLoop_version1`: in version 1 the loop ends at the first OID without a match.
- `handleSnmpGet_exact`: GET answers with the stored instances.
-/

namespace SdkSnmpd

open Lib (Ascending)

/-! ## The loop -/

/-- The value that answers an OID in version 2: the value found, or the OID with the
    exception. -/
def answerOf (lookup : Oid → Lookup) (oid : Oid) : Value :=
  match lookup oid with
  | .found value => value
  | .missing exception => ⟨oid, exception⟩

/-- The search has no match. -/
def isMissing (lookup : Oid → Lookup) (oid : Oid) : Bool :=
  match lookup oid with
  | .found _ => false
  | .missing _ => true

/-- Append values to the value list. -/
def Response.append (response : Response) (values : List Value) : Response :=
  { response with valueList := response.valueList ++ values }

@[simp] theorem Response.append_nil (response : Response) : response.append [] = response := by
  simp [Response.append]

@[simp] theorem Response.append_append (response : Response) (xs ys : List Value) :
    (response.append xs).append ys = response.append (xs ++ ys) := by
  simp [Response.append]

@[simp] theorem Response.length_append (response : Response) (xs : List Value) :
    (response.append xs).valueList.length = response.valueList.length + xs.length := by
  simp [Response.append]

theorem appendValue_of_lt {message : String} {response : Response} (value : Value)
    (h : response.valueList.length < maxNrValues) :
    appendValue message response value = .ok (response.append [value]) := if_pos h

theorem appendValue_of_ge {message : String} {response : Response} (value : Value)
    (h : maxNrValues ≤ response.valueList.length) :
    appendValue message response value = .error (overflow message) := if_neg (Nat.not_lt.mpr h)

theorem room_of_oids {oids : List Oid} (h : oids.length ≤ maxNrOids) :
    emptyResponse.valueList.length + oids.length ≤ maxNrValues := by
  simpa [emptyResponse] using h.trans maxNrOids_le_maxNrValues

section

variable {lookup : Oid → Lookup} {message : String}

theorem isMissing_of_found {oid : Oid} {value : Value} (h : lookup oid = .found value) :
    isMissing lookup oid = false ∧ answerOf lookup oid = value := by
  simp [isMissing, answerOf, h]

theorem isMissing_of_missing {oid : Oid} {exception : Data} (h : lookup oid = .missing exception) :
    isMissing lookup oid = true ∧ answerOf lookup oid = ⟨oid, exception⟩ := by
  simp [isMissing, answerOf, h]

/-- An OID with a match adds its value, whatever the version. -/
theorem answerLoop_cons_found {version : Int32} {oid : Oid} (h : isMissing lookup oid = false)
    (i : Nat) (oids : List Oid) {response : Response}
    (hroom : response.valueList.length < maxNrValues) :
    answerLoop lookup message version i (oid :: oids) response =
      answerLoop lookup message version (i + 1) oids (response.append [answerOf lookup oid]) := by
  cases hlookup : lookup oid with
  | found value =>
    rw [(isMissing_of_found hlookup).2]
    simp only [answerLoop, hlookup, appendValue_of_lt value hroom]
    rfl
  | missing exception =>
    rw [(isMissing_of_missing hlookup).1] at h
    cases h

/-- In version 2 every OID is answered, with its value or with an exception. -/
theorem answerLoop_of_ne_version1 {version : Int32} (hversion : version ≠ snmpVersion1)
    (oids : List Oid) (i : Nat) (response : Response)
    (hroom : response.valueList.length + oids.length ≤ maxNrValues) :
    answerLoop lookup message version i oids response =
      .ok (response.append (oids.map (answerOf lookup))) := by
  induction oids generalizing i response with
  | nil => simp [answerLoop]
  | cons oid oids ih =>
    rw [List.length_cons] at hroom
    have hlt : response.valueList.length < maxNrValues := by omega
    have hrest := ih (i + 1) (response.append [answerOf lookup oid])
      (by rw [Response.length_append, List.length_singleton]; omega)
    rw [Response.append_append] at hrest
    cases hlookup : lookup oid with
    | found value =>
      rw [answerLoop_cons_found (isMissing_of_found hlookup).1 i oids hlt, hrest]
      rfl
    | missing exception =>
      rw [(isMissing_of_missing hlookup).2] at hrest
      simp only [answerLoop, hlookup, if_neg hversion, appendValue_of_lt _ hlt, List.map_cons,
        (isMissing_of_missing hlookup).2]
      exact hrest

/-- In version 1 the loop answers the OIDs up to the first without a match. There it stops,
    with the index of that OID counted from 0. -/
theorem answerLoop_version1 (oids : List Oid) (i : Nat) (response : Response)
    (hroom : response.valueList.length + oids.length ≤ maxNrValues) :
    answerLoop lookup message snmpVersion1 i oids response =
      if oids.findIdx (isMissing lookup) < oids.length then
        .ok { response.append ((oids.take (oids.findIdx (isMissing lookup))).map
            (answerOf lookup)) with
          errorStatus := snmpStatusNoSuchName
          errorIndex := Int32.ofNat (i + oids.findIdx (isMissing lookup)) }
      else .ok (response.append (oids.map (answerOf lookup))) := by
  induction oids generalizing i response with
  | nil => simp [answerLoop]
  | cons oid oids ih =>
    rw [List.length_cons] at hroom
    have hlt : response.valueList.length < maxNrValues := by omega
    rw [List.findIdx_cons]
    cases hlookup : lookup oid with
    | found value =>
      obtain ⟨hmissing, hanswer⟩ := isMissing_of_found hlookup
      rw [answerLoop_cons_found hmissing i oids hlt, ih (i + 1) _
        (by rw [Response.length_append, List.length_singleton]; omega)]
      simp only [hmissing, cond_false, List.length_cons, Nat.add_lt_add_iff_right,
        List.take_succ_cons, List.map_cons, Response.append_append, List.singleton_append,
        show i + 1 + oids.findIdx (isMissing lookup) =
          i + (oids.findIdx (isMissing lookup) + 1) by omega]
    | missing exception =>
      -- the first OID without a match
      rw [(isMissing_of_missing hlookup).1]
      simp [answerLoop, hlookup]

end

/-! ## GET in a MIB that is in order -/

/-- The entry has the OID, or an extension of it. -/
def isExtension (oid : Oid) (value : Value) : Bool :=
  decide (value.oid.subidList.length ≥ oid.subidList.length) &&
    decide (value.oid.subidList.take oid.subidList.length = oid.subidList)

theorem mibFind_eq (values : List Value) (oid : Oid) :
    mibFind values oid = values.findIdx (isExtension oid) := rfl

theorem isExtension_iff {oid : Oid} {value : Value} :
    isExtension oid value = true ↔ ∃ rest, value.oid.subidList = oid.subidList ++ rest := by
  rw [isExtension, Bool.and_eq_true, decide_eq_true_iff, decide_eq_true_iff]
  constructor
  · rintro ⟨-, htake⟩
    have hsplit := List.take_append_drop oid.subidList.length value.oid.subidList
    rw [htake] at hsplit
    exact ⟨_, hsplit.symm⟩
  · rintro ⟨rest, heq⟩
    simp [heq]

/-- The entry that is found is an extension of the OID. -/
theorem isExtension_of_mibFind {values : List Value} {oid : Oid} {entry : Value}
    (h : values[mibFind values oid]? = some entry) : isExtension oid entry = true := by
  rw [mibFind_eq] at h
  obtain ⟨hlt, rfl⟩ := List.getElem?_eq_some_iff.mp h
  exact List.findIdx_getElem

/-- An extension of a sequence is not smaller. -/
theorem not_append_lt (xs ys : List Nat) : ¬ xs ++ ys < xs := by
  induction xs with
  | nil => exact List.not_lt_nil ys
  | cons x xs ih =>
    rw [List.cons_append, List.cons_lt_cons_iff]
    rintro (hlt | ⟨-, hlt⟩)
    · exact Nat.lt_irrefl x hlt
    · exact ih hlt

/-- The answer to a requested OID: it carries that OID, and the data stored under it, or an
    exception if there is none. -/
structure ExactAnswer (values : List Value) (oid : Oid) (answer : Value) : Prop where
  named : answer.oid.subidList = oid.subidList
  stored : ∀ entry ∈ values, entry.oid.subidList = oid.subidList → answer.data = entry.data
  absent : (∀ entry ∈ values, entry.oid.subidList ≠ oid.subidList) →
    answer.data = mNoSuchObject ∨ answer.data = mNoSuchInstance

section

variable {values : List Value} {oid : Oid}

/-- A value that GET finds is stored under the requested OID. -/
theorem lookupGet_found {entry : Value} (h : lookupGet values oid = .found entry) :
    entry ∈ values ∧ entry.oid.subidList = oid.subidList := by
  unfold lookupGet at h
  cases hfind : values[mibFind values oid]? with
  | none => rw [hfind] at h; cases h
  | some found =>
    rw [hfind] at h
    simp only at h
    split_ifs at h with hinstance hlength
    cases h
    obtain ⟨rest, hrest⟩ := isExtension_iff.mp (isExtension_of_mibFind hfind)
    refine ⟨List.mem_of_getElem? hfind, ?_⟩
    -- an extension of the same length
    have hsame := congrArg List.length hrest
    rw [not_not.mp hlength, List.length_append] at hsame
    obtain rfl : rest = [] := List.length_eq_zero_iff.mp (by omega)
    rw [hrest, List.append_nil]

/-- The exceptions of GET. -/
theorem lookupGet_missing {exception : Data} (h : lookupGet values oid = .missing exception) :
    exception = mNoSuchObject ∨ exception = mNoSuchInstance := by
  unfold lookupGet at h
  cases hfind : values[mibFind values oid]? with
  | none =>
    rw [hfind] at h
    cases h
    exact .inl rfl
  | some found =>
    rw [hfind] at h
    simp only at h
    split_ifs at h
    · cases h
      exact .inr rfl
    · cases h
      exact .inl rfl

/-- In a MIB that ascends, the entry with the requested OID comes before its extensions, so
    that the search stops there. -/
theorem lookupGet_of_mem (hasc : Ascending (fun value => value.oid.name) values) {entry : Value}
    (hentry : entry ∈ values) (hoid : entry.oid.subidList = oid.subidList) :
    lookupGet values oid = .found entry := by
  obtain ⟨j, hj, rfl⟩ := List.mem_iff_getElem.mp hentry
  have hindex : mibFind values oid = j := by
    rw [mibFind_eq, List.findIdx_eq hj]
    refine ⟨isExtension_iff.mpr ⟨[], by rw [hoid, List.append_nil]⟩, fun i hi => ?_⟩
    rw [Bool.eq_false_iff]
    intro hext
    obtain ⟨rest, hrest⟩ := isExtension_iff.mp hext
    have hlt : values[i].oid.name < values[j].oid.name :=
      List.pairwise_iff_getElem.mp hasc i j (by omega) hj hi
    rw [Oid.name, Oid.name, hrest, hoid, List.map_append] at hlt
    exact not_append_lt _ _ hlt
  rw [lookupGet, hindex, List.getElem?_eq_getElem hj]
  simp [hoid]

/-- GET answers one OID exactly. -/
theorem exactAnswer_lookupGet (hasc : Ascending (fun value => value.oid.name) values) :
    ExactAnswer values oid (answerOf (lookupGet values) oid) := by
  cases hlookup : lookupGet values oid with
  | found entry =>
    obtain ⟨hmem, hoid⟩ := lookupGet_found hlookup
    rw [(isMissing_of_found hlookup).2]
    refine ⟨hoid, fun other hother hsame => ?_, fun habsent => absurd hoid (habsent entry hmem)⟩
    have hagain := lookupGet_of_mem hasc hother hsame
    rw [hlookup] at hagain
    cases hagain
    rfl
  | missing exception =>
    rw [(isMissing_of_missing hlookup).2]
    refine ⟨rfl, fun entry hentry hsame => ?_, fun _ => lookupGet_missing hlookup⟩
    rw [lookupGet_of_mem hasc hentry hsame] at hlookup
    cases hlookup

end

/-- A version 2 GET with at most 16 OIDs answers each of them by itself. -/
theorem handleSnmpGet_version2c (values : List Value) {request : Request}
    (hversion : request.version = snmpVersion2c) (hroom : request.oidList.length ≤ maxNrOids) :
    handleSnmpGet values request emptyResponse =
      .ok ⟨snmpStatusOk, 0, request.oidList.map (answerOf (lookupGet values))⟩ := by
  rw [handleSnmpGet, hversion, answerLoop_of_ne_version1 (by decide) _ _ _ (room_of_oids hroom)]
  simp [emptyResponse, Response.append]

/-- **GET returns the stored instances.** In a MIB that ascends lexicographically, a version 2
    GET with at most 16 OIDs returns 0 and one value for each OID, in their order: the data
    stored under that OID, or one of the two exceptions if there is none. -/
theorem handleSnmpGet_exact (values : List Value)
    (hasc : Ascending (fun value => value.oid.name) values) (request : Request)
    (hversion : request.version = snmpVersion2c) (hroom : request.oidList.length ≤ maxNrOids) :
    ∃ answers, handleSnmpGet values request emptyResponse = .ok ⟨snmpStatusOk, 0, answers⟩ ∧
      List.Forall₂ (ExactAnswer values) request.oidList answers := by
  refine ⟨_, handleSnmpGet_version2c values hversion hroom, ?_⟩
  rw [List.forall₂_map_right_iff, List.forall₂_same]
  exact fun oid _ => exactAnswer_lookupGet hasc

/-- The entries `.1.3.6` and `.1.3.6.1`. -/
def nestedValues : List Value :=
  [⟨⟨[1, 3, 6], 4⟩, ⟨[0x02, 0x01, 0x05], 3, 3⟩⟩, ⟨⟨[1, 3, 6, 1], 5⟩, ⟨[0x02, 0x01, 0x06], 3, 3⟩⟩]

theorem ascending_nestedValues : Ascending (fun value => value.oid.name) nestedValues := by
  refine List.pairwise_cons.mpr ⟨?_, List.pairwise_singleton _ _⟩
  decide

theorem handleSnmpGet_exact_nestedValues :
    ∃ answers,
      handleSnmpGet nestedValues
          ⟨⟨[0x70], by decide⟩, berTypeSnmpGet, snmpVersion2c, 7, 0, 0,
            [⟨[1, 3, 6], 4⟩, ⟨[1, 3], 3⟩]⟩ emptyResponse =
        .ok ⟨snmpStatusOk, 0, answers⟩ ∧
      List.Forall₂ (ExactAnswer nestedValues) [⟨[1, 3, 6], 4⟩, ⟨[1, 3], 3⟩] answers :=
  handleSnmpGet_exact nestedValues ascending_nestedValues
    ⟨⟨[0x70], by decide⟩, berTypeSnmpGet, snmpVersion2c, 7, 0, 0, [⟨[1, 3, 6], 4⟩, ⟨[1, 3], 3⟩]⟩
    rfl (by decide)

end SdkSnmpd
