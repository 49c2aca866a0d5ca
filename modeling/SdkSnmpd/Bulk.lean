import SdkSnmpd.Answers
import SdkSnmpd.Walk
import SdkSnmpd.Lib.Rows

/-!
# GETBULK

A GETBULK request as an abbreviation for GETNEXT requests: one for the non-repeaters, and one
after another for the repeaters.

## Contents

- `nextAnswer`: the GETNEXT answer to one OID.
- `bulkAnswers`: what GETBULK stands for. The rows end with the first one that has found
  nothing, or with the requested number of repetitions.
- `handleSnmpGetbulk_eq`: the handler returns these answers, unless they are too many.
-/

namespace SdkSnmpd

open Lib (row asked rows advance rounds)

/-! ## What GETBULK stands for -/

/-- The GETNEXT answer to one OID in version 2. -/
def nextAnswer (values : List Value) : Oid → Value := answerOf (lookupNext values)

/-- Row `r` consists only of reports that the end of the MIB was reached. -/
def rowEnds (values : List Value) (oids : List Oid) (r : Nat) : Bool :=
  decide (row (nextAnswer values) Value.oid oids r =
    (asked (nextAnswer values) Value.oid oids r).map fun oid => ⟨oid, mEndOfMibView⟩)

/-- The number of non-repeaters: not negative, and no more than there are OIDs. -/
def nonRepeaterCount (request : Request) : Nat :=
  min (max request.nonRepeaters.toInt 0).toNat request.oidList.length

/-- The OIDs that are repeated. -/
def repeaters (request : Request) : List Oid := request.oidList.drop (nonRepeaterCount request)

/-- The number of rows. -/
def rowCount (values : List Value) (request : Request) : Nat :=
  rounds (rowEnds values (repeaters request)) (max request.maxRepetitions.toInt 0).toNat

/-- The answers: those to the non-repeaters, and the rows of those to the repeaters. -/
def bulkAnswers (values : List Value) (request : Request) : List Value :=
  (request.oidList.take (nonRepeaterCount request)).map (nextAnswer values) ++
    rows (nextAnswer values) Value.oid (repeaters request) (rowCount values request)

theorem length_bulkAnswers (values : List Value) (request : Request) :
    (bulkAnswers values request).length =
      nonRepeaterCount request + rowCount values request * (repeaters request).length := by
  have hle : nonRepeaterCount request ≤ request.oidList.length := Nat.min_le_right _ _
  rw [bulkAnswers, List.length_append, List.length_map, List.length_take, Nat.min_eq_left hle,
    Lib.length_rows]

/-! ## One pass -/

section

variable {values : List Value}

/-- The report of the end of the MIB is not mistaken for a value: a value that is found has
    another OID than the one asked. -/
theorem nextAnswer_eq_end_iff (oid : Oid) :
    nextAnswer values oid = ⟨oid, mEndOfMibView⟩ ↔ isMissing (lookupNext values) oid = true := by
  cases hfind : values.find? (isAfter oid) with
  | none =>
    obtain ⟨hmissing, hanswer⟩ := isMissing_of_missing (lookupNext_of_none hfind)
    exact iff_of_true hanswer hmissing
  | some value =>
    obtain ⟨hmissing, hanswer⟩ := isMissing_of_found (lookupNext_of_some hfind)
    have hafter := List.find?_some hfind
    refine iff_of_false (fun hend => ?_) (by simp [hmissing])
    obtain rfl : value = ⟨oid, mEndOfMibView⟩ := hanswer.symm.trans hend
    have hne := @found_ne_endOfMib snmpVersion2c oid _ hafter
    exact hne (by simp [endOfMib, snmpVersion2c, snmpVersion1])

/-- The number of OIDs of a pass that have a successor. -/
def foundCount (values : List Value) (oids : List Oid) : Nat :=
  oids.countP fun oid => !isMissing (lookupNext values) oid

theorem foundCount_eq_zero_iff (oids : List Oid) :
    foundCount values oids = 0 ↔ rowEnds values oids 0 = true := by
  simp only [foundCount, List.countP_eq_zero, rowEnds, decide_eq_true_iff, row, asked,
    List.map_inj_left, nextAnswer_eq_end_iff, Bool.not_eq_true', Bool.not_eq_false]

/-- A pass starts with the GETNEXT answer to its first OID. -/
theorem bulkRow_cons (oid : Oid) (oids : List Oid) (response : Response) :
    bulkRow values (oid :: oids) response =
      (appendValue "could not handle SNMP GETNEXT: value list overflow" response
        (nextAnswer values oid)).bind fun response =>
          (bulkRow values oids response).bind fun r =>
            .ok ((nextAnswer values oid).oid :: r.1,
              r.2.1 + (if isMissing (lookupNext values) oid then 0 else 1), r.2.2) := by
  cases hlookup : lookupNext values oid with
  | found value =>
    obtain ⟨hmissing, hanswer⟩ := isMissing_of_found hlookup
    have hanswer' : nextAnswer values oid = value := hanswer
    simp only [bulkRow, hlookup, hmissing, hanswer', Bool.false_eq_true, if_false]
    rfl
  | missing exception =>
    obtain ⟨hmissing, hanswer⟩ := isMissing_of_missing hlookup
    have hanswer' : nextAnswer values oid = ⟨oid, exception⟩ := hanswer
    simp only [bulkRow, hlookup, hmissing, hanswer', if_true]
    rfl

/-- A pass appends the GETNEXT answers to its OIDs, and leaves the OIDs of the answers. -/
theorem bulkRow_eq (oids : List Oid) (response : Response)
    (h : response.valueList.length ≤ maxNrValues) :
    bulkRow values oids response =
      if response.valueList.length + oids.length ≤ maxNrValues then
        .ok (advance (nextAnswer values) Value.oid oids, foundCount values oids,
          response.append (oids.map (nextAnswer values)))
      else .error (overflow "could not handle SNMP GETNEXT: value list overflow") := by
  induction oids generalizing response with
  | nil => simp [bulkRow, h, advance, foundCount]
  | cons oid oids ih =>
    rw [bulkRow_cons, List.length_cons]
    by_cases hlt : response.valueList.length < maxNrValues
    · have hrest := ih (response.append [nextAnswer values oid])
        (by rw [Response.length_append, List.length_singleton]; omega)
      rw [Response.length_append, List.length_singleton, Nat.add_assoc, Nat.add_comm 1,
        Response.append_append] at hrest
      rw [appendValue_of_lt _ hlt]
      change (bulkRow values oids (response.append [nextAnswer values oid])).bind _ = _
      rw [hrest]
      split
      · cases hmissing : isMissing (lookupNext values) oid <;>
          simp [Except.bind, advance, foundCount, hmissing]
      · rfl
    · -- the value list is full
      have hfull : ¬ response.valueList.length + (oids.length + 1) ≤ maxNrValues := by omega
      rw [if_neg hfull, appendValue_of_ge _ (Nat.not_lt.mp hlt)]
      rfl

/-! ## The repetitions -/

/-- Row `r + 1` ends the repetitions if row `r` does after the first pass. -/
theorem rowEnds_succ (oids : List Oid) (r : Nat) :
    rowEnds values oids (r + 1) =
      rowEnds values (advance (nextAnswer values) Value.oid oids) r := by
  rw [rowEnds, rowEnds, Lib.row_succ, Lib.asked_succ]

/-- The repetitions append the rows up to the first that has found nothing. -/
theorem bulkRows_eq (repetitions : Nat) (oids : List Oid) (response : Response)
    (h : response.valueList.length ≤ maxNrValues) :
    bulkRows values repetitions oids response =
      if response.valueList.length + rounds (rowEnds values oids) repetitions * oids.length ≤
          maxNrValues then
        .ok (response.append (rows (nextAnswer values) Value.oid oids
          (rounds (rowEnds values oids) repetitions)))
      else .error (overflow "could not handle SNMP GETNEXT: value list overflow") := by
  induction repetitions generalizing oids response with
  | zero => simp [bulkRows, rows, h]
  | succ repetitions ih =>
    have hrow := @bulkRow_eq values oids response h
    rw [bulkRows, hrow]
    by_cases hroom : response.valueList.length + oids.length ≤ maxNrValues
    · rw [if_pos hroom]
      change (if foundCount values oids = 0 then _ else _) = _
      by_cases hzero : foundCount values oids = 0
      · -- the first row ends the repetitions
        have hrounds : rounds (rowEnds values oids) (repetitions + 1) = 1 := by
          rw [Lib.rounds_succ, if_pos ((foundCount_eq_zero_iff oids).mp hzero)]
        rw [if_pos hzero, hrounds, Nat.one_mul, if_pos hroom, Lib.rows_succ]
        simp [rows, pure, Except.pure]
      · -- the other rows are those of the OIDs that the first has left
        have hrounds : rounds (rowEnds values oids) (repetitions + 1) =
            rounds (rowEnds values (advance (nextAnswer values) Value.oid oids)) repetitions +
              1 := by
          rw [Lib.rounds_succ, if_neg (mt (foundCount_eq_zero_iff oids).mpr hzero)]
          simp only [rowEnds_succ]
        have hrest := ih (advance (nextAnswer values) Value.oid oids)
          (response.append (oids.map (nextAnswer values)))
          (by rw [Response.length_append, List.length_map]; exact hroom)
        rw [Response.length_append, List.length_map, Lib.length_advance,
          Response.append_append, ← Lib.rows_succ] at hrest
        rw [if_neg hzero, hrounds, Nat.succ_mul, Nat.add_comm _ oids.length, ← Nat.add_assoc]
        exact hrest
    · -- there is no room for the first row
      have hpositive : 1 ≤ rounds (rowEnds values oids) (repetitions + 1) := by
        rw [Lib.rounds_succ]
        split <;> omega
      have hmore := Nat.mul_le_mul_right oids.length hpositive
      rw [if_neg hroom, if_neg (by omega)]
      rfl

end

/-- A negative number counts as 0. -/
theorem toNat_clamp (x : Int32) :
    (if x < 0 then 0 else x).toInt.toNat = (max x.toInt 0).toNat := by
  split
  · rename_i hneg
    have hlt : x.toInt < 0 := Int32.lt_iff_toInt_lt.mp hneg
    rw [max_eq_right (by omega)]
    rfl
  · rename_i hnonneg
    have hge : ¬ x.toInt < 0 := fun h => hnonneg (Int32.lt_iff_toInt_lt.mpr h)
    rw [max_eq_left (by omega)]

/-! ## GETBULK as iterated GETNEXT -/

/-- GETBULK returns the answers it stands for, unless they are too many. -/
theorem handleSnmpGetbulk_eq (values : List Value) (request : Request)
    (hroom : request.oidList.length ≤ maxNrValues) :
    handleSnmpGetbulk values request emptyResponse =
      if (bulkAnswers values request).length ≤ maxNrValues then
        .ok ⟨snmpStatusOk, 0, bulkAnswers values request⟩
      else .error (overflow "could not handle SNMP GETNEXT: value list overflow") := by
  -- more non-repeaters than OIDs are as many as there are
  have htake : request.oidList.take (max request.nonRepeaters.toInt 0).toNat =
      request.oidList.take (nonRepeaterCount request) := by
    rw [nonRepeaterCount, List.take_eq_take_iff]
    omega
  have hdrop : request.oidList.drop (max request.nonRepeaters.toInt 0).toNat =
      repeaters request := by
    rw [repeaters, nonRepeaterCount, List.drop_eq_drop_iff]
    omega
  have hfirst := @bulkRow_eq values
    (request.oidList.take (nonRepeaterCount request)) emptyResponse (Nat.zero_le _)
  have hle : nonRepeaterCount request ≤ request.oidList.length := Nat.min_le_right _ _
  have hlength : (request.oidList.take (nonRepeaterCount request)).length =
      nonRepeaterCount request := by
    rw [List.length_take, Nat.min_eq_left hle]
  -- the answers to the non-repeaters always have room
  rw [hlength, if_pos (by simp only [emptyResponse, List.length_nil]; omega)] at hfirst
  have hrest := @bulkRows_eq values (max request.maxRepetitions.toInt 0).toNat
    (repeaters request)
    (emptyResponse.append ((request.oidList.take (nonRepeaterCount request)).map
      (nextAnswer values)))
    (by rw [Response.length_append, List.length_map, hlength]
        simp only [emptyResponse, List.length_nil]
        omega)
  rw [handleSnmpGetbulk, toNat_clamp, toNat_clamp, htake, hdrop, hfirst]
  change bulkRows _ _ _ _ = _
  rw [hrest, Response.length_append, Response.append_append, List.length_map, hlength,
    length_bulkAnswers]
  simp only [emptyResponse, List.length_nil, Nat.zero_add]
  rfl

/-- A version 2 GETNEXT answers every OID. -/
theorem handleSnmpGetnext_version2c (values : List Value) (request : Request)
    (hversion : request.version = snmpVersion2c) (hroom : request.oidList.length ≤ maxNrOids) :
    handleSnmpGetnext values request emptyResponse =
      .ok ⟨snmpStatusOk, 0, request.oidList.map (nextAnswer values)⟩ := by
  rw [handleSnmpGetnext, hversion,
    answerLoop_of_ne_version1 (by decide) _ _ _ (room_of_oids hroom)]
  simp [emptyResponse, Response.append, nextAnswer]

/-- **GETBULK equals iterated GETNEXT.** With `n` OIDs, `N` non-repeaters and `k` rows, GETBULK
    returns the GETNEXT answers to the first `N` OIDs and then `k` rows of answers to the other
    OIDs, where each row asks for the successors of the OIDs of the row before. It fails exactly
    if these are more values than a response holds. -/
theorem handleSnmpGetbulk_iterates (values : List Value) (request : Request)
    (hroom : request.oidList.length ≤ maxNrOids) :
    (∀ next : Request, next.version = snmpVersion2c → next.oidList.length ≤ maxNrOids →
      handleSnmpGetnext values next emptyResponse =
        .ok ⟨snmpStatusOk, 0, next.oidList.map (nextAnswer values)⟩) ∧
    handleSnmpGetbulk values request emptyResponse =
      if nonRepeaterCount request +
          rowCount values request * (request.oidList.length - nonRepeaterCount request) ≤
          maxNrValues then
        .ok ⟨snmpStatusOk, 0, bulkAnswers values request⟩
      else .error (overflow "could not handle SNMP GETNEXT: value list overflow") := by
  have hle := hroom.trans maxNrOids_le_maxNrValues
  refine ⟨fun next hversion hnext => handleSnmpGetnext_version2c values next hversion hnext, ?_⟩
  rw [handleSnmpGetbulk_eq values request hle, length_bulkAnswers, repeaters, List.length_drop]

/-- A GETBULK with one non-repeater and one repeater in the MIB of two nested entries. -/
theorem handleSnmpGetbulk_iterates_nestedValues :
    (∀ next : Request, next.version = snmpVersion2c → next.oidList.length ≤ maxNrOids →
      handleSnmpGetnext nestedValues next emptyResponse =
        .ok ⟨snmpStatusOk, 0, next.oidList.map (nextAnswer nestedValues)⟩) ∧
    handleSnmpGetbulk nestedValues
        ⟨⟨[0x70], by decide⟩, berTypeSnmpGetbulk, snmpVersion2c, 7, 1, 10,
          [⟨[1, 3, 6], 4⟩, ⟨[1, 3], 3⟩]⟩ emptyResponse =
      .ok ⟨snmpStatusOk, 0,
        [⟨⟨[1, 3, 6, 1], 5⟩, ⟨[0x02, 0x01, 0x06], 3, 3⟩⟩,
          ⟨⟨[1, 3, 6], 4⟩, ⟨[0x02, 0x01, 0x05], 3, 3⟩⟩,
          ⟨⟨[1, 3, 6, 1], 5⟩, ⟨[0x02, 0x01, 0x06], 3, 3⟩⟩,
          ⟨⟨[1, 3, 6, 1], 5⟩, mEndOfMibView⟩]⟩ := by
  have h := handleSnmpGetbulk_iterates nestedValues
    ⟨⟨[0x70], by decide⟩, berTypeSnmpGetbulk, snmpVersion2c, 7, 1, 10,
      [⟨[1, 3, 6], 4⟩, ⟨[1, 3], 3⟩]⟩ (by decide)
  refine ⟨h.1, h.2.trans ?_⟩
  rfl

end SdkSnmpd
