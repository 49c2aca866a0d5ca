import SdkSnmpd.Handlers

/-!
# Walking the MIB

A manager that asks for the successor of an OID, then for the successor of the OID it was
given, and so on, until the agent reports the end of the MIB.

## Contents

- `walk`: the conversation, each OID asked with the answer of `handleSnmpGetnext`.
- `conversation`: the conversation that visits a list of values and ends.
- `walk_eq_conversation`: the walk visits the entries beyond its start, each once.
-/

namespace SdkSnmpd

open Lib (Ascending isBeyond)

/-! ## The walk -/

/-- The report that no OID follows: an error in version 1, else the queried OID with the
    end-of-MIB exception. -/
def endOfMib (version : Int32) (oid : Oid) : Response :=
  if version = snmpVersion1 then ⟨snmpStatusNoSuchName, 0, []⟩
  else ⟨snmpStatusOk, 0, [⟨oid, mEndOfMibView⟩]⟩

/-- The answer to a GETNEXT request for a single OID. -/
def askNext (values : List Value) (request : Request) (oid : Oid) : Except Failure Response :=
  handleSnmpGetnext values { request with oidList := [oid] } emptyResponse

/-- At most so many requests: ask, and go on with the OID of the answer unless it is the end
    of the MIB. -/
def walk (values : List Value) (request : Request) :
    (requests : Nat) → Oid → List (Oid × Except Failure Response)
  | 0, _ => []
  | requests + 1, oid =>
      (oid, askNext values request oid) ::
        match askNext values request oid with
        | .error _ => []
        | .ok response =>
            if response = endOfMib request.version oid then []
            else match response.valueList with
              | [value] => walk values request requests value.oid
              | _ => []

/-- The conversation in which the answers are the given values one by one, and then the end
    of the MIB. -/
def conversation (version : Int32) : Oid → List Value → List (Oid × Except Failure Response)
  | oid, [] => [(oid, .ok (endOfMib version oid))]
  | oid, value :: values =>
      (oid, .ok ⟨snmpStatusOk, 0, [value]⟩) :: conversation version value.oid values

/-! ## One request -/

section

variable {values : List Value}

/-- The entries that `oid_cmp` puts after an OID, as the search tests them. -/
def isAfter (oid : Oid) (value : Value) : Bool := decide (oidCmp value.oid oid > 0)

theorem isAfter_eq (oid : Oid) :
    isAfter oid = isBeyond (fun value => oidKey value.oid) (oidKey oid) := by
  funext value
  exact decide_eq_decide.mpr (oidCmp_pos_iff value.oid oid)

theorem lookupNext_of_some {oid : Oid} {value : Value}
    (h : values.find? (isAfter oid) = some value) : lookupNext values oid = .found value := by
  have hget := List.find?_eq_getElem?_findIdx.symm.trans h
  have hindex : mibFindnext values oid = values.findIdx (isAfter oid) := rfl
  rw [lookupNext, hindex, hget]

theorem lookupNext_of_none {oid : Oid} (h : values.find? (isAfter oid) = none) :
    lookupNext values oid = .missing mEndOfMibView := by
  have hget := List.find?_eq_getElem?_findIdx.symm.trans h
  have hindex : mibFindnext values oid = values.findIdx (isAfter oid) := rfl
  rw [lookupNext, hindex, hget]

theorem askNext_of_found (request : Request) {oid : Oid} {value : Value}
    (h : lookupNext values oid = .found value) :
    askNext values request oid = .ok ⟨snmpStatusOk, 0, [value]⟩ := by
  simp only [askNext, handleSnmpGetnext, answerLoop, h]
  rfl

theorem askNext_of_missing (request : Request) {oid : Oid}
    (h : lookupNext values oid = .missing mEndOfMibView) :
    askNext values request oid = .ok (endOfMib request.version oid) := by
  simp only [askNext, handleSnmpGetnext, answerLoop, h, endOfMib]
  split_ifs <;> rfl

/-- A value that is found is not mistaken for the end of the MIB: it has another OID than
    the one asked. -/
theorem found_ne_endOfMib {version : Int32} {oid : Oid} {value : Value}
    (h : isAfter oid value = true) :
    (⟨snmpStatusOk, 0, [value]⟩ : Response) ≠ endOfMib version oid := by
  have hafter : oidKey oid < oidKey value.oid := by
    rw [isAfter_eq] at h
    exact Lib.isBeyond_iff.mp h
  intro heq
  unfold endOfMib at heq
  split at heq
  · -- version 1 reports an error
    exact absurd (congrArg Response.errorStatus heq)
      (show ¬ snmpStatusOk = snmpStatusNoSuchName by decide)
  · obtain rfl : value = ⟨oid, mEndOfMibView⟩ := by simpa using congrArg Response.valueList heq
    exact List.lt_irrefl _ hafter

/-! ## The whole walk -/

/-- The walk is the conversation about the entries beyond its start. The induction is on the
    requests: each answer uses up one entry. -/
theorem walk_eq (hasc : Ascending (fun value => oidKey value.oid) values) (request : Request)
    (requests : Nat) (oid : Oid) (h : (values.filter (isAfter oid)).length < requests) :
    walk values request requests oid =
      conversation request.version oid (values.filter (isAfter oid)) := by
  induction requests generalizing oid with
  | zero => exact absurd h (Nat.not_lt_zero _)
  | succ requests ih =>
    rw [walk]
    cases hfind : values.find? (isAfter oid) with
    | none =>
      -- nothing is beyond the OID: the walk ends
      have hnil : values.filter (isAfter oid) = [] := by
        rw [isAfter_eq] at hfind ⊢
        exact Lib.beyond_eq_nil hfind
      rw [askNext_of_missing request (lookupNext_of_none hfind), hnil]
      simp [conversation]
    | some value =>
      -- the first entry beyond the OID, and what is beyond that entry
      have hcons : values.filter (isAfter oid) = value :: values.filter (isAfter value.oid) := by
        rw [isAfter_eq] at hfind ⊢
        rw [isAfter_eq]
        exact Lib.beyond_eq_cons hasc hfind
      have hafter := List.find?_some hfind
      rw [askNext_of_found request (lookupNext_of_some hfind), hcons, conversation]
      simp only [if_neg (found_ne_endOfMib hafter)]
      rw [ih value.oid (by rw [hcons] at h; exact Nat.lt_of_succ_lt_succ h)]

theorem length_conversation (version : Int32) (oid : Oid) (answers : List Value) :
    (conversation version oid answers).length = answers.length + 1 := by
  induction answers generalizing oid with
  | nil => rfl
  | cons value answers ih => rw [conversation, List.length_cons, List.length_cons, ih]

/-- Every exchange of the walk is a request with its answer. -/
theorem answer_of_mem_walk {request : Request} {requests : Nat} {oid asked : Oid}
    {answer : Except Failure Response} (h : (asked, answer) ∈ walk values request requests oid) :
    answer = askNext values request asked := by
  induction requests generalizing oid with
  | zero => exact absurd h List.not_mem_nil
  | succ requests ih =>
    rw [walk] at h
    rcases List.mem_cons.mp h with hfirst | hlater
    · cases hfirst
      rfl
    · -- a later exchange belongs to the walk from the OID found
      split at hlater
      · exact absurd hlater List.not_mem_nil
      · split at hlater
        · exact absurd hlater List.not_mem_nil
        · split at hlater
          · exact ih hlater
          · exact absurd hlater List.not_mem_nil

/-- A value in an answer lies beyond the OID asked, or is the report that there is none. -/
theorem askNext_value {request : Request} {oid : Oid} {response : Response}
    (hanswer : askNext values request oid = .ok response) {value : Value}
    (h : value ∈ response.valueList) : oidCmp value.oid oid > 0 ∨ value = ⟨oid, mEndOfMibView⟩ := by
  cases hfind : values.find? (isAfter oid) with
  | none =>
    rw [askNext_of_missing request (lookupNext_of_none hfind)] at hanswer
    cases hanswer
    unfold endOfMib at h
    split at h
    · exact absurd h List.not_mem_nil
    · exact .inr (List.mem_singleton.mp h)
  | some found =>
    rw [askNext_of_found request (lookupNext_of_some hfind)] at hanswer
    cases hanswer
    obtain rfl : value = found := List.mem_singleton.mp h
    have hafter : isAfter oid value = true := List.find?_some hfind
    exact .inl (of_decide_eq_true hafter)

end

/-- **The GETNEXT walk.** In a MIB that ascends under `oid_cmp`, and from every start, the
    walk visits the entries after the start in the order of the MIB, each once and with its
    value, and then reports the end of the MIB, within one request more than the MIB has
    entries. No answer carries an OID that is not after the one asked. -/
theorem walk_eq_conversation (mib : Mib)
    (hasc : mib.values.Pairwise fun value value' => oidCmp value.oid value'.oid < 0)
    (request : Request) (start : Oid) :
    (∀ requests, mib.values.length + 1 ≤ requests →
      walk mib.values request requests start = conversation request.version start
        (mib.values.filter fun value => decide (oidCmp value.oid start > 0))) ∧
    (conversation request.version start
      (mib.values.filter fun value => decide (oidCmp value.oid start > 0))).length ≤
        mib.values.length + 1 ∧
    ∀ requests asked response, (asked, .ok response) ∈ walk mib.values request requests start →
      ∀ value ∈ response.valueList,
        oidCmp value.oid asked > 0 ∨ value = ⟨asked, mEndOfMibView⟩ := by
  -- ascending under `oid_cmp` is ascending in the keys of the loop
  have hkeys : Ascending (fun value => oidKey value.oid) mib.values :=
    hasc.imp fun h => (oidCmp_neg_iff _ _).mp h
  have hlength := List.length_filter_le (isAfter start) mib.values
  refine ⟨fun requests hrequests => ?_, ?_, ?_⟩
  · exact walk_eq hkeys request requests start (by omega)
  · rw [length_conversation]
    exact Nat.succ_le_succ hlength
  · intro requests asked response hmem value hvalue
    exact askNext_value (answer_of_mem_walk hmem).symm hvalue

/-- A MIB with the entries `.1.3.6.1` and `.1.3.6.2`. -/
def twoEntryMib : Mib where
  values := [⟨⟨[1, 3, 6, 1], 5⟩, ⟨[0x02, 0x01, 0x05], 3, 3⟩⟩,
    ⟨⟨[1, 3, 6, 2], 5⟩, ⟨[0x02, 0x01, 0x06], 3, 3⟩⟩]
  room := by decide
  entries := by
    intro value h
    rcases List.mem_cons.mp h with rfl | h
    · exact ⟨by decide, by decide, by decide, by decide⟩
    · obtain rfl := List.mem_singleton.mp h
      exact ⟨by decide, by decide, by decide, by decide⟩

theorem walk_eq_conversation_twoEntryMib :
    walk twoEntryMib.values ⟨⟨[0x70], by decide⟩, berTypeSnmpGetnext, snmpVersion1, 7, 0, 0, []⟩ 3
        ⟨[1, 3], 3⟩ =
      conversation snmpVersion1 ⟨[1, 3], 3⟩ twoEntryMib.values :=
  (walk_eq_conversation twoEntryMib (by decide)
    ⟨⟨[0x70], by decide⟩, berTypeSnmpGetnext, snmpVersion1, 7, 0, 0, []⟩ ⟨[1, 3], 3⟩).1
    3 (by decide)

end SdkSnmpd
