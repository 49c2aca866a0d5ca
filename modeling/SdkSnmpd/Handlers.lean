import SdkSnmpd.Mib

/-!
# The Request Handlers

The four handlers of `protocol.c`. Each works through the OID list of the request and
appends values to the response. `mib_find` and `mib_findnext` never return -1, so the test for
it has no counterpart here.

## Contents

- `Lookup`: what a search has to say about one OID.
- `handleSnmpGet`, `handleSnmpGetnext`, `handleSnmpSet`, `handleSnmpGetbulk`.
- `ValuesFrom`: every handler appends values of the MIB, and exceptions for OIDs of the
  request or of the MIB (`handleSnmpGetbulk_valuesFrom` and
  its siblings).
-/

namespace SdkSnmpd

/-- The response that the handlers start from: they only change non-defaults. -/
def emptyResponse : Response := ⟨snmpStatusOk, 0, []⟩

/-! ## One OID -/

/-- The outcome of a search: a value of the MIB, or the exception to report in its place. -/
inductive Lookup where
  | found (value : Value)
  | missing (exception : Data)

/-- The search of GET. If the length does not match, a subid of the requested OID might have
    been found (table cell of table column). -/
def lookupGet (values : List Value) (oid : Oid) : Lookup :=
  match values[mibFind values oid]? with
  | none => .missing mNoSuchObject
  | some entry =>
      if entry.oid.subidList.length = oid.subidList.length + 1 then .missing mNoSuchInstance
      else if entry.oid.subidList.length ≠ oid.subidList.length then .missing mNoSuchObject
      else .found entry

/-- The search of GETNEXT and GETBULK. -/
def lookupNext (values : List Value) (oid : Oid) : Lookup :=
  match values[mibFindnext values oid]? with
  | none => .missing mEndOfMibView
  | some entry => .found entry

/-- Append a value to the response if there is room. -/
def appendValue (message : String) (response : Response) (value : Value) :
    Except Failure Response :=
  if response.valueList.length < maxNrValues then
    .ok { response with valueList := response.valueList ++ [value] }
  else
    .error (overflow message)

/-! ## The handlers -/

/-- The loop of GET and GETNEXT over the OIDs from index `i` on. -/
def answerLoop (lookup : Oid → Lookup) (message : String) (version : Int32) :
    (i : Nat) → List Oid → Response → Except Failure Response
  | _, [], response => .ok response
  | i, oid :: oids, response =>
      match lookup oid with
      | .missing exception =>
          if version = snmpVersion1 then
            .ok { response with
              errorStatus := snmpStatusNoSuchName, errorIndex := Int32.ofNat i }
          else do
            let response ← appendValue message response ⟨oid, exception⟩
            answerLoop lookup message version (i + 1) oids response
      | .found value => do
          let response ← appendValue message response value
          answerLoop lookup message version (i + 1) oids response

def handleSnmpGet (values : List Value) (request : Request) (response : Response) :
    Except Failure Response :=
  answerLoop (lookupGet values) "could not handle SNMP GET: value list overflow"
    request.version 0 request.oidList response

def handleSnmpGetnext (values : List Value) (request : Request) (response : Response) :
    Except Failure Response :=
  answerLoop (lookupNext values) "could not handle SNMP GETNEXT: value list overflow"
    request.version 0 request.oidList response

def handleSnmpSet (request : Request) (response : Response) : Except Failure Response :=
  .ok { response with
    errorStatus := if request.version = snmpVersion1 then snmpStatusNoSuchName
      else snmpStatusNoAccess
    errorIndex := 0 }

/-- One pass over the OIDs of a GETBULK: the successors are appended and take the place of
    the OIDs. Returns the OIDs, the number of successors found, and the response. -/
def bulkRow (values : List Value) :
    List Oid → Response → Except Failure (List Oid × Nat × Response)
  | [], response => .ok ([], 0, response)
  | oid :: oids, response =>
      match lookupNext values oid with
      | .missing exception => do
          let response ← appendValue "could not handle SNMP GETNEXT: value list overflow"
            response ⟨oid, exception⟩
          let (oids, found, response) ← bulkRow values oids response
          pure (oid :: oids, found, response)
      | .found value => do
          let response ← appendValue "could not handle SNMP GETNEXT: value list overflow"
            response value
          let (oids, found, response) ← bulkRow values oids response
          pure (value.oid :: oids, found + 1, response)

/-- The repetitions, aborted as soon as no successor is found for any OID. -/
def bulkRows (values : List Value) : (repetitions : Nat) → List Oid → Response →
    Except Failure Response
  | 0, _, response => .ok response
  | repetitions + 1, oids, response => do
      let (oids, found, response) ← bulkRow values oids response
      if found = 0 then pure response else bulkRows values repetitions oids response

def handleSnmpGetbulk (values : List Value) (request : Request) (response : Response) :
    Except Failure Response := do
  -- limit the non-repeaters and the maximum repetitions to zero
  let nonRepeaters := if request.nonRepeaters < 0 then 0 else request.nonRepeaters
  let maxRepetitions := if request.maxRepetitions < 0 then 0 else request.maxRepetitions
  -- the non-repeaters are handled like with the GETNEXT request
  let (_, _, response) ← bulkRow values (request.oidList.take nonRepeaters.toInt.toNat) response
  bulkRows values maxRepetitions.toInt.toNat
    (request.oidList.drop nonRepeaters.toInt.toNat) response

/-! ## Where the values come from -/

/-- An OID of the list, or of an entry of the MIB. -/
def KnownOid (values : List Value) (oids : List Oid) (oid : Oid) : Prop :=
  oid ∈ oids ∨ ∃ value ∈ values, value.oid = oid

/-- A value of the MIB, or an exception for a known OID. -/
inductive AnswerValue (values : List Value) (oids : List Oid) : Value → Prop where
  | entry {value : Value} (h : value ∈ values) : AnswerValue values oids value
  | exception {oid : Oid} (type : UInt8) (h : KnownOid values oids oid) :
      AnswerValue values oids ⟨oid, emptyData type⟩

/-- Every value of the response comes from the MIB or answers one of the OIDs. -/
def ValuesFrom (values : List Value) (oids : List Oid) (response : Response) : Prop :=
  ∀ value ∈ response.valueList, AnswerValue values oids value

/-- A sequence succeeds exactly when both of its parts do. -/
theorem except_bind_eq_ok {α β : Type} {x : Except Failure α} {f : α → Except Failure β} {b : β} :
    (x >>= f) = .ok b ↔ ∃ a, x = .ok a ∧ f a = .ok b := by
  cases x with
  | error e => exact iff_of_false nofun (fun ⟨_, h, _⟩ => nomatch h)
  | ok a =>
    refine ⟨fun h => ⟨a, rfl, h⟩, fun ⟨a', ha, h⟩ => ?_⟩
    cases ha
    exact h

section

variable {values : List Value} {oids : List Oid}

/-- The exceptions are elements without content. -/
theorem lookupGet_spec (oid : Oid) :
    (∃ value ∈ values, lookupGet values oid = .found value) ∨
      ∃ type, lookupGet values oid = .missing (emptyData type) := by
  unfold lookupGet
  cases hfind : values[mibFind values oid]? with
  | none => exact .inr ⟨_, rfl⟩
  | some entry =>
    simp only
    split_ifs
    · exact .inr ⟨_, rfl⟩
    · exact .inr ⟨_, rfl⟩
    · exact .inl ⟨entry, List.mem_of_getElem? hfind, rfl⟩

theorem lookupNext_spec (oid : Oid) :
    (∃ value ∈ values, lookupNext values oid = .found value) ∨
      ∃ type, lookupNext values oid = .missing (emptyData type) := by
  unfold lookupNext
  cases hfind : values[mibFindnext values oid]? with
  | none => exact .inr ⟨_, rfl⟩
  | some entry => exact .inl ⟨entry, List.mem_of_getElem? hfind, rfl⟩

theorem appendValue_valuesFrom {message : String} {response response' : Response} {value : Value}
    (h : ValuesFrom values oids response) (hvalue : AnswerValue values oids value)
    (hrun : appendValue message response value = .ok response') :
    ValuesFrom values oids response' := by
  unfold appendValue at hrun
  split at hrun
  · -- there was room for the value
    cases hrun
    intro v hv
    rcases List.mem_append.mp hv with hold | hnew
    · exact h v hold
    · obtain rfl : v = value := by simpa using hnew
      exact hvalue
  · cases hrun

/-- The loop of GET and GETNEXT. -/
theorem answerLoop_valuesFrom {lookup : Oid → Lookup} {message : String} {version : Int32}
    (hlookup : ∀ oid, (∃ value ∈ values, lookup oid = .found value) ∨
      ∃ type, lookup oid = .missing (emptyData type))
    (todo : List Oid) (htodo : ∀ oid ∈ todo, oid ∈ oids) (i : Nat)
    {response response' : Response} (h : ValuesFrom values oids response)
    (hrun : answerLoop lookup message version i todo response = .ok response') :
    ValuesFrom values oids response' := by
  induction todo generalizing i response with
  | nil =>
    cases hrun
    exact h
  | cons oid todo ih =>
    have hmem : oid ∈ oids := htodo oid List.mem_cons_self
    have hrest : ∀ o ∈ todo, o ∈ oids := fun o ho => htodo o (List.mem_cons_of_mem _ ho)
    rw [answerLoop] at hrun
    rcases hlookup oid with ⟨value, hvalue, hfound⟩ | ⟨type, hmissing⟩
    · rw [hfound] at hrun
      obtain ⟨appended, happend, hrun⟩ := except_bind_eq_ok.mp hrun
      exact ih hrest (i + 1) (appendValue_valuesFrom h (.entry hvalue) happend) hrun
    · rw [hmissing] at hrun
      simp only at hrun
      split at hrun
      · -- version 1 ends here with an error
        cases hrun
        exact h
      · obtain ⟨appended, happend, hrun⟩ := except_bind_eq_ok.mp hrun
        exact ih hrest (i + 1)
          (appendValue_valuesFrom h (.exception type (.inl hmem)) happend) hrun

/-- One pass of GETBULK. The OIDs that it leaves are known as well. -/
theorem bulkRow_valuesFrom (todo : List Oid) (htodo : ∀ oid ∈ todo, KnownOid values oids oid)
    {response : Response} {result : List Oid × Nat × Response}
    (h : ValuesFrom values oids response) (hrun : bulkRow values todo response = .ok result) :
    (∀ oid ∈ result.1, KnownOid values oids oid) ∧ ValuesFrom values oids result.2.2 := by
  induction todo generalizing response result with
  | nil =>
    cases hrun
    exact ⟨fun _ h => absurd h List.not_mem_nil, h⟩
  | cons oid todo ih =>
    have hknown := htodo oid List.mem_cons_self
    have hrest : ∀ o ∈ todo, KnownOid values oids o := fun o ho =>
      htodo o (List.mem_cons_of_mem _ ho)
    rw [bulkRow] at hrun
    rcases @lookupNext_spec values oid with ⟨value, hvalue, hfound⟩ | ⟨type, hmissing⟩
    · rw [hfound] at hrun
      obtain ⟨appended, happend, hrun⟩ := except_bind_eq_ok.mp hrun
      obtain ⟨later, hlater, hrun⟩ := except_bind_eq_ok.mp hrun
      cases hrun
      -- the value found stands for its OID in the next pass
      have hold := appendValue_valuesFrom h (.entry hvalue) happend
      obtain ⟨hoids, hvalues⟩ := ih hrest hold hlater
      exact ⟨List.forall_mem_cons.mpr ⟨.inr ⟨value, hvalue, rfl⟩, hoids⟩, hvalues⟩
    · rw [hmissing] at hrun
      obtain ⟨appended, happend, hrun⟩ := except_bind_eq_ok.mp hrun
      obtain ⟨later, hlater, hrun⟩ := except_bind_eq_ok.mp hrun
      cases hrun
      -- without a successor the OID stays for the next pass
      have hold := appendValue_valuesFrom h (.exception type hknown) happend
      obtain ⟨hoids, hvalues⟩ := ih hrest hold hlater
      exact ⟨List.forall_mem_cons.mpr ⟨hknown, hoids⟩, hvalues⟩

/-- The repetitions of GETBULK. -/
theorem bulkRows_valuesFrom (repetitions : Nat) (todo : List Oid)
    (htodo : ∀ oid ∈ todo, KnownOid values oids oid) {response response' : Response}
    (h : ValuesFrom values oids response)
    (hrun : bulkRows values repetitions todo response = .ok response') :
    ValuesFrom values oids response' := by
  induction repetitions generalizing todo response with
  | zero =>
    cases hrun
    exact h
  | succ repetitions ih =>
    rw [bulkRows] at hrun
    obtain ⟨row, hrow, hrun⟩ := except_bind_eq_ok.mp hrun
    obtain ⟨hoids, hvalues⟩ := bulkRow_valuesFrom todo htodo h hrow
    simp only at hrun
    split at hrun
    · cases hrun
      exact hvalues
    · exact ih row.1 hoids hvalues hrun

end

section

variable {values : List Value} {request : Request} {response : Response}

theorem valuesFrom_nil (errorStatus errorIndex : Int32) (oids : List Oid) :
    ValuesFrom values oids ⟨errorStatus, errorIndex, []⟩ :=
  fun _ h => absurd h List.not_mem_nil

theorem handleSnmpGet_valuesFrom {response' : Response}
    (h : ValuesFrom values request.oidList response)
    (hrun : handleSnmpGet values request response = .ok response') :
    ValuesFrom values request.oidList response' :=
  answerLoop_valuesFrom lookupGet_spec request.oidList (fun _ h => h) 0 h hrun

theorem handleSnmpGetnext_valuesFrom {response' : Response}
    (h : ValuesFrom values request.oidList response)
    (hrun : handleSnmpGetnext values request response = .ok response') :
    ValuesFrom values request.oidList response' :=
  answerLoop_valuesFrom lookupNext_spec request.oidList (fun _ h => h) 0 h hrun

theorem handleSnmpGetbulk_valuesFrom {response' : Response}
    (h : ValuesFrom values request.oidList response)
    (hrun : handleSnmpGetbulk values request response = .ok response') :
    ValuesFrom values request.oidList response' := by
  rw [handleSnmpGetbulk] at hrun
  obtain ⟨row, hrow, hrun⟩ := except_bind_eq_ok.mp hrun
  -- first the non-repeaters, then the repetitions
  have hvalues := (bulkRow_valuesFrom _ (fun _ h => .inl (List.mem_of_mem_take h)) h hrow).2
  exact bulkRows_valuesFrom _ _ (fun _ h => .inl (List.mem_of_mem_drop h)) hvalues hrun

end

end SdkSnmpd
