import SdkSnmpd.Access
import SdkSnmpd.Bulk

/-!
# Version 1

What version 1 asks of a reply, and where the handlers differ: the index of the first variable
that fails, and the exceptions of version 2.

## Contents

- `AllOrNothing`: the replies to GET and GETNEXT in version 1.
- `allOrNothing_iff`: the agent gives them exactly when no variable fails.
- `noExceptions_iff`: when a reply is free of exceptions.
-/

namespace SdkSnmpd

open Lib (Mem Scan Content)

/-! ## GET and GETNEXT -/

/-- The search that the handler of a GET or GETNEXT uses. -/
def lookupOf (values : List Value) (request : Request) : Oid → Lookup :=
  if request.type = berTypeSnmpGet then lookupGet values else lookupNext values

/-- What is found is an entry of the MIB. -/
theorem lookupOf_mem {values : List Value} {request : Request} {oid : Oid} {entry : Value}
    (h : lookupOf values request oid = .found entry) : entry ∈ values := by
  unfold lookupOf at h
  split at h
  · exact (lookupGet_found h).1
  · rcases @lookupNext_spec values oid with ⟨stored, hmem, hstored⟩ | ⟨type, hmissing⟩
    · rw [h] at hstored
      cases hstored
      exact hmem
    · rw [h] at hmissing
      cases hmissing

/-- All or nothing: the values of all variables, or the number of the first variable without
    a match, counted from 1, and no values. -/
structure AllOrNothing (lookup : Oid → Lookup) (request : Request) (client : Client) : Prop where
  all : (∀ oid ∈ request.oidList, isMissing lookup oid = false) →
    client.Carries (replyContent request snmpStatusOk 0 (request.oidList.map (answerOf lookup)))
  nothing : ∀ i (h : i < request.oidList.length), isMissing lookup request.oidList[i] = true →
    (∀ j (hj : j < i), isMissing lookup request.oidList[j] = false) →
      client.Carries (replyContent request snmpStatusNoSuchName (Int32.ofNat (i + 1))
        (nullBindings request.oidList))

/-- What the loop makes of a version 1 request. -/
def versionOneResponse (lookup : Oid → Lookup) (oids : List Oid) : Response :=
  if oids.findIdx (isMissing lookup) < oids.length then
    ⟨snmpStatusNoSuchName, Int32.ofNat (oids.findIdx (isMissing lookup)),
      (oids.take (oids.findIdx (isMissing lookup))).map (answerOf lookup)⟩
  else ⟨snmpStatusOk, 0, oids.map (answerOf lookup)⟩

/-- Some variable is the first without a match, or every variable has one. -/
theorem versionOneResponse_cases (lookup : Oid → Lookup) (oids : List Oid) :
    (∃ i, ∃ hi : i < oids.length, isMissing lookup oids[i] = true ∧
      (∀ j (_ : j < i), isMissing lookup oids[j] = false) ∧
      versionOneResponse lookup oids =
        ⟨snmpStatusNoSuchName, Int32.ofNat i, (oids.take i).map (answerOf lookup)⟩) ∨
      ((∀ oid ∈ oids, isMissing lookup oid = false) ∧
        versionOneResponse lookup oids = ⟨snmpStatusOk, 0, oids.map (answerOf lookup)⟩) := by
  by_cases hlt : oids.findIdx (isMissing lookup) < oids.length
  · refine .inl ⟨oids.findIdx (isMissing lookup), hlt, List.findIdx_getElem, ?_, if_pos hlt⟩
    intro j hj
    simpa using List.not_of_lt_findIdx hj
  · refine .inr ⟨fun oid hoid => ?_, if_neg hlt⟩
    by_contra hmissing
    exact hlt (List.findIdx_lt_length_of_exists ⟨oid, hoid, by simpa using hmissing⟩)

section

variable {config : Config} {values : List Value} {request : Request}

/-- GET and GETNEXT run the same loop, each with its own search. -/
theorem dispatch_gets (htype : request.type = berTypeSnmpGet ∨ request.type = berTypeSnmpGetnext) :
    ∃ message, dispatch values request =
      Answer.ofExcept (answerLoop (lookupOf values request) message request.version 0
        request.oidList emptyResponse) := by
  by_cases hget : request.type = berTypeSnmpGet
  · have hlookup : lookupOf values request = lookupGet values := if_pos hget
    rw [dispatch, if_pos hget, hlookup]
    exact ⟨_, rfl⟩
  · have hlookup : lookupOf values request = lookupNext values := if_neg hget
    rw [dispatch, if_neg hget, if_pos (htype.resolve_left hget), hlookup]
    exact ⟨_, rfl⟩

theorem answer_version1 (hversion : request.version = snmpVersion1)
    (hauth : authError config request = none)
    (htype : request.type = berTypeSnmpGet ∨ request.type = berTypeSnmpGetnext)
    (hroom : request.oidList.length ≤ maxNrOids) :
    answer config values request =
      .reply (versionOneResponse (lookupOf values request) request.oidList) := by
  obtain ⟨message, hdispatch⟩ := @dispatch_gets values request htype
  rw [answer_of_authorized hauth, hdispatch, hversion,
    answerLoop_version1 _ _ _ (room_of_oids hroom), versionOneResponse]
  -- the loop returns at the first OID without a match
  split <;> simp [emptyResponse, Response.append, Answer.ofExcept]

/-- In version 2, GET and GETNEXT answer every OID. -/
theorem answer_version2c (hversion : request.version ≠ snmpVersion1)
    (hauth : authError config request = none)
    (htype : request.type = berTypeSnmpGet ∨ request.type = berTypeSnmpGetnext)
    (hroom : request.oidList.length ≤ maxNrOids) :
    answer config values request =
      .reply ⟨snmpStatusOk, 0, request.oidList.map (answerOf (lookupOf values request))⟩ := by
  obtain ⟨message, hdispatch⟩ := @dispatch_gets values request htype
  rw [answer_of_authorized hauth, hdispatch,
    answerLoop_of_ne_version1 hversion _ _ _ (room_of_oids hroom)]
  simp [emptyResponse, Response.append, Answer.ofExcept]

end

/-! ## The error index in a reply -/

/-- The header of an element depends on the length of its content only. -/
theorem exists_element_eq (type : UInt8) (before after : Content) :
    ∃ before' : Content, ∀ b, element type (before ++ b :: after) = before' ++ b :: after := by
  refine ⟨(type :: Lib.Ber.lengthOctets (before.length + after.length + 1)).map some ++ before,
    fun b => ?_⟩
  -- the length counts the byte, whatever it is
  simp [element, Nat.add_assoc]

theorem integerElement_of_one {v : Int32} (h : integerOctets v = 1) :
    integerElement v = [some berTypeInteger, some 0x01] ++ [some v.toUInt32.toUInt8] := by
  rw [integerElement, integerContent, h]
  simp [element, Lib.Ber.octets, Lib.Ber.lengthOctets]

/-- The error index has a fixed place in the replies that have one octet for it. -/
theorem exists_replyContent_eq (request : Request) (errorStatus : Int32) (bindings : List Value) :
    ∃ before after : Content, ∀ errorIndex : Int32, integerOctets errorIndex = 1 →
      replyContent request errorStatus errorIndex bindings =
        before ++ some errorIndex.toUInt32.toUInt8 :: after := by
  -- the PDU, and the message around it
  obtain ⟨before₁, hpdu⟩ := exists_element_eq berTypeSnmpResponse
    (integerElement request.id ++ integerElement errorStatus ++
      [some berTypeInteger, some 0x01])
    (element berTypeSequence (bindings.flatMap varbindContent))
  obtain ⟨before₂, hmessage⟩ := exists_element_eq berTypeSequence
    (integerElement request.version ++
      element berTypeOctetString (request.community.bytes.map some) ++ before₁)
    (element berTypeSequence (bindings.flatMap varbindContent))
  refine ⟨before₂, element berTypeSequence (bindings.flatMap varbindContent),
    fun errorIndex hone => ?_⟩
  have hbyte := hpdu (some errorIndex.toUInt32.toUInt8)
  simp only [List.append_assoc, List.cons_append, List.nil_append] at hbyte hmessage
  rw [replyContent, integerElement_of_one hone]
  simp only [List.cons_append, List.nil_append]
  rw [hbyte, hmessage]

/-- Replies that differ in the error index only are told apart. -/
theorem errorIndex_of_carries {client : Client} {request : Request} {errorStatus i j : Int32}
    {bindings : List Value} (hi : integerOctets i = 1) (hj : integerOctets j = 1)
    (h : client.Carries (replyContent request errorStatus i bindings))
    (h' : client.Carries (replyContent request errorStatus j bindings)) :
    i.toUInt32.toUInt8 = j.toUInt32.toUInt8 := by
  obtain ⟨before, after, hsplit⟩ := exists_replyContent_eq request errorStatus bindings
  rw [hsplit i hi] at h
  rw [hsplit j hj] at h'
  have hbyte := h.bytes before.length i.toUInt32.toUInt8 (by simp)
  have hbyte' := h'.bytes before.length j.toUInt32.toUInt8 (by simp)
  exact hbyte.symm.trans hbyte'

/-- A number below 128 takes one octet. -/
theorem integerOctets_ofNat {k : Nat} (h : k < 128) : integerOctets (Int32.ofNat k) = 1 := by
  have hint : (Int32.ofNat k).toInt = k := Int32.toInt_ofNat_of_lt (by omega)
  unfold integerOctets
  simp only [gt_iff_lt, Int32.lt_iff_toInt_lt, hint,
    show (-8388608 : Int32).toInt = -8388608 from rfl,
    show (8388607 : Int32).toInt = 8388607 from rfl,
    show (-32768 : Int32).toInt = -32768 from rfl, show (32767 : Int32).toInt = 32767 from rfl,
    show (-128 : Int32).toInt = -128 from rfl, show (127 : Int32).toInt = 127 from rfl]
  split_ifs <;> omega

theorem toUInt8_ofNat {k : Nat} (h : k < 128) :
    ((Int32.ofNat k).toUInt32.toUInt8).toNat = k := by
  rw [show (Int32.ofNat k).toUInt32 = UInt32.ofNat k from rfl, UInt32.toNat_toUInt8,
    UInt32.toNat_ofNat']
  omega

/-- **Version 1 GET and GETNEXT.** The reply to an accepted request that passes authentication
    and fits is all or nothing exactly when every variable has a match: otherwise the index of
    the first variable without a match is counted from 0. -/
theorem allOrNothing_iff (config : Config) (mib : Mib) (client : Client)
    (hsize : client.size ≤ maxPacketSize) (request : Request) (pos : Nat)
    (hdec : (decodeSnmpRequest client.size).eval client.packet = .ok (request, pos))
    (hversion : request.version = snmpVersion1) (hauth : authError config request = none)
    (htype : request.type = berTypeSnmpGet ∨ request.type = berTypeSnmpGetnext)
    (hfits : (snmp config mib.values client).1 = .ok ()) :
    AllOrNothing (lookupOf mib.values request) request (snmp config mib.values client).2 ↔
      ∀ oid ∈ request.oidList, isMissing (lookupOf mib.values request) oid = false := by
  have hacc := decodeSnmpRequest_accepted hsize hdec
  have hroom := hacc.room
  unfold maxNrOids at hroom
  have hanswer := @answer_version1 config mib.values request hversion hauth htype hacc.room
  have hrun := snmp_of_reply hdec hanswer
  rw [hrun] at hfits ⊢
  have hcarries := encodeSnmpResponse_carries (answer_encoderInput hsize hacc hanswer) client hfits
  rw [responseContent_eq_reply] at hcarries
  rcases versionOneResponse_cases (lookupOf mib.values request) request.oidList with
    ⟨i, hi, hmissing, hbefore, hresponse⟩ | ⟨hall, hresponse⟩
  · -- some variable has no match: its index is one less than its number
    rw [hresponse] at hcarries
    refine iff_of_false (fun h => ?_) (fun hall => ?_)
    · -- both replies are alike up to the byte of the index
      have hindex := errorIndex_of_carries (integerOctets_ofNat (by omega))
        (integerOctets_ofNat (by omega)) hcarries
        (hresponse ▸ h.nothing i hi hmissing hbefore)
      have hnat := congrArg UInt8.toNat hindex
      rw [toUInt8_ofNat (by omega), toUInt8_ofNat (by omega)] at hnat
      omega
    · rw [hall _ (List.getElem_mem hi)] at hmissing
      cases hmissing
  · rw [hresponse] at hcarries ⊢
    refine iff_of_true ⟨fun _ => hcarries, fun i hi hmissing _ => ?_⟩ hall
    rw [hall _ (List.getElem_mem hi)] at hmissing
    cases hmissing

/-- A version 1 GET request for `.1.3.1`. -/
def versionOneGet : List UInt8 :=
  [0x30, 0x1B, 0x02, 0x01, 0x00, 0x04, 0x01, 0x70, 0xA0, 0x13, 0x02, 0x01, 0x01, 0x02, 0x01,
    0x00, 0x02, 0x01, 0x00, 0x30, 0x08, 0x30, 0x06, 0x06, 0x02, 0x2B, 0x01, 0x05, 0x00]

def versionOneClient : Client := .holding (Mem.ofList versionOneGet) 29

/-- What it is decoded to. -/
def versionOneRequest : Request :=
  ⟨communityP, berTypeSnmpGet, snmpVersion1, 1, 0, 0, [⟨[1, 3, 1], 4⟩]⟩

theorem eval_versionOneGet :
    (decodeSnmpRequest versionOneClient.size).eval versionOneClient.packet =
      .ok (versionOneRequest, 29) :=
  Lib.ok_of_toOption (by decide +kernel)

theorem snmp_versionOneGet_fits :
    (snmp ⟨communityP, false⟩ emptyMib.values versionOneClient).1 = .ok () :=
  Lib.ok_of_toOption (by decide +kernel)

/-- The empty MIB answers that variable 0 has failed. -/
theorem versionOneGet_not_allOrNothing :
    (snmp ⟨communityP, false⟩ emptyMib.values versionOneClient).1 = .ok () ∧
      ¬ AllOrNothing (lookupOf emptyMib.values versionOneRequest) versionOneRequest
        (snmp ⟨communityP, false⟩ emptyMib.values versionOneClient).2 := by
  refine ⟨snmp_versionOneGet_fits, fun h => ?_⟩
  have hcarries := h.nothing 0 (by decide) rfl fun j hj => absurd hj (Nat.not_lt_zero j)
  have hbyte := hcarries.bytes 18 0x01 (by decide +kernel)
  revert hbyte
  decide +kernel

theorem allOrNothing_iff_versionOneGet :
    AllOrNothing (lookupOf emptyMib.values versionOneRequest) versionOneRequest
        (snmp ⟨communityP, false⟩ emptyMib.values versionOneClient).2 ↔
      ∀ oid ∈ versionOneRequest.oidList,
        isMissing (lookupOf emptyMib.values versionOneRequest) oid = false :=
  allOrNothing_iff ⟨communityP, false⟩ emptyMib versionOneClient (by decide) versionOneRequest 29
    eval_versionOneGet rfl (by decide) (.inl rfl) snmp_versionOneGet_fits

/-! ## Exceptions -/

/-- The data is one of the exceptions of version 2, by its tag. -/
def IsException (data : Data) : Prop :=
  data.buffer.head? = some berTypeNoSuchObject ∨ data.buffer.head? = some berTypeNoSuchInstance ∨
    data.buffer.head? = some berTypeEndOfMibView

instance : DecidablePred IsException := fun _ => inferInstanceAs (Decidable (_ ∨ _ ∨ _))

/-- The response that is encoded is free of exceptions. -/
def NoExceptions (config : Config) (values : List Value) (request : Request) : Prop :=
  ∀ response, answer config values request = .reply response →
    ∀ value ∈ valuesToEncode request response, ¬ IsException value.data

/-- The OID that GETNEXT answers with. -/
def successor (values : List Value) (oid : Oid) : Oid := (nextAnswer values oid).oid

/-- A GETBULK runs into the end of the MIB: a non-repeater has no successor, or a repeater
    comes to an OID without one in fewer steps than there are repetitions. -/
def ReachesEnd (values : List Value) (request : Request) : Prop :=
  (∃ oid ∈ request.oidList.take (nonRepeaterCount request),
      isMissing (lookupNext values) oid = true) ∨
    ∃ oid ∈ repeaters request, ∃ r < (max request.maxRepetitions.toInt 0).toNat,
      isMissing (lookupNext values) ((successor values)^[r] oid) = true

section

variable {config : Config} {values : List Value} {request : Request}

/-- A MIB without exceptions answers with one exactly where it has no successor. -/
theorem isException_nextAnswer_iff (hmib : ∀ value ∈ values, ¬ IsException value.data)
    (oid : Oid) :
    IsException (nextAnswer values oid).data ↔ isMissing (lookupNext values) oid = true := by
  rcases @lookupNext_spec values oid with ⟨value, hvalue, hfound⟩ | ⟨type, hmissing⟩
  · obtain ⟨hmissing, hanswer⟩ := isMissing_of_found hfound
    rw [nextAnswer, hanswer, hmissing]
    exact iff_of_false (hmib value hvalue) (by simp)
  · obtain ⟨hmissing, -⟩ := isMissing_of_missing hmissing
    rw [(nextAnswer_eq_end_iff oid).mpr hmissing, hmissing]
    exact iff_of_true (show IsException mEndOfMibView by decide) rfl

/-- The rows come to an OID without a successor exactly if a column does, before the
    repetitions are used up: rows that end earlier end with such OIDs. -/
theorem exists_asked_iff :
    (∃ r < rowCount values request,
        ∃ oid ∈ Lib.asked (nextAnswer values) Value.oid (repeaters request) r,
          isMissing (lookupNext values) oid = true) ↔
      ∃ oid ∈ repeaters request, ∃ r < (max request.maxRepetitions.toInt 0).toNat,
        isMissing (lookupNext values) ((successor values)^[r] oid) = true := by
  have hle : rowCount values request ≤ (max request.maxRepetitions.toInt 0).toNat :=
    Lib.rounds_le _ _
  have hasked : ∀ r, Lib.asked (nextAnswer values) Value.oid (repeaters request) r =
      (repeaters request).map (successor values)^[r] := Lib.asked_eq_map_iterate _ _ _
  constructor
  · rintro ⟨r, hr, oid, hoid, hmissing⟩
    rw [hasked] at hoid
    obtain ⟨start, hstart, rfl⟩ := List.mem_map.mp hoid
    exact ⟨start, hstart, r, by omega, hmissing⟩
  · rintro ⟨start, hstart, r, hr, hmissing⟩
    -- the column may be asked for less often than there are repetitions
    by_cases hrow : r < rowCount values request
    · refine ⟨r, hrow, _, ?_, hmissing⟩
      rw [hasked]
      exact List.mem_map_of_mem hstart
    · -- the rows have ended before: nothing was found in the last of them
      obtain ⟨last, hlast, hends⟩ := Lib.stop_of_rounds_lt
        (show Lib.rounds (rowEnds values (repeaters request))
          (max request.maxRepetitions.toInt 0).toNat < _ from
            Nat.lt_of_le_of_lt (Nat.not_lt.mp hrow) hr)
      have hcount : rowCount values request = last + 1 := hlast
      have hmem : (successor values)^[last] start ∈
          Lib.asked (nextAnswer values) Value.oid (repeaters request) last := by
        rw [hasked]
        exact List.mem_map_of_mem hstart
      refine ⟨last, by omega, _, hmem, ?_⟩
      rw [rowEnds, decide_eq_true_iff, Lib.row_eq_map_asked, List.map_inj_left] at hends
      exact (nextAnswer_eq_end_iff _).mp (hends _ hmem)

/-- The answers to a GETBULK hold an exception exactly if it runs into the end of the MIB. -/
theorem exists_isException_bulkAnswers_iff (hmib : ∀ value ∈ values, ¬ IsException value.data) :
    (∃ value ∈ bulkAnswers values request, IsException value.data) ↔
      ReachesEnd values request := by
  rw [ReachesEnd, ← exists_asked_iff]
  constructor
  · rintro ⟨value, hvalue, hexception⟩
    rcases List.mem_append.mp hvalue with hfirst | hrow
    · obtain ⟨oid, hoid, rfl⟩ := List.mem_map.mp hfirst
      exact .inl ⟨oid, hoid, (isException_nextAnswer_iff hmib oid).mp hexception⟩
    · obtain ⟨r, hr, hrow⟩ := (Lib.mem_rows _ _).mp hrow
      rw [Lib.row_eq_map_asked] at hrow
      obtain ⟨oid, hoid, rfl⟩ := List.mem_map.mp hrow
      exact .inr ⟨r, hr, oid, hoid, (isException_nextAnswer_iff hmib oid).mp hexception⟩
  · rintro (⟨oid, hoid, hmissing⟩ | ⟨r, hr, oid, hoid, hmissing⟩)
    · refine ⟨nextAnswer values oid, List.mem_append_left _ (List.mem_map_of_mem hoid), ?_⟩
      exact (isException_nextAnswer_iff hmib oid).mpr hmissing
    · refine ⟨nextAnswer values oid, List.mem_append_right _ ?_, ?_⟩
      · rw [Lib.mem_rows]
        refine ⟨r, hr, ?_⟩
        rw [Lib.row_eq_map_asked]
        exact List.mem_map_of_mem hoid
      · exact (isException_nextAnswer_iff hmib oid).mpr hmissing

/-- An error reply is free of exceptions. -/
theorem not_isException_of_error {response : Response} (h : response.errorStatus ≠ snmpStatusOk)
    {value : Value} (hvalue : value ∈ valuesToEncode request response) :
    ¬ IsException value.data := by
  rw [valuesToEncode, if_pos h] at hvalue
  obtain ⟨oid, -, rfl⟩ := List.mem_map.mp hvalue
  exact show ¬ IsException mNull by decide

/-- GET and GETNEXT report an error in place of an exception. -/
theorem not_isException_versionOneResponse {lookup : Oid → Lookup}
    (hlookup : ∀ oid value, lookup oid = .found value → ¬ IsException value.data)
    {value : Value}
    (hvalue : value ∈ valuesToEncode request (versionOneResponse lookup request.oidList)) :
    ¬ IsException value.data := by
  by_cases hlt : request.oidList.findIdx (isMissing lookup) < request.oidList.length
  · rw [versionOneResponse, if_pos hlt] at hvalue
    exact not_isException_of_error (show snmpStatusNoSuchName ≠ snmpStatusOk by decide) hvalue
  · rw [versionOneResponse, if_neg hlt] at hvalue
    obtain ⟨oid, hoid, rfl⟩ := List.mem_map.mp (show value ∈ request.oidList.map _ from hvalue)
    cases hfound : lookup oid with
    | found value =>
      rw [(isMissing_of_found hfound).2]
      exact hlookup oid value hfound
    | missing exception =>
      exact absurd (List.findIdx_lt_length_of_exists ⟨oid, hoid, (isMissing_of_missing hfound).1⟩)
        hlt

/-- What GETBULK makes of a request that passes authentication. -/
theorem answer_getbulk (hauth : authError config request = none)
    (htype : request.type = berTypeSnmpGetbulk) (hroom : request.oidList.length ≤ maxNrOids) :
    answer config values request =
      if (bulkAnswers values request).length ≤ maxNrValues then
        .reply ⟨snmpStatusOk, 0, bulkAnswers values request⟩
      else .fail (overflow "could not handle SNMP GETNEXT: value list overflow") := by
  have hle := hroom.trans maxNrOids_le_maxNrValues
  rw [answer_of_authorized hauth, dispatch, htype, if_neg (by decide), if_neg (by decide),
    if_neg (by decide), if_pos rfl, handleSnmpGetbulk_eq values request hle]
  split <;> rfl

/-- The other types of requests are answered without exceptions. -/
theorem noExceptions_of_ne_getbulk (hmib : ∀ value ∈ values, ¬ IsException value.data)
    (hversion : request.version = snmpVersion1) (hauth : authError config request = none)
    (htype : request.type ≠ berTypeSnmpGetbulk) (hroom : request.oidList.length ≤ maxNrOids) :
    NoExceptions config values request := by
  intro response hanswer value hvalue
  by_cases hgets : request.type = berTypeSnmpGet ∨ request.type = berTypeSnmpGetnext
  · rw [answer_version1 hversion hauth hgets hroom] at hanswer
    cases hanswer
    refine not_isException_versionOneResponse (fun oid entry hfound => ?_) hvalue
    exact hmib entry (lookupOf_mem hfound)
  · rw [not_or] at hgets
    rw [answer_of_authorized hauth, dispatch, if_neg hgets.1, if_neg hgets.2] at hanswer
    -- a version 1 SET is refused with noSuchName
    by_cases hset : request.type = berTypeSnmpSet
    · rw [if_pos hset, handleSnmpSet, hversion, if_pos rfl] at hanswer
      cases hanswer
      exact not_isException_of_error (show snmpStatusNoSuchName ≠ snmpStatusOk by decide) hvalue
    · rw [if_neg hset, if_neg htype] at hanswer
      cases hanswer

/-- **Exceptions in version 1.** The response to a version 1 request is free of exceptions
    unless the request is a GETBULK that passes authentication, whose answers have room in a
    response, and that runs into the end of the MIB. -/
theorem noExceptions_iff (config : Config) (values : List Value)
    (hmib : ∀ value ∈ values, ¬ IsException value.data) (request : Request)
    (hversion : request.version = snmpVersion1) (hroom : request.oidList.length ≤ maxNrOids) :
    NoExceptions config values request ↔
      ¬ (authError config request = none ∧ request.type = berTypeSnmpGetbulk ∧
        nonRepeaterCount request +
            rowCount values request * (request.oidList.length - nonRepeaterCount request) ≤
          maxNrValues ∧ ReachesEnd values request) := by
  have hlength : nonRepeaterCount request +
      rowCount values request * (request.oidList.length - nonRepeaterCount request) =
        (bulkAnswers values request).length := by
    rw [length_bulkAnswers, repeaters, List.length_drop]
  rw [hlength]
  cases hauth : authError config request with
  | some errorStatus =>
    refine iff_of_true (fun response hanswer value hvalue => ?_) (fun h => by cases h.1)
    rw [answer_of_authError hauth] at hanswer
    cases hanswer
    -- version 1 without the community is refused with an error status, and without values
    rw [authError, hversion, if_neg (by decide)] at hauth
    split at hauth
    · cases hauth
      exact not_isException_of_error (show snmpStatusGenErr ≠ snmpStatusOk by decide) hvalue
    · cases hauth
  | none =>
    by_cases htype : request.type = berTypeSnmpGetbulk
    · rw [NoExceptions, answer_getbulk hauth htype hroom,
        ← exists_isException_bulkAnswers_iff hmib]
      by_cases hfits : (bulkAnswers values request).length ≤ maxNrValues
      · -- the handler does not look at the version
        simp only [htype, hfits, true_and, not_exists, not_and]
        refine ⟨fun h => h _ rfl, fun h response hanswer => ?_⟩
        cases hanswer
        exact h
      · rw [if_neg hfits]
        exact iff_of_true (fun response hanswer => by cases hanswer) fun h => hfits h.2.2.1
    · exact iff_of_true (noExceptions_of_ne_getbulk hmib hversion hauth htype hroom)
        fun h => htype h.2.1

end

/-- A version 1 GETBULK for one repetition of `.1.3.1`, and what it is decoded to. -/
def versionOneBulk : List UInt8 :=
  [0x30, 0x1B, 0x02, 0x01, 0x00, 0x04, 0x01, 0x70, 0xA5, 0x13, 0x02, 0x01, 0x01, 0x02, 0x01,
    0x00, 0x02, 0x01, 0x01, 0x30, 0x08, 0x30, 0x06, 0x06, 0x02, 0x2B, 0x01, 0x05, 0x00]

def versionOneBulkRequest : Request :=
  ⟨communityP, berTypeSnmpGetbulk, snmpVersion1, 1, 0, 1, [⟨[1, 3, 1], 4⟩]⟩

/-- The empty MIB answers with the end of the MIB. -/
theorem versionOneBulk_not_noExceptions :
    (decodeSnmpRequest 29).eval (Mem.ofList versionOneBulk) = .ok (versionOneBulkRequest, 29) ∧
      versionOneBulkRequest.version = snmpVersion1 ∧
      ¬ NoExceptions ⟨communityP, false⟩ emptyMib.values versionOneBulkRequest := by
  refine ⟨Lib.ok_of_toOption (by decide +kernel), rfl, fun h => ?_⟩
  have hend := h ⟨snmpStatusOk, 0, [⟨⟨[1, 3, 1], 4⟩, mEndOfMibView⟩]⟩ rfl
    ⟨⟨[1, 3, 1], 4⟩, mEndOfMibView⟩ List.mem_cons_self
  exact hend (show IsException mEndOfMibView by decide)

theorem noExceptions_iff_versionOneBulk :
    NoExceptions ⟨communityP, false⟩ emptyMib.values versionOneBulkRequest ↔
      ¬ (authError ⟨communityP, false⟩ versionOneBulkRequest = none ∧
        versionOneBulkRequest.type = berTypeSnmpGetbulk ∧
        nonRepeaterCount versionOneBulkRequest +
            rowCount emptyMib.values versionOneBulkRequest *
              (versionOneBulkRequest.oidList.length - nonRepeaterCount versionOneBulkRequest) ≤
          maxNrValues ∧ ReachesEnd emptyMib.values versionOneBulkRequest) :=
  noExceptions_iff ⟨communityP, false⟩ emptyMib.values (fun _ h => absurd h List.not_mem_nil)
    versionOneBulkRequest rfl (by decide)

end SdkSnmpd
