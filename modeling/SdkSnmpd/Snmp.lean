import SdkSnmpd.OidCodec
import SdkSnmpd.Handlers

/-!
# The Protocol Handler

`snmp` of `protocol.c`: decode the request in the client's packet, check its community,
handle it, and encode the response into the same packet.

## Contents

- `authError`, `dispatch`, `answer`, `snmp`.
- `answer_encoderInput`: the response to an accepted request can be encoded.
- `snmp_size_le`: the packet that is left fits into its buffer.
-/

namespace SdkSnmpd

open Lib (Mem Scan Content)

/-! ## Requests and answers -/

/-- What is to be done about a request. -/
inductive Answer where
  /-- -1 is returned. -/
  | fail (e : Failure)
  /-- The packet is dropped: `client->size` is set to 0. -/
  | ignore
  /-- The response is encoded. -/
  | reply (response : Response)

/-- If SNMP v2c is used or authentication is required, the community string is checked.
    Returns the error state of the reply to a request that does not pass. -/
def authError (config : Config) (request : Request) : Option Int32 :=
  if request.version = snmpVersion2c then
    if config.community ≠ request.community then
      some (if request.version = snmpVersion2c then snmpStatusNoAccess else snmpStatusGenErr)
    else none
  else if config.auth then some snmpStatusGenErr
  else none

/-- The result of a handler. -/
def Answer.ofExcept : Except Failure Response → Answer
  | .error e => fail e
  | .ok response => reply response

/-- Handle the request depending on its type. -/
def dispatch (values : List Value) (request : Request) : Answer :=
  if request.type = berTypeSnmpGet then
    Answer.ofExcept (handleSnmpGet values request emptyResponse)
  else if request.type = berTypeSnmpGetnext then
    Answer.ofExcept (handleSnmpGetnext values request emptyResponse)
  else if request.type = berTypeSnmpSet then
    Answer.ofExcept (handleSnmpSet request emptyResponse)
  else if request.type = berTypeSnmpGetbulk then
    Answer.ofExcept (handleSnmpGetbulk values request emptyResponse)
  else .ignore

/-- The community check, and the handlers after it. -/
def answer (config : Config) (values : List Value) (request : Request) : Answer :=
  match authError config request with
  | some errorStatus => .reply { emptyResponse with errorStatus, errorIndex := 0 }
  | none => dispatch values request

/-- Returns 0 (`ok`) or -1, and the client with its packet and size. -/
def snmp (config : Config) (values : List Value) (client : Client) :
    Except Failure Unit × Client :=
  match (decodeSnmpRequest client.size).eval client.packet with
  | .error e => (.error e, client)
  | .ok (request, _) =>
      match answer config values request with
      | .fail e => (.error e, client)
      | .ignore => (.ok (), { client with size := 0 })
      | .reply response => encodeSnmpResponse request response client

/-! ## What can be encoded -/

section

variable {config : Config} {mib : Mib} {packet : Mem} {n : Nat} {request : Request}
  {response : Response}

/-- The value lists of the handlers. -/
theorem dispatch_valuesFrom (h : dispatch mib.values request = .reply response) :
    ValuesFrom mib.values request.oidList response := by
  have hempty : ValuesFrom mib.values request.oidList emptyResponse := valuesFrom_nil _ _ _
  have hrun : ∀ {r : Except Failure Response}, Answer.ofExcept r = .reply response →
      r = .ok response := by
    intro r hr
    cases r with
    | error e => cases hr
    | ok response' => cases hr; rfl
  unfold dispatch at h
  split_ifs at h
  · exact handleSnmpGet_valuesFrom hempty (hrun h)
  · exact handleSnmpGetnext_valuesFrom hempty (hrun h)
  · have hset := hrun h
    -- a SET puts no value into the response
    cases hset
    exact valuesFrom_nil _ _ _
  · exact handleSnmpGetbulk_valuesFrom hempty (hrun h)

theorem answer_valuesFrom (h : answer config mib.values request = .reply response) :
    ValuesFrom mib.values request.oidList response := by
  unfold answer at h
  split at h
  · cases h
    exact valuesFrom_nil _ _ _
  · exact dispatch_valuesFrom h

theorem encodable_emptyData {oid : Oid} (type : UInt8)
    (h : ((encodeSnmpOid oid).length : Int) ≤ oid.encodedLength) :
    Encodable ⟨oid, emptyData type⟩ :=
  ⟨h, show (0 : Int) ≤ 2 by decide, show (2 : Int) ≤ 2 by decide⟩

/-- A known OID fits into its slot: a decoded OID because its encoding is no longer than its
    content in the packet, an OID of the MIB because its length is exact. -/
theorem KnownOid.length_encode_le (hn : n ≤ maxPacketSize) (hacc : Accepted packet n request)
    {oid : Oid} (h : KnownOid mib.values request.oidList oid) :
    ((encodeSnmpOid oid).length : Int) ≤ oid.encodedLength := by
  rcases h with hdecoded | ⟨value, hvalue, rfl⟩
  · exact (hacc.oids oid hdecoded).length_encode_le hn
  · exact (mib.entries value hvalue).exact.ge

/-- **The response to an accepted request can be encoded.** -/
theorem answer_encoderInput (hn : n ≤ maxPacketSize) (hacc : Accepted packet n request)
    (h : answer config mib.values request = .reply response) : EncoderInput request response where
  community := hacc.community.2
  room := hacc.room.trans maxNrOids_le_maxNrValues
  values := by
    intro value hvalue
    unfold valuesToEncode at hvalue
    split at hvalue
    · -- an error: the OIDs of the request with NULL
      obtain ⟨oid, hoid, rfl⟩ := List.mem_map.mp hvalue
      exact encodable_emptyData _ ((hacc.oids oid hoid).length_encode_le hn)
    · -- no error: entries of the MIB, and exceptions under known OIDs
      cases answer_valuesFrom h value hvalue with
      | entry hentry => exact (mib.entries value hentry).encodable
      | exception type hknown => exact encodable_emptyData type (hknown.length_encode_le hn hacc)

end

/-! ## The cases of `snmp` -/

section

variable {config : Config} {values : List Value} {client : Client} {request : Request} {pos : Nat}

theorem snmp_of_rejected {e : Failure}
    (h : (decodeSnmpRequest client.size).eval client.packet = .error e) :
    snmp config values client = (.error e, client) := by
  simp only [snmp, h]

theorem snmp_of_fail {e : Failure}
    (h : (decodeSnmpRequest client.size).eval client.packet = .ok (request, pos))
    (ha : answer config values request = .fail e) :
    snmp config values client = (.error e, client) := by
  simp only [snmp, h, ha]

theorem snmp_of_ignore
    (h : (decodeSnmpRequest client.size).eval client.packet = .ok (request, pos))
    (ha : answer config values request = .ignore) :
    snmp config values client = (.ok (), { client with size := 0 }) := by
  simp only [snmp, h, ha]

theorem snmp_of_reply {response : Response}
    (h : (decodeSnmpRequest client.size).eval client.packet = .ok (request, pos))
    (ha : answer config values request = .reply response) :
    snmp config values client = encodeSnmpResponse request response client := by
  simp only [snmp, h, ha]

/-- The protocol handler leaves a packet that fits into the buffer. -/
theorem snmp_size_le {mib : Mib} (h : client.size ≤ maxPacketSize) :
    (snmp config mib.values client).2.size ≤ maxPacketSize := by
  cases hdec : (decodeSnmpRequest client.size).eval client.packet with
  | error e => rwa [snmp_of_rejected hdec]
  | ok result =>
    obtain ⟨request, pos⟩ := result
    cases ha : answer config mib.values request with
    | fail e => rwa [snmp_of_fail hdec ha]
    | ignore =>
      rw [snmp_of_ignore hdec ha]
      exact Nat.zero_le _
    | reply response =>
      have hin := answer_encoderInput h (decodeSnmpRequest_accepted h hdec) ha
      rw [snmp_of_reply hdec ha]
      by_cases hfit : (responseContent request response).length ≤ maxPacketSize
      · obtain ⟨packet, hrun, -⟩ := encodeSnmpResponse_of_fits hin hfit client
        rw [hrun]
        exact hfit
      · obtain ⟨e, cut, hrun⟩ := encodeSnmpResponse_of_overflow hin (Nat.not_le.mp hfit)
        rw [hrun client]
        exact h

/-- The protocol handler leaves the socket of the client alone. -/
theorem snmp_sockfd (config : Config) (values : List Value) (client : Client) :
    (snmp config values client).2.sockfd = client.sockfd := by
  cases hdec : (decodeSnmpRequest client.size).eval client.packet with
  | error e => rw [snmp_of_rejected hdec]
  | ok result =>
    obtain ⟨request, pos⟩ := result
    cases ha : answer config values request with
    | fail e => rw [snmp_of_fail hdec ha]
    | ignore => rw [snmp_of_ignore hdec ha]
    | reply response =>
      rw [snmp_of_reply hdec ha]
      exact encodeSnmpResponse_sockfd request response client

end

end SdkSnmpd
