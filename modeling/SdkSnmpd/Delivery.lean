import SdkSnmpd.Padding
import SdkSnmpd.VersionOne
import SdkSnmpd.Tcp
import SdkSnmpd.Udp

/-!
# Which Answers are Delivered

A response holds `MAX_NR_VALUES` values, and a packet `MAX_PACKET_SIZE` bytes. What does not
fit is not sent.

## Contents

- `fullAnswer`: the answer to a request, without the two limits.
- `answer_eq`: the handlers give this answer, unless it has too many values.
- `snmp_delivers`: it is delivered as a whole, or not at all.
-/

namespace SdkSnmpd

open Lib (Mem Scan)

/-! ## The full answer -/

/-- What a request is answered where neither values nor bytes are limited. -/
def fullAnswer (config : Config) (values : List Value) (request : Request) : Response :=
  match authError config request with
  | some errorStatus => { emptyResponse with errorStatus, errorIndex := 0 }
  | none =>
      if request.type = berTypeSnmpGetbulk then ⟨snmpStatusOk, 0, bulkAnswers values request⟩
      else if request.type = berTypeSnmpSet then
        ⟨if request.version = snmpVersion1 then snmpStatusNoSuchName else snmpStatusNoAccess, 0, []⟩
      else if request.version = snmpVersion1 then
        versionOneResponse (lookupOf values request) request.oidList
      else ⟨snmpStatusOk, 0, request.oidList.map (answerOf (lookupOf values request))⟩

/-- The full answer has room in a response, and its encoding in a packet. -/
structure Fits (config : Config) (values : List Value) (request : Request) : Prop where
  count : (fullAnswer config values request).valueList.length ≤ maxNrValues
  bytes : (responseContent request (fullAnswer config values request)).length ≤ maxPacketSize

section

variable {config : Config} {values : List Value} {request : Request}

/-- Only a GETBULK can have too many values. -/
theorem length_fullAnswer_le (htype : request.type ≠ berTypeSnmpGetbulk)
    (hroom : request.oidList.length ≤ maxNrOids) :
    (fullAnswer config values request).valueList.length ≤ maxNrValues := by
  have hle := hroom.trans maxNrOids_le_maxNrValues
  unfold fullAnswer
  split
  · exact Nat.zero_le _
  · rw [if_neg htype]
    split
    · exact Nat.zero_le _
    · split
      · unfold versionOneResponse
        split
        · rw [List.length_map, List.length_take]
          omega
        · rwa [List.length_map]
      · rwa [List.length_map]

/-- The handlers give the full answer, unless it has too many values. -/
theorem answer_eq (htype : IsRequestType request.type)
    (hroom : request.oidList.length ≤ maxNrOids) :
    answer config values request =
      if (fullAnswer config values request).valueList.length ≤ maxNrValues then
        .reply (fullAnswer config values request)
      else .fail (overflow "could not handle SNMP GETNEXT: value list overflow") := by
  cases hauth : authError config request with
  | some errorStatus =>
    have hfull : fullAnswer config values request = ⟨errorStatus, 0, []⟩ := by
      simp only [fullAnswer, hauth, emptyResponse]
    rw [answer_of_authError hauth, hfull]
    exact (if_pos (Nat.zero_le _)).symm
  | none =>
    by_cases hbulk : request.type = berTypeSnmpGetbulk
    · -- only GETBULK can have more answers than OIDs
      have hfull : fullAnswer config values request =
          ⟨snmpStatusOk, 0, bulkAnswers values request⟩ := by
        simp only [fullAnswer, hauth, if_pos hbulk]
      rw [answer_getbulk hauth hbulk hroom, hfull]
    · -- every other type has at most one value for each OID
      rw [if_pos (length_fullAnswer_le hbulk hroom)]
      by_cases hset : request.type = berTypeSnmpSet
      · simp only [fullAnswer, hauth, if_neg hbulk, if_pos hset]
        rw [answer_of_authorized hauth, dispatch, hset, if_neg (by decide), if_neg (by decide),
          if_pos rfl]
        rfl
      · have hgets : request.type = berTypeSnmpGet ∨ request.type = berTypeSnmpGetnext := by
          unfold IsRequestType at htype
          tauto
        simp only [fullAnswer, hauth, if_neg hbulk, if_neg hset]
        by_cases hversion : request.version = snmpVersion1
        · rw [answer_version1 hversion hauth hgets hroom, if_pos hversion]
        · rw [answer_version2c hversion hauth hgets hroom, if_neg hversion]

end

/-! ## Delivery -/

section

variable {config : Config} {mib : Mib} {client : Client} {request : Request} {pos : Nat}

/-- A response that has room is encoded. -/
theorem snmp_of_count (hsize : client.size ≤ maxPacketSize)
    (hdec : (decodeSnmpRequest client.size).eval client.packet = .ok (request, pos))
    (htype : IsRequestType request.type)
    (hcount : (fullAnswer config mib.values request).valueList.length ≤ maxNrValues) :
    snmp config mib.values client =
        encodeSnmpResponse request (fullAnswer config mib.values request) client ∧
      EncoderInput request (fullAnswer config mib.values request) := by
  have hacc := decodeSnmpRequest_accepted hsize hdec
  have hanswer := @answer_eq config mib.values request htype hacc.room
  rw [if_pos hcount] at hanswer
  exact ⟨snmp_of_reply hdec hanswer, answer_encoderInput hsize hacc hanswer⟩

/-- The protocol handler succeeds exactly if the full answer fits. -/
theorem snmp_ok_iff (hsize : client.size ≤ maxPacketSize)
    (hdec : (decodeSnmpRequest client.size).eval client.packet = .ok (request, pos))
    (htype : IsRequestType request.type) :
    (snmp config mib.values client).1 = .ok () ↔ Fits config mib.values request := by
  by_cases hcount : (fullAnswer config mib.values request).valueList.length ≤ maxNrValues
  · obtain ⟨hrun, hin⟩ := snmp_of_count hsize hdec htype hcount
    rw [hrun, encodeSnmpResponse_ok_iff hin]
    exact ⟨fun hbytes => ⟨hcount, hbytes⟩, fun hfits => hfits.bytes⟩
  · -- the handler has failed
    have hacc := decodeSnmpRequest_accepted hsize hdec
    have hanswer := @answer_eq config mib.values request htype hacc.room
    rw [if_neg hcount] at hanswer
    rw [snmp_of_fail hdec hanswer]
    exact iff_of_false (by simp) fun hfits => hcount hfits.count

/-- After a failure UDP sends nothing. -/
theorem udpReply_sent_of_ne {r : Except Failure Unit × Client} (h : r.1 ≠ .ok ()) :
    (udpReply client r).sent = none := by
  obtain ⟨e | u, client'⟩ := r
  · rfl
  · exact absurd rfl h

/-- After a failure TCP closes the connection. -/
theorem handleTcpPacket_sockfd_of_ne {values : List Value}
    (h : (snmp config values { client with outgoing := false }).1 ≠ .ok ()) :
    (handleTcpPacket config values client).1.sockfd = -1 := by
  unfold handleTcpPacket
  rcases hrun : snmp config values { client with outgoing := false } with ⟨e | u, client'⟩
  · rfl
  · rw [hrun] at h
    exact absurd rfl h

end

/-- No answer has the error state tooBig. -/
theorem fullAnswer_errorStatus_ne (config : Config) (values : List Value) (request : Request) :
    (fullAnswer config values request).errorStatus ≠ snmpStatusTooBig := by
  have hok : snmpStatusOk ≠ snmpStatusTooBig := by decide
  have hnoName : snmpStatusNoSuchName ≠ snmpStatusTooBig := by decide
  unfold fullAnswer
  cases hauth : authError config request with
  | some errorStatus =>
    -- the check has two error states
    change errorStatus ≠ snmpStatusTooBig
    unfold authError at hauth
    split_ifs at hauth <;> cases hauth <;> decide
  | none =>
    dsimp only
    split_ifs
    · exact hok
    · exact hnoName
    · decide
    · unfold versionOneResponse
      split_ifs
      · exact hnoName
      · exact hok
    · exact hok

/-- **Whole or not at all.** An accepted request is answered with the full answer if that has at
    most `MAX_NR_VALUES` values, and its encoding at most `MAX_PACKET_SIZE` bytes; only a GETBULK
    can have more values. If no OID of the request came padded, then the packet is that encoding.
    If it has more, then -1 is returned, UDP sends nothing, and TCP closes the connection. -/
theorem snmp_delivers (config : Config) (mib : Mib) (client : Client)
    (hsize : client.size ≤ maxPacketSize) (request : Request) (pos : Nat)
    (hdec : (decodeSnmpRequest client.size).eval client.packet = .ok (request, pos))
    (htype : IsRequestType request.type) :
    (request.type ≠ berTypeSnmpGetbulk →
      (fullAnswer config mib.values request).valueList.length ≤ maxNrValues) ∧
    (fullAnswer config mib.values request).errorStatus ≠ snmpStatusTooBig ∧
    (Fits config mib.values request →
      snmp config mib.values client =
          encodeSnmpResponse request (fullAnswer config mib.values request) client ∧
        (snmp config mib.values client).1 = .ok () ∧ 0 < (snmp config mib.values client).2.size ∧
        (Unpadded request →
          let bytes := responseBytes request (fullAnswer config mib.values request)
          (snmp config mib.values client).2.size = bytes.length ∧
            (snmp config mib.values client).2.packet.HoldsAt 0 bytes)) ∧
    (¬ Fits config mib.values request →
      (snmp config mib.values client).1 ≠ .ok () ∧
        (udpReply client (snmp config mib.values client)).sent = none ∧
        (handleTcpPacket config mib.values client).1.sockfd = -1) := by
  have hacc := decodeSnmpRequest_accepted hsize hdec
  have hiff := @snmp_ok_iff config mib client request pos hsize hdec htype
  refine ⟨fun hbulk => length_fullAnswer_le hbulk hacc.room, fullAnswer_errorStatus_ne _ _ _,
    fun hfits => ?_, fun hnot => ?_⟩
  · have hok := hiff.mpr hfits
    obtain ⟨hrun, hin⟩ := snmp_of_count hsize hdec htype hfits.count
    refine ⟨hrun, hok, ?_⟩
    rw [hrun] at hok ⊢
    have hcarries := encodeSnmpResponse_carries hin client hok
    refine ⟨?_, fun hunpadded => ?_⟩
    · -- a message has a header
      rw [hcarries.size, responseContent, length_element]
      omega
    · -- no slot is wider than its OID
      have hanswer := @answer_eq config mib.values request htype hacc.room
      rw [if_pos hfits.count] at hanswer
      rw [responseContent_of_exact fun _ hvalue =>
        exactOid_of_answer hacc hunpadded hanswer hvalue] at hcarries
      exact ⟨by rw [hcarries.size, List.length_map], hcarries.showsAt.slice⟩
  · have hfail : (snmp config mib.values client).1 ≠ .ok () := fun hok => hnot (hiff.mp hok)
    -- TCP hands the same packet over, marked as incoming
    refine ⟨hfail, udpReply_sent_of_ne hfail, handleTcpPacket_sockfd_of_ne fun hok => hnot ?_⟩
    exact (@snmp_ok_iff config mib { client with outgoing := false } request pos hsize hdec
      htype).mp hok

/-! ## An answer that is too long -/

/-- The MIB with the one entry `.1.3.268435456.…` of 16 subids. -/
def longOidMib : Mib where
  values := [⟨⟨[1, 3] ++ List.replicate 14 0x10000000, 73⟩, ⟨[0x02, 0x01, 0x05], 3, 3⟩⟩]
  room := by decide
  entries := by
    intro value h
    obtain rfl := List.mem_singleton.mp h
    exact ⟨by decide, by decide, by decide, by decide⟩

/-- A version 2 GETBULK for two repetitions of 14 times `.1.3`. -/
def wideBulk : List UInt8 :=
  [0x30, 0x75, 0x02, 0x01, 0x01, 0x04, 0x01, 0x70, 0xA5, 0x6D, 0x02, 0x01, 0x01, 0x02, 0x01,
    0x00, 0x02, 0x01, 0x02, 0x30, 0x62] ++
      (List.replicate 14 [0x30, 0x05, 0x06, 0x01, 0x2B, 0x05, 0x00]).flatten

def wideBulkClient : Client := .holding (Mem.ofList wideBulk) 119

/-- What it is decoded to. -/
def wideBulkRequest : Request :=
  ⟨communityP, berTypeSnmpGetbulk, snmpVersion2c, 1, 0, 2, List.replicate 14 ⟨[1, 3], 3⟩⟩

theorem eval_wideBulk :
    (decodeSnmpRequest wideBulkClient.size).eval wideBulkClient.packet =
      .ok (wideBulkRequest, 119) :=
  Lib.ok_of_toOption (by decide +kernel)

theorem isRequestType_wideBulk : IsRequestType wideBulkRequest.type := .inr (.inr (.inr rfl))

/-- The request is accepted, and dropped. -/
theorem wideBulk_dropped :
    (decodeSnmpRequest wideBulkClient.size).eval wideBulkClient.packet =
        .ok (wideBulkRequest, 119) ∧
      IsRequestType wideBulkRequest.type ∧
      (snmp ⟨communityP, false⟩ longOidMib.values wideBulkClient).1 ≠ .ok () := by
  refine ⟨eval_wideBulk, isRequestType_wideBulk, fun hok => ?_⟩
  have hfail : (snmp ⟨communityP, false⟩ longOidMib.values wideBulkClient).1.toOption = none := by
    decide +kernel
  rw [hok] at hfail
  cases hfail

/-- From the empty MIB the same request gets an answer that fits. -/
theorem fits_wideBulk : Fits ⟨communityP, false⟩ emptyMib.values wideBulkRequest :=
  ⟨by decide +kernel, by decide +kernel⟩

theorem snmp_delivers_wideBulk :
    (¬ Fits ⟨communityP, false⟩ longOidMib.values wideBulkRequest ∧
      (udpReply wideBulkClient
        (snmp ⟨communityP, false⟩ longOidMib.values wideBulkClient)).sent = none ∧
      (handleTcpPacket ⟨communityP, false⟩ longOidMib.values wideBulkClient).1.sockfd = -1) ∧
    Fits ⟨communityP, false⟩ emptyMib.values wideBulkRequest ∧
      (snmp ⟨communityP, false⟩ emptyMib.values wideBulkClient).2.packet.HoldsAt 0
        (responseBytes wideBulkRequest
          (fullAnswer ⟨communityP, false⟩ emptyMib.values wideBulkRequest)) := by
  have hlong := snmp_delivers ⟨communityP, false⟩ longOidMib wideBulkClient (by decide)
    wideBulkRequest 119 eval_wideBulk isRequestType_wideBulk
  have hempty := snmp_delivers ⟨communityP, false⟩ emptyMib wideBulkClient (by decide)
    wideBulkRequest 119 eval_wideBulk isRequestType_wideBulk
  have hnot : ¬ Fits ⟨communityP, false⟩ longOidMib.values wideBulkRequest :=
    fun hfits => absurd hfits.bytes (by decide +kernel)
  have hunpadded : Unpadded wideBulkRequest := by unfold Unpadded; decide
  exact ⟨⟨hnot, (hlong.2.2.2 hnot).2⟩, fits_wideBulk,
    ((hempty.2.2.1 fits_wideBulk).2.2.2 hunpadded).2⟩

end SdkSnmpd
