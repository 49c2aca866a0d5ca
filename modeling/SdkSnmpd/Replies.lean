import SdkSnmpd.RoundTrip
import SdkSnmpd.Snmp

/-!
# The Replies of the Agent

What a peer can learn from a reply, and which messages are replied to at all.

The response is built in the buffer that held the request, and earlier packets. A byte of it
that the encoder does not write shows what the buffer held there. The community is checked
before the type of the request, so that a message that is no request can be answered with an
error.

## Contents

- `Gap`: the indices that the encoder leaves as they were (`exists_gap_iff`).
- `noLeftovers_iff`: the replies to a packet carry no leftovers exactly when every gap of the
  response is a byte of the packet.
- `Silent`: nothing is sent. `snmp_silent_iff`: when a message that is no request is met
  with silence.
-/

namespace SdkSnmpd

open Lib (Mem Scan Content)

/-! ## Replies over two buffers -/

/-- A client whose buffer holds a packet of `n` bytes. -/
def Client.holding (packet : Mem) (n : Nat) : Client :=
  { Client.empty with packet, size := n }

/-- Two replies that a peer cannot tell apart. -/
structure SameReply (r r' : Except Failure Unit × Client) : Prop where
  result : r.1 = r'.1
  size : r.2.size = r'.2.size
  bytes : Mem.AgreeBelow r.2.size r.2.packet r'.2.packet

/-- The reply to a packet of `n` bytes is the same whatever the buffer holds behind it. -/
def NoLeftovers (config : Config) (values : List Value) (packet : Mem) (n : Nat) : Prop :=
  ∀ client client' : Client, client.size = n → client'.size = n →
    Mem.AgreeBelow n packet client.packet → Mem.AgreeBelow n packet client'.packet →
    SameReply (snmp config values client) (snmp config values client')

/-- The encoder builds `content` at the end of the buffer, and does not write index `i`
    there: the index lies in the slot of an OID whose encoding is shorter than the slot. -/
def Gap (content : Content) (i : Nat) : Prop :=
  ∃ k, content[k]? = some none ∧ i = maxPacketSize - content.length + k

theorem none_mem_varbindContent {value : Value} :
    none ∈ varbindContent value ↔
      (encodeSnmpOid value.oid).length < value.oid.encodedLength.toNat := by
  simp [varbindContent, element, Lib.slot, -List.map_take, Nat.sub_eq_zero_iff_le]

/-- The bytes that are left as they were pad out the slots of OIDs that came padded. -/
theorem exists_gap_iff {request : Request} {response : Response} :
    (∃ i, Gap (responseContent request response) i) ↔
      ∃ value ∈ valuesToEncode request response,
        (encodeSnmpOid value.oid).length < value.oid.encodedLength.toNat := by
  have hnone : (∃ i, Gap (responseContent request response) i) ↔
      none ∈ responseContent request response := by
    rw [List.mem_iff_getElem?]
    constructor
    · rintro ⟨i, k, hk, -⟩
      exact ⟨k, hk⟩
    · rintro ⟨k, hk⟩
      exact ⟨_, k, hk, rfl⟩
  rw [hnone]
  simp [responseContent, pduContent, integerElement, element, none_mem_varbindContent]

/-- Where nothing is written, buffers that agree below `n` give the same reply. -/
theorem sameReply_of_agree {n : Nat} {r : Except Failure Unit} {client client' : Client}
    (hsize : client.size = n) (hsize' : client'.size = n)
    (hag : Mem.AgreeBelow n client.packet client'.packet) : SameReply (r, client) (r, client') where
  result := rfl
  size := hsize.trans hsize'.symm
  bytes := by
    subst hsize
    exact hag

/-! ## The encoder over two buffers -/

section

variable {request : Request} {response : Response}

/-- A response that fits: the replies are the same exactly when the buffers agree in the
    gaps. -/
theorem sameReply_encode_iff (hin : EncoderInput request response)
    (hfit : (responseContent request response).length ≤ maxPacketSize) (client client' : Client) :
    SameReply (encodeSnmpResponse request response client)
        (encodeSnmpResponse request response client') ↔
      ∀ i, Gap (responseContent request response) i → client.packet i = client'.packet i := by
  obtain ⟨packet, hrun, hbytes⟩ := encodeSnmpResponse_of_fits hin hfit client
  obtain ⟨packet', hrun', hbytes'⟩ := encodeSnmpResponse_of_fits hin hfit client'
  rw [hrun, hrun']
  constructor
  · rintro ⟨-, -, hag⟩ i ⟨k, hgap, rfl⟩
    obtain ⟨hk, hnone⟩ := List.getElem?_eq_some_iff.mp hgap
    have heq : packet k = packet' k := hag k hk
    rw [hbytes k hk, hbytes' k hk, hnone] at heq
    exact heq
  · intro hgaps
    refine ⟨rfl, rfl, fun k hk => ?_⟩
    change packet k = packet' k
    have hk' : k < (responseContent request response).length := hk
    rw [hbytes k hk', hbytes' k hk']
    cases hbyte : (responseContent request response)[k] with
    | some b => rfl
    | none => exact hgaps _ ⟨k, List.getElem?_eq_some_iff.mpr ⟨hk', hbyte⟩, rfl⟩

/-- A response that does not fit leaves packets of the same length, cut off in the same
    place. -/
theorem sameReply_encode_of_overflow (hin : EncoderInput request response)
    (hover : maxPacketSize < (responseContent request response).length) {n : Nat}
    {client client' : Client} (hsize : client.size = n) (hsize' : client'.size = n)
    (hag : Mem.AgreeBelow n client.packet client'.packet) :
    SameReply (encodeSnmpResponse request response client)
      (encodeSnmpResponse request response client') := by
  obtain ⟨e, cut, hrun⟩ := encodeSnmpResponse_of_overflow hin hover
  rw [hrun client, hrun client']
  subst hsize
  exact ⟨rfl, hsize'.symm, Mem.patch_congr hag⟩

end

/-! ## The replies of the agent -/

section

variable {config : Config} {mib : Mib} {packet : Mem} {n : Nat}

/-- **Leftovers.** Over packets whose lengths fit: the reply carries no leftovers exactly when
    every gap of the response is a byte of the packet itself. -/
theorem noLeftovers_iff (config : Config) (mib : Mib) (packet : Mem) (n : Nat)
    (hn : n ≤ maxPacketSize) (hfit : LengthsFit packet n) :
    NoLeftovers config mib.values packet n ↔
      ∀ request pos response, (decodeSnmpRequest n).eval packet = .ok (request, pos) →
        answer config mib.values request = .reply response →
        (responseContent request response).length ≤ maxPacketSize →
        ∀ i, Gap (responseContent request response) i → i < n := by
  constructor
  · intro hsame request pos response hdec hanswer hlen i hgap
    by_contra hbehind
    -- two buffers that differ in every byte behind the packet
    let other : Mem := fun j => if j < n then packet j else packet j + 1
    have hag : Mem.AgreeBelow n packet other := fun j hj => (if_pos hj).symm
    have hin := answer_encoderInput hn (decodeSnmpRequest_accepted hn hdec) hanswer
    have hreply := hsame (.holding packet n) (.holding other n) rfl rfl (fun _ _ => rfl) hag
    have hdec' : (decodeSnmpRequest n).eval other = .ok (request, pos) :=
      (decodeSnmpRequest_congr hn hfit hag).trans hdec
    have hrun : snmp config mib.values (.holding packet n) =
        encodeSnmpResponse request response (.holding packet n) := snmp_of_reply hdec hanswer
    have hrun' : snmp config mib.values (.holding other n) =
        encodeSnmpResponse request response (.holding other n) := snmp_of_reply hdec' hanswer
    rw [hrun, hrun', sameReply_encode_iff hin hlen] at hreply
    have heq : packet i = packet i + 1 := (hreply i hgap).trans (if_neg hbehind)
    simp at heq
  · intro hgaps client client' hsize hsize' hag hag'
    have hcongr : (decodeSnmpRequest client.size).eval client.packet =
        (decodeSnmpRequest n).eval packet := by
      rw [hsize]
      exact decodeSnmpRequest_congr hn hfit hag
    have hcongr' : (decodeSnmpRequest client'.size).eval client'.packet =
        (decodeSnmpRequest n).eval packet := by
      rw [hsize']
      exact decodeSnmpRequest_congr hn hfit hag'
    have hagree : Mem.AgreeBelow n client.packet client'.packet := fun i hi =>
      (hag i hi).symm.trans (hag' i hi)
    cases hdec : (decodeSnmpRequest n).eval packet with
    | error e =>
      rw [snmp_of_rejected (hcongr.trans hdec), snmp_of_rejected (hcongr'.trans hdec)]
      exact sameReply_of_agree hsize hsize' hagree
    | ok result =>
      obtain ⟨request, pos⟩ := result
      have hdec₁ := hcongr.trans hdec
      have hdec₂ := hcongr'.trans hdec
      cases hanswer : answer config mib.values request with
      | fail e =>
        rw [snmp_of_fail hdec₁ hanswer, snmp_of_fail hdec₂ hanswer]
        exact sameReply_of_agree hsize hsize' hagree
      | ignore =>
        rw [snmp_of_ignore hdec₁ hanswer, snmp_of_ignore hdec₂ hanswer]
        exact ⟨rfl, rfl, fun i hi => absurd hi (Nat.not_lt_zero i)⟩
      | reply response =>
        rw [snmp_of_reply hdec₁ hanswer, snmp_of_reply hdec₂ hanswer]
        have hin := answer_encoderInput hn (decodeSnmpRequest_accepted hn hdec) hanswer
        by_cases hlen : (responseContent request response).length ≤ maxPacketSize
        · rw [sameReply_encode_iff hin hlen]
          intro i hgap
          exact hagree i (hgaps request pos response hdec hanswer hlen i hgap)
        · exact sameReply_encode_of_overflow hin (Nat.not_le.mp hlen) hsize hsize' hagree

end

/-- A v2c GET request for `.1.3.1` that pads its last subid with a zero group. -/
def paddedGet : List UInt8 :=
  [0x30, 0x1C, 0x02, 0x01, 0x01, 0x04, 0x01, 0x70, 0xA0, 0x14, 0x02, 0x01, 0x01, 0x02, 0x01,
    0x00, 0x02, 0x01, 0x00, 0x30, 0x09, 0x30, 0x07, 0x06, 0x03, 0x2B, 0x80, 0x01, 0x05, 0x00]

def emptyMib : Mib := ⟨[], by decide, fun _ h => absurd h List.not_mem_nil⟩

/-- The buffer behind the request held zeros, or ones. -/
theorem paddedGet_leftovers :
    LengthsFit (Mem.ofList paddedGet) paddedGet.length ∧
      ¬ NoLeftovers ⟨communityP, false⟩ emptyMib.values (Mem.ofList paddedGet)
        paddedGet.length := by
  refine ⟨lengthsFit_of_test 16 (by decide +kernel), fun hsame => ?_⟩
  have hreply := hsame (.holding (Mem.ofList paddedGet) 30)
    (.holding (fun i => if i < 30 then Mem.ofList paddedGet i else 1) 30) rfl rfl
    (fun _ _ => rfl) fun i hi => (if_pos hi).symm
  have hbyte := hreply.bytes 27 (by decide +kernel)
  revert hbyte
  decide +kernel

theorem noLeftovers_iff_paddedGet :
    NoLeftovers ⟨communityP, false⟩ emptyMib.values (Mem.ofList paddedGet) 30 ↔
      ∀ request pos response,
        (decodeSnmpRequest 30).eval (Mem.ofList paddedGet) = .ok (request, pos) →
        answer ⟨communityP, false⟩ emptyMib.values request = .reply response →
        (responseContent request response).length ≤ maxPacketSize →
        ∀ i, Gap (responseContent request response) i → i < 30 :=
  noLeftovers_iff ⟨communityP, false⟩ emptyMib (Mem.ofList paddedGet) 30 (by decide)
    (lengthsFit_of_test 16 (by decide +kernel))

/-! ## Messages that are no requests -/

/-- The PDU tags that the agent handles. -/
def IsRequestType (tag : UInt8) : Prop :=
  tag = berTypeSnmpGet ∨ tag = berTypeSnmpGetnext ∨ tag = berTypeSnmpSet ∨
    tag = berTypeSnmpGetbulk

/-- The callers of the handler send nothing: it returned -1, or left an empty packet. -/
def Silent (r : Except Failure Unit × Client) : Prop :=
  r.1 ≠ .ok () ∨ r.2.size = 0

section

variable {config : Config} {values : List Value} {request : Request}

/-- A type that no handler takes is ignored. -/
theorem dispatch_ignore (h : ¬ IsRequestType request.type) : dispatch values request = .ignore := by
  simp only [IsRequestType, not_or] at h
  obtain ⟨hget, hgetnext, hset, hgetbulk⟩ := h
  rw [dispatch, if_neg hget, if_neg hgetnext, if_neg hset, if_neg hgetbulk]

theorem answer_of_authError {errorStatus : Int32}
    (h : authError config request = some errorStatus) :
    answer config values request =
      .reply { emptyResponse with errorStatus, errorIndex := 0 } := by
  simp only [answer, h]

theorem answer_of_authorized (h : authError config request = none) :
    answer config values request = dispatch values request := by
  simp only [answer, h]

/-- A reply is silent exactly when it does not fit. -/
theorem silent_encode_iff {response : Response} (hin : EncoderInput request response)
    (client : Client) :
    Silent (encodeSnmpResponse request response client) ↔
      maxPacketSize < (responseContent request response).length := by
  have hok := encodeSnmpResponse_ok_iff hin client
  constructor
  · rintro (herror | hempty)
    · rw [← Nat.not_le, ← hok]
      exact herror
    · by_contra hfit
      obtain ⟨packet, hrun, -⟩ := encodeSnmpResponse_of_fits hin (Nat.not_lt.mp hfit) client
      rw [hrun] at hempty
      -- a message has a header
      have hzero : (responseContent request response).length = 0 := hempty
      rw [responseContent, length_element] at hzero
      omega
  · intro hover
    left
    rw [Ne, hok]
    omega

end

/-- **Unsolicited replies.** A message whose PDU is no request is met with silence exactly
    when it is not decoded, or passes the community check, or has an error reply that does
    not fit into a packet. -/
theorem snmp_silent_iff (config : Config) (mib : Mib) (client : Client)
    (hsize : client.size ≤ maxPacketSize)
    (hother : ∀ tag, PduTag client.packet client.size tag → ¬ IsRequestType tag) :
    Silent (snmp config mib.values client) ↔
      ∀ request pos errorStatus,
        (decodeSnmpRequest client.size).eval client.packet = .ok (request, pos) →
        authError config request = some errorStatus →
        maxPacketSize <
          (responseContent request { emptyResponse with errorStatus, errorIndex := 0 }).length := by
  cases hdec : (decodeSnmpRequest client.size).eval client.packet with
  | error e =>
    rw [snmp_of_rejected hdec]
    exact iff_of_true (.inl (by simp)) (fun _ _ _ h => by cases h)
  | ok result =>
    obtain ⟨request, pos⟩ := result
    have hacc := decodeSnmpRequest_accepted hsize hdec
    cases hauth : authError config request with
    | none =>
      -- there is no handler for a PDU that is no request
      have hignore : answer config mib.values request = .ignore := by
        rw [answer_of_authorized hauth]
        exact dispatch_ignore (hother _ hacc.tag)
      rw [snmp_of_ignore hdec hignore]
      refine iff_of_true (.inr rfl) fun request' pos' errorStatus h h' => ?_
      cases h
      rw [hauth] at h'
      cases h'
    | some errorStatus =>
      -- the type of the PDU is not looked at before the community
      have hreply : answer config mib.values request =
          .reply { emptyResponse with errorStatus, errorIndex := 0 } := answer_of_authError hauth
      rw [snmp_of_reply hdec hreply, silent_encode_iff (answer_encoderInput hsize hacc hreply)]
      constructor
      · intro hover request' pos' errorStatus' h h'
        cases h
        rw [hauth] at h'
        cases h'
        exact hover
      · intro h
        exact h request pos errorStatus rfl hauth

/-- A v2c RESPONSE with the community `q`. -/
def strayResponse : List UInt8 :=
  [0x30, 0x13, 0x02, 0x01, 0x01, 0x04, 0x01, 0x71, 0xA2, 0x0B, 0x02, 0x01, 0x01, 0x02, 0x01,
    0x00, 0x02, 0x01, 0x00, 0x30, 0x00]

/-- The client that has received it. -/
def strayClient : Client := .holding (Mem.ofList strayResponse) 21

theorem pduTag_strayClient : PduTag strayClient.packet strayClient.size berTypeSnmpResponse := by
  have htype : ((decodeSnmpRequest 21).eval (Mem.ofList strayResponse)).toOption.map
      (fun r => r.1.type) = some berTypeSnmpResponse := by decide +kernel
  obtain ⟨r, hdec, htag⟩ := Lib.exists_ok_of_toOption htype
  have hacc := decodeSnmpRequest_accepted (by decide) hdec
  rw [← htag]
  exact hacc.tag

/-- A response is no request. -/
theorem not_isRequestType_response : ¬ IsRequestType berTypeSnmpResponse := by
  unfold IsRequestType
  decide

/-- The agent with the community `p` replies to the response: 21 bytes, no access. -/
theorem strayResponse_answered :
    PduTag strayClient.packet strayClient.size berTypeSnmpResponse ∧
      ¬ IsRequestType berTypeSnmpResponse ∧
      ¬ Silent (snmp ⟨communityP, false⟩ emptyMib.values strayClient) := by
  refine ⟨pduTag_strayClient, not_isRequestType_response, ?_⟩
  rintro (herror | hempty)
  · exact herror (Lib.ok_of_toOption (by decide +kernel))
  · revert hempty
    decide +kernel

theorem snmp_silent_iff_strayResponse :
    Silent (snmp ⟨communityP, false⟩ emptyMib.values strayClient) ↔
      ∀ request pos errorStatus,
        (decodeSnmpRequest strayClient.size).eval strayClient.packet = .ok (request, pos) →
        authError ⟨communityP, false⟩ request = some errorStatus →
        maxPacketSize <
          (responseContent request { emptyResponse with errorStatus, errorIndex := 0 }).length := by
  apply snmp_silent_iff ⟨communityP, false⟩ emptyMib strayClient (by decide)
  intro tag htag
  rw [htag.functional pduTag_strayClient]
  exact not_isRequestType_response

end SdkSnmpd
