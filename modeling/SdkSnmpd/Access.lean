import SdkSnmpd.Padding
import SdkSnmpd.Replies

/-!
# Access Control

What the community check of `snmp` lets through, and what a peer without access can learn.

## Contents

- `CommunityOctets`: the octets of the community in a packet.
- `communityChecked_iff`: when the check is exact.
- `learnsNothing_iff`: a request without access gets the same outcome from every MIB, and a
  reply that can be read unless one of its OIDs came padded.
-/

namespace SdkSnmpd

open Lib (Mem Scan)

/-! ## The community of a packet -/

/-- The octets of the community string of a packet, as many as its header declares. -/
def CommunityOctets (packet : Mem) (n : Nat) (octets : List UInt8) : Prop :=
  ∃ p length q, Reaches packet n ⟨.community, p⟩ ∧
    PacketHeader packet n p berTypeOctetString length q ∧ octets = packet.slice q length

section

variable {packet : Mem} {n : Nat} {request : Request} {pos : Nat} {octets : List UInt8}

/-- The community of an accepted request is what precedes the first zero octet. -/
theorem CommunityOctets.community_bytes (hn : n ≤ maxPacketSize)
    (hdec : (decodeSnmpRequest n).eval packet = .ok (request, pos))
    (h : CommunityOctets packet n octets) :
    request.community.bytes = octets.takeWhile (· ≠ 0) := by
  obtain ⟨p, length, q, hreach, hdr, rfl⟩ := h
  obtain ⟨message, version, community, -, -, -, -, -, hdr', hvalue, -, -⟩ :=
    decodeSnmpRequest_decoded hn hdec
  -- the walk leads to one community only
  obtain rfl := reaches_community_unique hreach
    ((Relation.ReflTransGen.single message).tail version)
  obtain ⟨-, rfl, rfl⟩ := hdr.functional hdr'
  cases community with
  | community hdrCommunity hshort _ _ =>
    obtain ⟨-, rfl, rfl⟩ := hdr.functional hdrCommunity
    have hprefix : ((packet.slice q length).takeWhile (· ≠ 0)).length ≤ length := by
      have hle := (List.takeWhile_prefix (l := packet.slice q length) (· ≠ 0)).length_le
      rwa [Mem.length_slice] at hle
    have htake : ((packet.slice q length).takeWhile (· ≠ 0)).take (maxStringSize - 1) =
        (packet.slice q length).takeWhile (· ≠ 0) := by
      apply List.take_of_length_le
      unfold maxStringSize at hshort ⊢
      omega
    rw [hvalue]
    change ((List.takeWhile _ _).take _).takeWhile _ = _
    rw [htake, List.takeWhile_idem]

end

/-! ## The check -/

/-- A request passes the check only with the community of the agent, and gets the error state
    noAccess otherwise. -/
structure CommunityChecked (config : Config) (values : List Value) (client : Client)
    (request : Request) (octets : List UInt8) : Prop where
  passes : authError config request = none → octets = config.community.bytes
  rejects : octets ≠ config.community.bytes →
    snmp config values client =
      encodeSnmpResponse request { emptyResponse with errorStatus := snmpStatusNoAccess } client

/-- In version 2 the check compares the community of the request. -/
theorem authError_version2c {config : Config} {request : Request}
    (hversion : request.version = snmpVersion2c) :
    authError config request =
      if config.community = request.community then none else some snmpStatusNoAccess := by
  rw [authError, if_pos hversion, if_pos hversion]
  by_cases heq : config.community = request.community
  · rw [if_neg (not_not.mpr heq), if_pos heq]
  · rw [if_pos heq, if_neg heq]

theorem authError_eq_none_iff {config : Config} {request : Request}
    (hversion : request.version = snmpVersion2c) :
    authError config request = none ↔ request.community.bytes = config.community.bytes := by
  rw [authError_version2c hversion]
  constructor
  · intro hnone
    by_contra hne
    rw [if_neg (fun heq => hne (congrArg CString.bytes heq.symm))] at hnone
    cases hnone
  · intro heq
    exact if_pos (CString.ext heq.symm)

/-- **The community check.** For an accepted version 2 request, the check is exact unless the
    community of the agent is what precedes a zero octet in the community of the packet. -/
theorem communityChecked_iff (config : Config) (values : List Value) (client : Client)
    (hsize : client.size ≤ maxPacketSize) (request : Request) (pos : Nat)
    (hdec : (decodeSnmpRequest client.size).eval client.packet = .ok (request, pos))
    (hversion : request.version = snmpVersion2c) (octets : List UInt8)
    (hoctets : CommunityOctets client.packet client.size octets) :
    CommunityChecked config values client request octets ↔
      ¬ (0 ∈ octets ∧ octets.takeWhile (· ≠ 0) = config.community.bytes) := by
  have hcommunity := hoctets.community_bytes hsize hdec
  have hpass : authError config request = none ↔
      octets.takeWhile (· ≠ 0) = config.community.bytes := by
    rw [authError_eq_none_iff hversion, hcommunity]
  constructor
  · rintro ⟨hexact, -⟩ ⟨hzero, hprefix⟩
    -- a community with a zero octet passes, but no C string has one
    rw [hexact (hpass.mpr hprefix)] at hzero
    exact config.community.noNul hzero
  · intro hno
    have hexact : authError config request = none → octets = config.community.bytes := by
      intro hnone
      have hprefix := hpass.mp hnone
      have hall : octets.takeWhile (· ≠ 0) = octets := by
        rw [List.takeWhile_eq_self_iff]
        intro b hb
        simpa using fun h0 : b = 0 => hno ⟨h0 ▸ hb, hprefix⟩
      rw [← hall, hprefix]
    refine ⟨hexact, fun hne => ?_⟩
    have hsome : authError config request = some snmpStatusNoAccess := by
      rw [authError_version2c hversion] at hexact ⊢
      rw [if_neg]
      exact fun heq => hne (hexact (if_pos heq))
    exact snmp_of_reply hdec (answer_of_authError hsome)

/-- A version 2 GET without bindings, whose community is `p`, a zero octet, and `q`. -/
def zeroCommunity : List UInt8 :=
  [0x30, 0x15, 0x02, 0x01, 0x01, 0x04, 0x03, 0x70, 0x00, 0x71, 0xA0, 0x0B, 0x02, 0x01, 0x01, 0x02,
    0x01, 0x00, 0x02, 0x01, 0x00, 0x30, 0x00]

/-- What it is decoded to. -/
def zeroCommunityRequest : Request :=
  ⟨communityP, berTypeSnmpGet, snmpVersion2c, 1, 0, 0, []⟩

theorem eval_zeroCommunity :
    (decodeSnmpRequest 23).eval (Mem.ofList zeroCommunity) = .ok (zeroCommunityRequest, 23) :=
  Lib.ok_of_toOption (by decide +kernel)

theorem communityOctets_zeroCommunity :
    CommunityOctets (Mem.ofList zeroCommunity) 23 [0x70, 0x00, 0x71] := by
  have hmessage : PacketHeader (Mem.ofList zeroCommunity) 23 0 berTypeSequence 21 2 :=
    .short (by decide) (by decide) (by decide)
  have hversion : PacketHeader (Mem.ofList zeroCommunity) 23 2 berTypeInteger 1 4 :=
    .short (by decide) (by decide) (by decide)
  have hcommunity : PacketHeader (Mem.ofList zeroCommunity) 23 5 berTypeOctetString 3 7 :=
    .short (by decide) (by decide) (by decide)
  refine ⟨5, 3, 7, ?_, hcommunity, by decide⟩
  exact (Relation.ReflTransGen.single (.message hmessage rfl)).tail
    (.version hversion (by decide) (by decide))

/-- The agent with the community `p` lets the request pass. -/
theorem zeroCommunity_not_checked :
    CommunityOctets (Mem.ofList zeroCommunity) 23 [0x70, 0x00, 0x71] ∧
      ¬ CommunityChecked ⟨communityP, false⟩ emptyMib.values
        (.holding (Mem.ofList zeroCommunity) 23) zeroCommunityRequest [0x70, 0x00, 0x71] := by
  refine ⟨communityOctets_zeroCommunity, fun h => ?_⟩
  have hoctets := h.passes (by decide)
  revert hoctets
  decide

theorem communityChecked_iff_zeroCommunity :
    CommunityChecked ⟨communityP, false⟩ emptyMib.values
        (.holding (Mem.ofList zeroCommunity) 23) zeroCommunityRequest [0x70, 0x00, 0x71] ↔
      ¬ (0 ∈ ([0x70, 0x00, 0x71] : List UInt8) ∧
        ([0x70, 0x00, 0x71] : List UInt8).takeWhile (· ≠ 0) = communityP.bytes) :=
  communityChecked_iff ⟨communityP, false⟩ emptyMib.values
    (.holding (Mem.ofList zeroCommunity) 23) (by decide) zeroCommunityRequest 23
    eval_zeroCommunity rfl [0x70, 0x00, 0x71] communityOctets_zeroCommunity

/-! ## Requests without access -/

/-- A version 2 request with another community, or a version 1 request where authentication
    is required. -/
def Unauthenticated (config : Config) (request : Request) : Prop :=
  (request.version = snmpVersion2c ∧ request.community ≠ config.community) ∨
    (request.version = snmpVersion1 ∧ config.auth = true)

theorem authError_of_unauthenticated {config : Config} {request : Request}
    (h : Unauthenticated config request) :
    ∃ errorStatus, errorStatus ≠ snmpStatusOk ∧ authError config request = some errorStatus := by
  rcases h with ⟨hversion, hne⟩ | ⟨hversion, hauth⟩
  · refine ⟨snmpStatusNoAccess, by decide, ?_⟩
    rw [authError_version2c hversion, if_neg (fun heq => hne heq.symm)]
  · refine ⟨snmpStatusGenErr, by decide, ?_⟩
    rw [authError, hversion, if_neg (by decide), if_pos hauth]

/-- The bindings of an error reply: the OIDs of the request, each with NULL. -/
def nullBindings (oids : List Oid) : List Value := oids.map fun oid => ⟨oid, mNull⟩

/-- What such a request is answered: an error state, and no variables. -/
def denial (errorStatus : Int32) : Response := { emptyResponse with errorStatus, errorIndex := 0 }

/-- Whoever receives the packet reads an error state from it, and the OIDs of the request, each
    with NULL. -/
def Refused (request : Request) (client : Client) : Prop :=
  ∃ reply : Reply,
    (∀ received : Mem, Mem.AgreeBelow client.size client.packet received →
      (readResponse client.size).eval received = .ok reply) ∧
    reply.errorStatus ≠ snmpStatusOk ∧
    reply.varbinds.map (fun varbind => (varbind.1.subidList, varbind.2)) =
      request.oidList.map fun oid => (oid.subidList, [berTypeNull, 0x00])

/-- The outcome is the same for every MIB, and a reply tells of the request only. -/
structure LearnsNothing (config : Config) (client : Client) : Prop where
  same : ∀ values values', snmp config values client = snmp config values' client
  refused : ∀ values, (snmp config values client).1 = .ok () →
    ∃ request pos, (decodeSnmpRequest client.size).eval client.packet = .ok (request, pos) ∧
      Refused request (snmp config values client).2

section

variable {config : Config} {client : Client} {request : Request} {pos : Nat}

theorem snmp_of_denial {errorStatus : Int32}
    (hdec : (decodeSnmpRequest client.size).eval client.packet = .ok (request, pos))
    (hauth : authError config request = some errorStatus) (values : List Value) :
    snmp config values client = encodeSnmpResponse request (denial errorStatus) client :=
  snmp_of_reply hdec (answer_of_authError hauth)

theorem encoderInput_denial {errorStatus : Int32} (hsize : client.size ≤ maxPacketSize)
    (hdec : (decodeSnmpRequest client.size).eval client.packet = .ok (request, pos))
    (hauth : authError config request = some errorStatus) :
    EncoderInput request (denial errorStatus) :=
  @answer_encoderInput config emptyMib _ _ _ _ hsize (decodeSnmpRequest_accepted hsize hdec)
    (answer_of_authError hauth)

/-- An error state other than 0 puts the OIDs of the request in place of the variables. -/
theorem valuesToEncode_denial {errorStatus : Int32} (hne : errorStatus ≠ snmpStatusOk) :
    valuesToEncode request (denial errorStatus) = nullBindings request.oidList :=
  if_pos hne

theorem snmp_of_unauthenticated (hsize : client.size ≤ maxPacketSize)
    (hdec : (decodeSnmpRequest client.size).eval client.packet = .ok (request, pos))
    (hno : Unauthenticated config request) :
    ∃ errorStatus, errorStatus ≠ snmpStatusOk ∧ authError config request = some errorStatus ∧
      (∀ values, snmp config values client =
        encodeSnmpResponse request (denial errorStatus) client) ∧
      EncoderInput request (denial errorStatus) := by
  obtain ⟨errorStatus, hne, hauth⟩ := authError_of_unauthenticated hno
  exact ⟨errorStatus, hne, hauth, snmp_of_denial hdec hauth, encoderInput_denial hsize hdec hauth⟩

/-- The refusal of a request without padding is read. -/
theorem Accepted.refused {packet : Mem} {n : Nat} (hacc : Accepted packet n request)
    (hunpadded : Unpadded request) {errorStatus : Int32} (hne : errorStatus ≠ snmpStatusOk)
    (hin : EncoderInput request (denial errorStatus))
    (hok : (encodeSnmpResponse request (denial errorStatus) client).1 = .ok ()) :
    Refused request (encodeSnmpResponse request (denial errorStatus) client).2 := by
  have hreq := hacc.wireRequest hunpadded
  have hresp : WireResponse (denial errorStatus) :=
    ⟨Nat.zero_le _, fun _ hvalue => absurd hvalue List.not_mem_nil⟩
  have hcontent := responseContent_eq hreq hresp
  have hcarries := encodeSnmpResponse_carries hin client hok
  have hfits := (encodeSnmpResponse_ok_iff hin client).mp hok
  rw [hcontent] at hcarries hfits
  rw [List.length_map] at hfits
  have hlength := hcarries.size
  rw [List.length_map] at hlength
  refine ⟨replyOf request (denial errorStatus), fun received hagree => ?_, hne, ?_⟩
  · rw [hlength] at hagree ⊢
    apply eval_readResponse hreq hresp hfits
    change received.slice 0 _ = _
    rw [← hagree.slice_eq (Nat.zero_add _).le, hcarries.showsAt.slice]
  · rw [replyOf_varbinds, @valuesToEncode_denial request errorStatus hne, nullBindings,
      List.map_map, List.map_map]
    rfl

/-- Whoever reads the OIDs of a refusal, each with NULL, has met no padded OID. -/
theorem Refused.unpadded {packet : Mem} {n : Nat} (hacc : Accepted packet n request)
    {errorStatus : Int32} (hne : errorStatus ≠ snmpStatusOk)
    (hin : EncoderInput request (denial errorStatus))
    (hok : (encodeSnmpResponse request (denial errorStatus) client).1 = .ok ())
    (h : Refused request (encodeSnmpResponse request (denial errorStatus) client).2) :
    Unpadded request := by
  have hcarries := encodeSnmpResponse_carries hin client hok
  have hfits := (encodeSnmpResponse_ok_iff hin client).mp hok
  have hvalues := @valuesToEncode_denial request errorStatus hne
  obtain ⟨reply, hread, -, hvarbinds⟩ := h
  have hexact := exact_of_readResponse hin (fun value hvalue => ?_)
    (hcarries.size.trans_le hfits) hcarries.showsAt hcarries.size.symm
    (hread _ fun _ _ => rfl) ?_
  · intro oid hoid
    refine (hexact ⟨oid, mNull⟩ ?_).exact
    rw [hvalues]
    exact List.mem_map_of_mem hoid
  · rw [hvalues] at hvalue
    obtain ⟨oid, hoid, rfl⟩ := List.mem_map.mp hvalue
    exact (hacc.oids oid hoid).length_subidList_le
  · -- both sides are a list of twos
    have hlengths := congrArg (List.map fun varbind => varbind.2.length) hvarbinds
    rw [List.map_map, List.map_map] at hlengths
    rw [hvalues, nullBindings, List.map_map]
    exact hlengths

end

/-- The MIB has no part in the outcome. -/
theorem snmp_same (config : Config) (client : Client) (hsize : client.size ≤ maxPacketSize)
    (hno : ∀ request pos, (decodeSnmpRequest client.size).eval client.packet = .ok (request, pos) →
      Unauthenticated config request) (values values' : List Value) :
    snmp config values client = snmp config values' client := by
  cases hdec : (decodeSnmpRequest client.size).eval client.packet with
  | error e => rw [snmp_of_rejected hdec, snmp_of_rejected hdec]
  | ok r =>
    obtain ⟨errorStatus, -, -, hrun, -⟩ := snmp_of_unauthenticated hsize hdec (hno r.1 r.2 hdec)
    rw [hrun, hrun]

/-- **Requests without access.** They get the same outcome whatever the MIB holds. A reply has an
    error state other than 0, and its bindings are the OIDs of the request with NULL, exactly if
    no OID of the request came padded, or there is no reply as it would be too long. -/
theorem learnsNothing_iff (config : Config) (client : Client)
    (hsize : client.size ≤ maxPacketSize)
    (hno : ∀ request pos, (decodeSnmpRequest client.size).eval client.packet = .ok (request, pos) →
      Unauthenticated config request) :
    (∀ values values', snmp config values client = snmp config values' client) ∧
      (LearnsNothing config client ↔
        ∀ request pos errorStatus,
          (decodeSnmpRequest client.size).eval client.packet = .ok (request, pos) →
          authError config request = some errorStatus →
          Unpadded request ∨
            maxPacketSize < (responseContent request (denial errorStatus)).length) := by
  have hsame := snmp_same config client hsize hno
  refine ⟨hsame, ?_⟩
  constructor
  · intro hlearns request pos errorStatus hdec hauth
    have hacc := decodeSnmpRequest_accepted hsize hdec
    obtain ⟨errorStatus', hne, hauth', hrun, hin⟩ :=
      snmp_of_unauthenticated hsize hdec (hno request pos hdec)
    obtain rfl := Option.some.inj (hauth'.symm.trans hauth)
    by_contra hneither
    rw [not_or, not_lt] at hneither
    -- the reply fits, and a reader got over the padding
    have hok := (encodeSnmpResponse_ok_iff hin client).mpr hneither.2
    obtain ⟨request', pos', hdec', hrefused⟩ := hlearns.refused [] (by rw [hrun]; exact hok)
    obtain ⟨rfl, rfl⟩ := Prod.mk.inj (Except.ok.inj (hdec.symm.trans hdec'))
    rw [hrun] at hrefused
    exact hneither.1 (hrefused.unpadded hacc hne hin hok)
  · intro hcond
    refine ⟨hsame, fun values hok => ?_⟩
    cases hdec : (decodeSnmpRequest client.size).eval client.packet with
    | error e =>
      -- no request, no reply
      rw [snmp_of_rejected hdec] at hok
      cases hok
    | ok r =>
      obtain ⟨request, pos⟩ := r
      have hacc := decodeSnmpRequest_accepted hsize hdec
      obtain ⟨errorStatus, hne, hauth, hrun, hin⟩ :=
        snmp_of_unauthenticated hsize hdec (hno request pos hdec)
      rw [hrun] at hok ⊢
      have hfits := (encodeSnmpResponse_ok_iff hin client).mp hok
      have hunpadded := (hcond request pos errorStatus hdec hauth).resolve_right (not_lt.mpr hfits)
      exact ⟨request, pos, rfl, hacc.refused hunpadded hne hin hok⟩

/-- The agent with the community `q`. -/
def configQ : Config := ⟨⟨[0x71], by decide⟩, false⟩

/-- What the GET with the padded OID is decoded to. -/
def paddedRequest : Request :=
  ⟨communityP, berTypeSnmpGet, snmpVersion2c, 1, 0, 0, [⟨[1, 3, 1], 5⟩]⟩

theorem eval_paddedGet :
    (decodeSnmpRequest 30).eval (Mem.ofList paddedGet) = .ok (paddedRequest, 30) :=
  Lib.ok_of_toOption (by decide +kernel)

theorem unauthenticated_paddedGet {request : Request} {pos : Nat}
    (hdec : (decodeSnmpRequest 30).eval (Mem.ofList paddedGet) = .ok (request, pos)) :
    Unauthenticated configQ request := by
  obtain ⟨rfl, rfl⟩ := Prod.mk.inj (Except.ok.inj (eval_paddedGet.symm.trans hdec))
  exact .inl ⟨rfl, by decide⟩

/-- The reply to it cannot be read. -/
theorem paddedRefusal_not_learnsNothing :
    (decodeSnmpRequest 30).eval (Mem.ofList paddedGet) = .ok (paddedRequest, 30) ∧
      Unauthenticated configQ paddedRequest ∧
      ¬ LearnsNothing configQ (.holding (Mem.ofList paddedGet) 30) := by
  refine ⟨eval_paddedGet, unauthenticated_paddedGet eval_paddedGet, fun h => ?_⟩
  obtain ⟨request, pos, -, reply, hread, -⟩ :=
    h.refused [] (Lib.ok_of_toOption (by decide +kernel))
  have hsome := congrArg Except.toOption (hread _ fun _ _ => rfl)
  -- the reader does not get to the end of the binding
  rw [show ((readResponse _).eval (snmp configQ []
    (.holding (Mem.ofList paddedGet) 30)).2.packet).toOption = none by decide +kernel] at hsome
  cases hsome

theorem learnsNothing_iff_paddedRefusal :
    LearnsNothing configQ (.holding (Mem.ofList paddedGet) 30) ↔
      ∀ request pos errorStatus,
        (decodeSnmpRequest 30).eval (Mem.ofList paddedGet) = .ok (request, pos) →
        authError configQ request = some errorStatus →
        Unpadded request ∨ maxPacketSize < (responseContent request (denial errorStatus)).length :=
  (learnsNothing_iff configQ (.holding (Mem.ofList paddedGet) 30) (by decide)
    fun _ _ hdec => unauthenticated_paddedGet hdec).2

end SdkSnmpd
