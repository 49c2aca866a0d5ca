import SdkSnmpd.Padding
import SdkSnmpd.Replies
import SdkSnmpd.Lib.TwosComplement

/-!
# The Integers of a Request

The request ID, the non-repeaters and the max-repetitions of a packet against what the decoder
makes of them, and the request ID of the reply. The decoder shifts any number of octets through
a word of 32 bits.

## Contents

- `IntegerOctets`: the content octets of an integer of the PDU (`IntegerOctets.integer_eq`).
- `reply_requestId`: the request ID in a reply.
- `keepsIntegers_iff`: which requests keep their integers.
-/

namespace SdkSnmpd

open Lib (Mem Scan Content)
open Lib.Ber (beInt InWord)

/-! ## The integers of a packet -/

/-- What the decoder stores for an integer of the PDU. -/
def Request.integer (request : Request) : PduInteger → Int32
  | .requestId => request.id
  | .nonRepeaters => request.nonRepeaters
  | .maxRepetitions => request.maxRepetitions

/-- The content octets of an integer of the PDU of a packet. -/
def IntegerOctets (packet : Mem) (n : Nat) (field : PduInteger) (octets : List UInt8) : Prop :=
  ∃ p length q, Reaches packet n ⟨.integer field, p⟩ ∧
    PacketHeader packet n p berTypeInteger length q ∧ octets = packet.slice q length

section

variable {packet : Mem} {n : Nat} {field : PduInteger} {octets octets' : List UInt8}

theorem IntegerOctets.functional (h : IntegerOctets packet n field octets)
    (h' : IntegerOctets packet n field octets') : octets = octets' := by
  obtain ⟨p, length, q, hreach, hdr, rfl⟩ := h
  obtain ⟨p', length', q', hreach', hdr', rfl⟩ := h'
  cases reaches_unique hreach hreach' rfl
  obtain ⟨-, rfl, rfl⟩ := hdr.functional hdr'
  rfl

/-- An accepted packet has all three integers, and they are decoded from their octets. -/
theorem exists_integerOctets (hn : n ≤ maxPacketSize) {request : Request} {pos : Nat}
    (h : (decodeSnmpRequest n).eval packet = .ok (request, pos)) (field : PduInteger) :
    ∃ octets, IntegerOctets packet n field octets ∧ request.integer field = integerValue octets := by
  simp only [decodeSnmpRequest, Scan.eval_bind_eq_ok] at h
  obtain ⟨q₀, hmessage, version, hversion, community, hcommunity, pdu, hpdu, id, hid, nonRepeaters,
    hnonRepeaters, maxRepetitions, hmaxRepetitions, q₇, hvarbinds, oids, hoids, h⟩ := h
  obtain ⟨rfl, rfl⟩ : _ = request ∧ _ = pos := by simpa using h
  -- the walk comes by each of them
  have hreachId : Reaches packet n ⟨.integer .requestId, pdu.2⟩ :=
    (((Relation.ReflTransGen.single (.message (decodeMessageHeader_ok hmessage) rfl)).tail
      (decodeVersion_ok hn hversion).1).tail
        ((decodeCommunity_ok hcommunity).2 (typeLength_bind_inside hpdu))).tail
          (.pdu (decodePduHeader_ok hpdu) rfl)
  have hreachNonRepeaters := hreachId.tail
    (decodePduInteger_ok .requestId hid (typeLength_bind_inside hnonRepeaters))
  have hreachMaxRepetitions := hreachNonRepeaters.tail
    (decodePduInteger_ok .nonRepeaters hnonRepeaters (typeLength_bind_inside hmaxRepetitions))
  have htaken : ∀ {p : Nat} {message : String} {r : Int32 × Nat},
      Reaches packet n ⟨.integer field, p⟩ → (decodePduInteger n p message).eval packet = .ok r →
        ∃ octets, IntegerOctets packet n field octets ∧ r.1 = integerValue octets := by
    intro p message r hreach hdec
    obtain ⟨length, q, hdr, -, rfl⟩ := decodePduInteger_spec hdec
    exact ⟨_, ⟨p, length, q, hreach, hdr, rfl⟩, rfl⟩
  cases field with
  | requestId => exact htaken hreachId hid
  | nonRepeaters => exact htaken hreachNonRepeaters hnonRepeaters
  | maxRepetitions => exact htaken hreachMaxRepetitions hmaxRepetitions

/-- The decoder takes the integers from their octets. -/
theorem IntegerOctets.integer_eq (hn : n ≤ maxPacketSize) {request : Request} {pos : Nat}
    (hdec : (decodeSnmpRequest n).eval packet = .ok (request, pos))
    (h : IntegerOctets packet n field octets) : request.integer field = integerValue octets := by
  obtain ⟨octets', hoctets, heq⟩ := exists_integerOctets hn hdec field
  rwa [h.functional hoctets]

/-- An integer of 32 bits is decoded as what it denotes, and no other is. -/
theorem toInt_integerValue_iff (bs : List UInt8) :
    (integerValue bs).toInt = beInt bs ↔ InWord (beInt bs) :=
  Lib.Ber.toInt_signFill_iff bs

/-- The content octets that the encoder writes denote the integer. -/
theorem beInt_integerContent (v : Int32) : beInt (integerContent v) = v.toInt := by
  obtain ⟨hpos, hle⟩ := integerOctets_bounds v
  obtain ⟨k, hk⟩ := Nat.exists_eq_add_of_le' hpos
  have hlen : (integerContent v).length = k + 1 := by
    rw [integerContent, Lib.Ber.length_octets, hk]
  have hpow : 256 ^ k ≤ 256 ^ 3 := Nat.pow_le_pow_right (by decide) (by omega)
  -- four octets do not exceed the word
  have hword : InWord (beInt (integerContent v)) := by
    have hbounds := Lib.Ber.beInt_bounds hlen
    unfold InWord
    omega
  rw [← (toInt_integerValue_iff _).mpr hword, integerValue_integerContent]

end

/-! ## The request ID of a reply -/

section

variable {config : Config} {mib : Mib} {client : Client} {request : Request} {pos : Nat}

/-- A reply has the request ID behind version, community and PDU header. -/
theorem integerOctets_of_carries {client : Client} {response : Response}
    (hversion : request.version = snmpVersion1 ∨ request.version = snmpVersion2c)
    (hcommunity : 1 ≤ request.community.strlen ∧ request.community.strlen < maxStringSize)
    (hsize : client.size ≤ maxPacketSize)
    (h : client.Carries (responseContent request response)) :
    IntegerOctets client.packet client.size .requestId (integerContent request.id) := by
  -- the message
  obtain ⟨q₀, hdrMessage, hcontent, hend₀⟩ := h.showsAt.element hsize (by decide)
  change _ = 0 + (responseContent request response).length at hend₀
  rw [← h.size] at hend₀
  rw [List.length_append, List.length_append] at hdrMessage hend₀
  obtain ⟨hversionAt, hcontent⟩ := hcontent.append
  -- the version has one octet
  have hone : (integerContent request.version).length = 1 := by
    rcases hversion with heq | heq <;> rw [heq] <;> rfl
  obtain ⟨q₁, hdrVersion, hversionSlice, hend₁, hversionFits⟩ :=
    hversionAt.octets (c := integerElement request.version) hsize (by decide) rfl
  rw [← hend₁] at hcontent
  rw [hone] at hdrVersion hversionSlice hend₁ hversionFits hcontent
  obtain ⟨hcommunityAt, hpduAt⟩ := hcontent.append
  -- the community is a C string
  obtain ⟨q₂, hdrCommunity, hcommunitySlice, hend₂, hcommunityFits⟩ :=
    hcommunityAt.octets hsize (by decide) rfl
  rw [← hend₂] at hpduAt
  -- the PDU ends where the message does
  obtain ⟨q₃, hdrPdu, hpdu, hend₃⟩ := hpduAt.element hsize (by decide)
  obtain ⟨q₄, hdrId, hidSlice, -, -⟩ := hpdu.append.1.octets hsize (by decide) rfl
  have hmessage : Next client.packet client.size ⟨.message, 0⟩ ⟨.version, q₀⟩ :=
    .message hdrMessage (by omega)
  have hnextVersion : Next client.packet client.size ⟨.version, q₀⟩ ⟨.community, q₁ + 1⟩ := by
    apply Next.version hdrVersion hversionFits
    rwa [hversionSlice, integerValue_integerContent]
  have hnextCommunity : Next client.packet client.size ⟨.community, q₁ + 1⟩
      ⟨.pdu, q₂ + request.community.bytes.length⟩ := by
    apply Next.community hdrCommunity hcommunity.2 hcommunityFits
    rw [hcommunitySlice, stringValue_bytes hcommunity.2]
    exact hcommunity.1
  have hnextPdu : Next client.packet client.size ⟨.pdu, q₂ + request.community.bytes.length⟩
      ⟨.integer .requestId, q₃⟩ := .pdu hdrPdu (by omega)
  exact ⟨q₃, _, q₄, (((Relation.ReflTransGen.single hmessage).tail hnextVersion).tail
    hnextCommunity).tail hnextPdu, hdrId, hidSlice.symm⟩

/-- What is sent to a client in reply to an accepted request carries the request ID of the
    request. -/
theorem reply_requestId (hsize : client.size ≤ maxPacketSize)
    (hdec : (decodeSnmpRequest client.size).eval client.packet = .ok (request, pos))
    (hsent : ¬ Silent (snmp config mib.values client)) :
    IntegerOctets (snmp config mib.values client).2.packet (snmp config mib.values client).2.size
      .requestId (integerContent request.id) := by
  have hacc := decodeSnmpRequest_accepted hsize hdec
  have hle : (snmp config mib.values client).2.size ≤ maxPacketSize := snmp_size_le hsize
  cases hanswer : answer config mib.values request with
  | fail e =>
    rw [snmp_of_fail hdec hanswer] at hsent
    exact absurd (.inl (by simp)) hsent
  | ignore =>
    rw [snmp_of_ignore hdec hanswer] at hsent
    exact absurd (.inr rfl) hsent
  | reply response =>
    rw [snmp_of_reply hdec hanswer] at hsent hle ⊢
    have hok : (encodeSnmpResponse request response client).1 = .ok () := by
      by_contra herror
      exact hsent (.inl herror)
    exact integerOctets_of_carries hacc.version hacc.community hle
      (encodeSnmpResponse_carries (answer_encoderInput hsize hacc hanswer) client hok)

end

/-! ## What the integers denote -/

/-- The integers of the request are what the octets of the packet denote, and the request ID of
    the reply denotes the same integer as that of the packet. -/
structure KeepsIntegers (config : Config) (values : List Value) (client : Client)
    (request : Request) : Prop where
  decoded : ∀ field octets, IntegerOctets client.packet client.size field octets →
    (request.integer field).toInt = beInt octets
  replied : ¬ Silent (snmp config values client) →
    ∀ octets, IntegerOctets client.packet client.size .requestId octets →
      ∃ octets', IntegerOctets (snmp config values client).2.packet
        (snmp config values client).2.size .requestId octets' ∧ beInt octets' = beInt octets

/-- **Integers of a request.** An accepted request keeps its integers exactly when each of them
    is one of 32 bits, however many octets it has. -/
theorem keepsIntegers_iff (config : Config) (mib : Mib) (client : Client)
    (hsize : client.size ≤ maxPacketSize) (request : Request) (pos : Nat)
    (hdec : (decodeSnmpRequest client.size).eval client.packet = .ok (request, pos)) :
    KeepsIntegers config mib.values client request ↔
      ∀ field octets, IntegerOctets client.packet client.size field octets →
        InWord (beInt octets) := by
  have hdecoded : ∀ field octets, IntegerOctets client.packet client.size field octets →
      ((request.integer field).toInt = beInt octets ↔ InWord (beInt octets)) := by
    intro field octets hoctets
    rw [hoctets.integer_eq hsize hdec, toInt_integerValue_iff]
  constructor
  · intro hkeeps field octets hoctets
    apply (hdecoded field octets hoctets).mp
    exact hkeeps.decoded field octets hoctets
  · intro hword
    have hkept : ∀ field octets, IntegerOctets client.packet client.size field octets →
        (request.integer field).toInt = beInt octets := fun field octets hoctets =>
      (hdecoded field octets hoctets).mpr (hword field octets hoctets)
    refine ⟨hkept, fun hsent octets hoctets => ?_⟩
    refine ⟨integerContent request.id, reply_requestId hsize hdec hsent, ?_⟩
    -- the encoder writes what the decoder has stored
    rw [beInt_integerContent]
    exact hkept .requestId octets hoctets

/-- A version 2 GET without bindings, whose request ID is `2 ^ 32 + 1`. -/
def longRequestId : List UInt8 :=
  [0x30, 0x17, 0x02, 0x01, 0x01, 0x04, 0x01, 0x70, 0xA0, 0x0F, 0x02, 0x05, 0x01, 0x00, 0x00, 0x00,
    0x01, 0x02, 0x01, 0x00, 0x02, 0x01, 0x00, 0x30, 0x00]

def longRequestIdRequest : Request :=
  ⟨communityP, berTypeSnmpGet, snmpVersion2c, 1, 0, 0, []⟩

theorem eval_longRequestId :
    (decodeSnmpRequest 25).eval (Mem.ofList longRequestId) = .ok (longRequestIdRequest, 25) :=
  Lib.ok_of_toOption (by decide +kernel)

theorem integerOctets_longRequestId :
    IntegerOctets (Mem.ofList longRequestId) 25 .requestId [0x01, 0x00, 0x00, 0x00, 0x01] := by
  have hmessage : PacketHeader (Mem.ofList longRequestId) 25 0 berTypeSequence 23 2 :=
    .short (by decide) (by decide) (by decide)
  have hversion : PacketHeader (Mem.ofList longRequestId) 25 2 berTypeInteger 1 4 :=
    .short (by decide) (by decide) (by decide)
  have hcommunity : PacketHeader (Mem.ofList longRequestId) 25 5 berTypeOctetString 1 7 :=
    .short (by decide) (by decide) (by decide)
  have hpdu : PacketHeader (Mem.ofList longRequestId) 25 8 berTypeSnmpGet 15 10 :=
    .short (by decide) (by decide) (by decide)
  have hid : PacketHeader (Mem.ofList longRequestId) 25 10 berTypeInteger 5 12 :=
    .short (by decide) (by decide) (by decide)
  refine ⟨10, 5, 12, ?_, hid, by decide⟩
  exact (((Relation.ReflTransGen.single (.message hmessage rfl)).tail
    (.version hversion (by decide) (by decide))).tail
      (.community hcommunity (by decide) (by decide) (by decide))).tail (.pdu hpdu rfl)

/-- It is answered, with the request ID 1. -/
theorem longRequestId_not_kept :
    (decodeSnmpRequest 25).eval (Mem.ofList longRequestId) = .ok (longRequestIdRequest, 25) ∧
      ¬ Silent (snmp ⟨communityP, false⟩ emptyMib.values
        (.holding (Mem.ofList longRequestId) 25)) ∧
      ¬ KeepsIntegers ⟨communityP, false⟩ emptyMib.values (.holding (Mem.ofList longRequestId) 25)
        longRequestIdRequest := by
  refine ⟨eval_longRequestId, ?_, fun hkeeps => ?_⟩
  · rintro (herror | hempty)
    · exact herror (Lib.ok_of_toOption (by decide +kernel))
    · revert hempty
      decide +kernel
  · have hid := hkeeps.decoded .requestId _ integerOctets_longRequestId
    revert hid
    decide

theorem keepsIntegers_iff_longRequestId :
    KeepsIntegers ⟨communityP, false⟩ emptyMib.values (.holding (Mem.ofList longRequestId) 25)
        longRequestIdRequest ↔
      ∀ field octets, IntegerOctets (Mem.ofList longRequestId) 25 field octets →
        InWord (beInt octets) :=
  keepsIntegers_iff ⟨communityP, false⟩ emptyMib (.holding (Mem.ofList longRequestId) 25)
    (by decide) longRequestIdRequest 25 eval_longRequestId

end SdkSnmpd
