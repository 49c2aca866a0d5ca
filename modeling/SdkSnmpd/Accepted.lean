import SdkSnmpd.Request

/-!
# Accepted Requests

What is known of a request that `decode_snmp_request` accepts, whatever else the packet
declares: the inversion of the decoder, and its dependence on the packet alone.

## Contents

- `DecodedOid`, `Accepted`: the facts about the request that later modules build on.
- `decodeSnmpRequest_accepted`: the decoder establishes them.
- `LengthsFit`: every length declared on the walk fits, so that the decoder sees the packet
  only (`decodeSnmpRequest_congr`).
-/

namespace SdkSnmpd

open Lib (Mem Scan)
open Lib.Ber (HeaderAt)

/-! ## Facts about an accepted request -/

/-- An OID that the decoder took from content octets of the packet. -/
def DecodedOid (n : Nat) (oid : Oid) : Prop :=
  ∃ bs : List UInt8, bs ≠ [] ∧ bs.length ≤ n ∧ OidContent bs ∧ oid = oidValue bs

/-- The tag of the PDU of a packet: the walk through the message finds it. -/
def PduTag (packet : Mem) (n : Nat) (tag : UInt8) : Prop :=
  ∃ p length q, Reaches packet n ⟨.pdu, p⟩ ∧ PacketHeader packet n p tag length q

/-- What is known of a request decoded from a packet of `n` bytes. -/
structure Accepted (packet : Mem) (n : Nat) (request : Request) : Prop where
  /-- The packet starts with a sequence header that spans it. -/
  header : ∃ q, PacketHeader packet n 0 berTypeSequence (n - q) q
  version : request.version = snmpVersion1 ∨ request.version = snmpVersion2c
  community : 1 ≤ request.community.strlen ∧ request.community.strlen < maxStringSize
  /-- The request type is the tag of the PDU. -/
  tag : PduTag packet n request.type
  oids : ∀ oid ∈ request.oidList, DecodedOid n oid
  room : request.oidList.length ≤ maxNrOids

section

variable {packet : Mem} {n : Nat}

/-! ## Stage by stage -/

/-- Every stage starts with a header inside the packet, and checks it. -/
theorem eval_header_bind_eq_ok {α : Type} {p : Nat} {check : Header → Prop}
    [DecidablePred check] {e : Failure} {f : Header → Scan Failure α} {a : α} :
    (decodeSnmpElementTypeLength n p >>= fun h => require (check h) e >>= fun _ => f h).eval
        packet = .ok a ↔
      ∃ h : Header, PacketHeader packet n p h.type h.length h.pos ∧ check h ∧
        (f h).eval packet = .ok a := by
  rw [Scan.eval_bind_eq_ok]
  refine exists_congr fun h => ?_
  rw [eval_typeLength_eq_ok, eval_require_bind_eq_ok]

/-- A decoder that starts with a header starts inside the packet. -/
theorem typeLength_bind_inside {α : Type} {p : Nat} {f : Header → Scan Failure α} {a : α}
    (h : (decodeSnmpElementTypeLength n p >>= f).eval packet = .ok a) : p ≤ n := by
  rw [Scan.eval_bind_eq_ok] at h
  obtain ⟨hdr, hhdr, -⟩ := h
  rw [eval_typeLength_eq_ok] at hhdr
  have hb := hhdr.bounds
  omega

theorem decodeMessageHeader_ok {p q : Nat}
    (h : (decodeMessageHeader n p).eval packet = .ok q) :
    PacketHeader packet n p berTypeSequence (n - q) q := by
  rw [decodeMessageHeader, eval_header_bind_eq_ok] at h
  obtain ⟨hdr, hhdr, ⟨htype, hlen⟩, h⟩ := h
  obtain rfl : hdr.pos = q := by simpa using h
  rwa [htype, hlen] at hhdr

theorem decodeVersion_ok (hn : n ≤ maxPacketSize) {p : Nat} {r : Int32 × Nat}
    (h : (decodeVersion n p).eval packet = .ok r) :
    Next packet n ⟨.version, p⟩ ⟨.community, r.2⟩ ∧
      (r.1 = snmpVersion1 ∨ r.1 = snmpVersion2c) := by
  rw [decodeVersion, eval_header_bind_eq_ok] at h
  obtain ⟨hdr, hhdr, ⟨htype, hlen⟩, h⟩ := h
  rw [htype, hlen] at hhdr
  rw [hlen, Scan.eval_bind_eq_ok] at h
  obtain ⟨v, hv, h⟩ := h
  rw [eval_integer_eq_ok packet le_rfl, guardPasses_iff (size_lt hn) hhdr.bounds.2.2 (by omega)] at hv
  -- one octet: the guard says that it is inside
  obtain ⟨hguard, rfl⟩ := hv
  rw [eval_require_bind_eq_ok] at h
  obtain ⟨hval, h⟩ := h
  obtain rfl : _ = r := by simpa using h
  have hpos := hhdr.bounds
  exact ⟨.version hhdr (by omega) hval, hval⟩

/-- A stored string leaves room for its NUL. -/
theorem strlen_stringValue_lt (bs : List UInt8) {valueSize : Nat} (h : 0 < valueSize) :
    (stringValue bs valueSize).strlen < valueSize := by
  have hprefix := (List.takeWhile_prefix (l := (bs.takeWhile (· ≠ 0)).take (valueSize - 1))
    (· ≠ 0)).length_le
  have htake := List.length_take_le (valueSize - 1) (bs.takeWhile (· ≠ 0))
  change (List.takeWhile _ _).length < valueSize
  omega

/-- A community string is stored from the content octets. The guard of the decoder tells
    nothing about them, since it may have wrapped around. -/
theorem decodeCommunity_spec {p : Nat} {r : CString × Nat}
    (h : (decodeCommunity n p).eval packet = .ok r) :
    ∃ length q, PacketHeader packet n p berTypeOctetString length q ∧ length < maxStringSize ∧
      1 ≤ (stringValue (packet.slice q length) maxStringSize).strlen ∧
      r = (stringValue (packet.slice q length) maxStringSize, q + length) := by
  rw [decodeCommunity, eval_header_bind_eq_ok] at h
  obtain ⟨hdr, hhdr, ⟨htype, hlen⟩, h⟩ := h
  rw [htype] at hhdr
  rw [Scan.eval_bind_eq_ok] at h
  obtain ⟨c, hc, h⟩ := h
  rw [eval_string_eq_ok] at hc
  obtain ⟨-, rfl⟩ := hc
  rw [eval_require_bind_eq_ok] at h
  obtain ⟨hval, h⟩ := h
  obtain rfl : _ = r := by simpa using h
  exact ⟨_, _, hhdr, Nat.not_le.mp hlen, Nat.not_lt.mp hval, rfl⟩

/-- A community string that is stored has one to 63 characters. Where another element
    follows, the string has not overrun the packet. -/
theorem decodeCommunity_ok {p : Nat} {r : CString × Nat}
    (h : (decodeCommunity n p).eval packet = .ok r) :
    (1 ≤ r.1.strlen ∧ r.1.strlen < maxStringSize) ∧
      (r.2 ≤ n → Next packet n ⟨.community, p⟩ ⟨.pdu, r.2⟩) := by
  obtain ⟨length, q, hhdr, hlen, hpos, rfl⟩ := decodeCommunity_spec h
  exact ⟨⟨hpos, strlen_stringValue_lt _ (by decide)⟩, fun hle => .community hhdr hlen hle hpos⟩

theorem decodePduHeader_ok {p : Nat} {r : UInt8 × Nat}
    (h : (decodePduHeader n p).eval packet = .ok r) :
    PacketHeader packet n p r.1 (n - r.2) r.2 := by
  rw [decodePduHeader, eval_header_bind_eq_ok] at h
  obtain ⟨hdr, hhdr, hlen, h⟩ := h
  obtain rfl : _ = r := by simpa using h
  rwa [hlen] at hhdr

/-- An OID is stored from content that the OID decoder accepts. -/
theorem decodeVarbindOid_spec {p : Nat} {r : Oid × Nat}
    (h : (decodeVarbindOid n p).eval packet = .ok r) :
    ∃ length q, PacketHeader packet n p berTypeOid length q ∧ 1 ≤ length ∧
      OidContent (packet.slice q length) ∧
      r = (oidValue (packet.slice q length), q + length) := by
  rw [decodeVarbindOid, eval_header_bind_eq_ok] at h
  obtain ⟨hdr, hhdr, ⟨htype, hlen⟩, h⟩ := h
  rw [htype] at hhdr
  rw [eval_oid_eq_ok packet (by omega) hhdr.length_lt] at h
  obtain ⟨-, hcontent, rfl⟩ := h
  exact ⟨_, _, hhdr, Nat.not_lt.mp hlen, hcontent, rfl⟩

/-- The content is inside the packet, if another element follows. -/
theorem decodeVarbindOid_ok {p : Nat} {r : Oid × Nat}
    (h : (decodeVarbindOid n p).eval packet = .ok r) (hr : r.2 ≤ n) : DecodedOid n r.1 := by
  obtain ⟨length, q, -, hlen, hcontent, rfl⟩ := decodeVarbindOid_spec h
  refine ⟨_, ?_, ?_, hcontent, rfl⟩
  · intro hnil
    have hzero := congrArg List.length hnil
    rw [Mem.length_slice, List.length_nil] at hzero
    omega
  · rw [Mem.length_slice]
    exact (Nat.le_add_left length q).trans hr

/-- The loop appends the OIDs of the bindings it decodes. -/
theorem decodeVarbinds_ok (room : Nat) {p : Nat} {oidList : List Oid} {r : List Oid × Nat}
    (h : (decodeVarbinds n room p oidList).eval packet = .ok r) :
    ∃ oids, r.1 = oidList ++ oids ∧ oids.length ≤ room ∧ ∀ oid ∈ oids, DecodedOid n oid := by
  induction room generalizing p oidList with
  | zero =>
    rw [decodeVarbinds] at h
    split at h
    · -- a binding without a place in the list is an error
      cases h
    · -- the end of the packet
      obtain rfl : _ = r := by simpa using h
      exact ⟨[], by simp⟩
  | succ room ih =>
    rw [decodeVarbinds] at h
    split at h
    · rw [Scan.eval_bind_eq_ok] at h
      obtain ⟨q, -, h⟩ := h
      rw [Scan.eval_bind_eq_ok] at h
      obtain ⟨oid, hoid, h⟩ := h
      rw [Scan.eval_bind_eq_ok] at h
      obtain ⟨q', hvalue, h⟩ := h
      obtain ⟨oids, hr, hlen, hall⟩ := ih h
      -- the value's header shows that the OID ended inside the packet
      have hdecoded := decodeVarbindOid_ok hoid (typeLength_bind_inside hvalue)
      refine ⟨oid.1 :: oids, by simp [hr], by simpa using hlen, ?_⟩
      simpa using ⟨hdecoded, hall⟩
    · obtain rfl : _ = r := by simpa using h
      exact ⟨[], by simp⟩

/-- **Inversion of the decoder.** -/
theorem decodeSnmpRequest_accepted (hn : n ≤ maxPacketSize) {request : Request} {pos : Nat}
    (h : (decodeSnmpRequest n).eval packet = .ok (request, pos)) : Accepted packet n request := by
  simp only [decodeSnmpRequest, Scan.eval_bind_eq_ok] at h
  obtain ⟨p₀, hmessage, version, hversion, community, hcommunity, pdu, hpdu, id, -, nonRepeaters, -,
    maxRepetitions, -, p₁, -, oids, hoids, h⟩ := h
  obtain ⟨rfl, -⟩ : _ = request ∧ _ = pos := by simpa using h
  have hheader := decodeMessageHeader_ok hmessage
  obtain ⟨hnextVersion, hval⟩ := decodeVersion_ok hn hversion
  obtain ⟨hlen, hnextCommunity⟩ := decodeCommunity_ok hcommunity
  have hpduHeader := decodePduHeader_ok hpdu
  obtain ⟨oids', hlist, hroom, hall⟩ := decodeVarbinds_ok maxNrOids hoids
  -- the header of the PDU shows that the community ended inside the packet
  have hinside : community.2 ≤ n := by
    have hb := hpduHeader.bounds
    omega
  have hreach : Reaches packet n ⟨.pdu, community.2⟩ :=
    ((Relation.ReflTransGen.single (.message hheader rfl)).tail hnextVersion).tail
      (hnextCommunity hinside)
  exact {
    header := ⟨p₀, hheader⟩
    version := hval
    community := hlen
    tag := ⟨_, _, _, hreach, hpduHeader⟩
    oids := by simpa [hlist] using hall
    room := by simpa [hlist] using hroom }

/-! ## The walk of the decoder -/

/-- An integer of the PDU is taken from its content octets. -/
theorem decodePduInteger_spec {p : Nat} {message : String} {r : Int32 × Nat}
    (h : (decodePduInteger n p message).eval packet = .ok r) :
    ∃ length q, PacketHeader packet n p berTypeInteger length q ∧ 1 ≤ length ∧
      r = (integerValue (packet.slice q length), q + length) := by
  rw [decodePduInteger, eval_header_bind_eq_ok] at h
  obtain ⟨hdr, hhdr, ⟨htype, hlen⟩, h⟩ := h
  rw [htype] at hhdr
  rw [eval_integer_eq_ok packet (by omega)] at h
  obtain ⟨-, rfl⟩ := h
  exact ⟨_, _, hhdr, Nat.not_lt.mp hlen, rfl⟩

/-- The content is inside, if another element follows. -/
theorem decodePduInteger_ok (field : PduInteger) {p : Nat} {message : String} {r : Int32 × Nat}
    (h : (decodePduInteger n p message).eval packet = .ok r) (hr : r.2 ≤ n) :
    Next packet n ⟨.integer field, p⟩ ⟨field.after, r.2⟩ := by
  obtain ⟨length, q, hdr, hlen, rfl⟩ := decodePduInteger_spec h
  exact .integer hdr hlen hr

theorem decodeVarbindsHeader_ok {p q : Nat}
    (h : (decodeVarbindsHeader n p).eval packet = .ok q) :
    Next packet n ⟨.varbinds, p⟩ ⟨.binding 0, q⟩ := by
  rw [decodeVarbindsHeader, eval_header_bind_eq_ok] at h
  obtain ⟨hdr, hhdr, ⟨htype, hlen⟩, h⟩ := h
  obtain rfl : hdr.pos = q := by simpa using h
  rw [htype] at hhdr
  exact .varbinds hhdr hlen

theorem decodeVarbindHeader_ok {k p q : Nat} (hk : k < maxNrOids)
    (h : (decodeVarbindHeader n p).eval packet = .ok q) :
    Next packet n ⟨.binding k, p⟩ ⟨.name k, q⟩ := by
  rw [decodeVarbindHeader, eval_header_bind_eq_ok] at h
  obtain ⟨hdr, hhdr, ⟨htype, hlen⟩, h⟩ := h
  obtain rfl : hdr.pos = q := by simpa using h
  rw [htype] at hhdr
  exact .binding hk hhdr (by omega)

theorem decodeVarbindName_ok (k : Nat) {p : Nat} {r : Oid × Nat}
    (h : (decodeVarbindOid n p).eval packet = .ok r) (hr : r.2 ≤ n) :
    Next packet n ⟨.name k, p⟩ ⟨.value k, r.2⟩ ∧
      ∃ length q, PacketHeader packet n p berTypeOid length q ∧
        r = (oidValue (packet.slice q length), q + length) := by
  obtain ⟨length, q, hhdr, hlen, hcontent, rfl⟩ := decodeVarbindOid_spec h
  exact ⟨.name hhdr hlen hr hcontent, length, q, hhdr, rfl⟩

/-- A value is skipped where its content is inside, or where the guard has wrapped around. -/
theorem decodeVarbindSkip_ok (hn : n ≤ maxPacketSize) (k : Nat) {p e : Nat}
    (h : (decodeVarbindValue n p).eval packet = .ok e) :
    (e ≤ n ∧ Next packet n ⟨.value k, p⟩ ⟨.binding (k + 1), e⟩) ∨
      Overruns packet n ⟨.value k, p⟩ := by
  rw [decodeVarbindValue, eval_header_bind_eq_ok] at h
  obtain ⟨hdr, hhdr, hlen, h⟩ := h
  rw [eval_void_eq_ok, guardPasses_iff (size_lt hn) hhdr.bounds.2.2 hhdr.length_lt] at h
  obtain ⟨hfit | hwrap, rfl⟩ := h
  · exact .inl ⟨hfit, .value hhdr (by tauto) hfit⟩
  · exact .inr (.value hhdr (by tauto) hwrap)

/-- The places that the decoder has gone through before the bindings of an accepted packet,
    and what it took from there. -/
inductive Decoded (packet : Mem) (n : Nat) (request : Request) (pos : Nat) : Prop where
  | intro {q₀ p₁ p₂ q₃ p₄ p₅ p₆ q₇ length q : Nat}
      (message : Next packet n ⟨.message, 0⟩ ⟨.version, q₀⟩)
      (version : Next packet n ⟨.version, q₀⟩ ⟨.community, p₁⟩)
      (community : Next packet n ⟨.community, p₁⟩ ⟨.pdu, p₂⟩)
      (pdu : Next packet n ⟨.pdu, p₂⟩ ⟨.integer .requestId, q₃⟩)
      (requestId : Next packet n ⟨.integer .requestId, q₃⟩ ⟨.integer .nonRepeaters, p₄⟩)
      (nonRepeaters : Next packet n ⟨.integer .nonRepeaters, p₄⟩ ⟨.integer .maxRepetitions, p₅⟩)
      (maxRepetitions : Next packet n ⟨.integer .maxRepetitions, p₅⟩ ⟨.varbinds, p₆⟩)
      (varbinds : Next packet n ⟨.varbinds, p₆⟩ ⟨.binding 0, q₇⟩)
      (communityHeader : PacketHeader packet n p₁ berTypeOctetString length q)
      (communityValue : request.community = stringValue (packet.slice q length) maxStringSize)
      (pduHeader : PacketHeader packet n p₂ request.type (n - q₃) q₃)
      (bindings : (decodeVarbinds n maxNrOids q₇ []).eval packet = .ok (request.oidList, pos)) :
      Decoded packet n request pos

/-- **Inversion of the decoder, place by place.** -/
theorem decodeSnmpRequest_decoded (hn : n ≤ maxPacketSize) {request : Request} {pos : Nat}
    (h : (decodeSnmpRequest n).eval packet = .ok (request, pos)) :
    Decoded packet n request pos := by
  simp only [decodeSnmpRequest, Scan.eval_bind_eq_ok] at h
  obtain ⟨q₀, hmessage, version, hversion, community, hcommunity, pdu, hpdu, id, hid, nonRepeaters,
    hnonRepeaters, maxRepetitions, hmaxRepetitions, q₇, hvarbinds, oids, hoids, h⟩ := h
  obtain ⟨rfl, rfl⟩ : _ = request ∧ _ = pos := by simpa using h
  have hheader := decodeMessageHeader_ok hmessage
  have hpduHeader := decodePduHeader_ok hpdu
  -- each element ends inside the packet, because another header follows
  have hnextCommunity := (decodeCommunity_ok hcommunity).2 (typeLength_bind_inside hpdu)
  have hnextId := decodePduInteger_ok .requestId hid (typeLength_bind_inside hnonRepeaters)
  have hnextNonRepeaters := decodePduInteger_ok .nonRepeaters hnonRepeaters
    (typeLength_bind_inside hmaxRepetitions)
  have hnextMaxRepetitions := decodePduInteger_ok .maxRepetitions hmaxRepetitions
    (typeLength_bind_inside hvarbinds)
  obtain ⟨length, q, hdr, -, -, hvalue⟩ := decodeCommunity_spec hcommunity
  exact .intro (.message hheader rfl) (decodeVersion_ok hn hversion).1 hnextCommunity
    (.pdu hpduHeader rfl) hnextId hnextNonRepeaters hnextMaxRepetitions
    (decodeVarbindsHeader_ok hvarbinds) hdr (congrArg Prod.fst hvalue) hpduHeader hoids

/-! ## One PDU -/

/-- The place after an element, by its declared length and the start of its content. -/
def Element.next : Element → (length q : Nat) → Place
  | .message, _, q => ⟨.version, q⟩
  | .version, length, q => ⟨.community, q + length⟩
  | .community, length, q => ⟨.pdu, q + length⟩
  | .pdu, _, q => ⟨.integer .requestId, q⟩
  | .integer field, length, q => ⟨field.after, q + length⟩
  | .varbinds, _, q => ⟨.binding 0, q⟩
  | .binding k, _, q => ⟨.name k, q⟩
  | .name k, length, q => ⟨.value k, q + length⟩
  | .value k, length, q => ⟨.binding (k + 1), q + length⟩

/-- The header at a place determines where the walk goes on. -/
theorem Next.header {s t : Place} (h : Next packet n s t) :
    ∃ tag length q, PacketHeader packet n s.pos tag length q ∧ t = s.element.next length q := by
  cases h with
  | message hdr => exact ⟨_, _, _, hdr, rfl⟩
  | version hdr => exact ⟨_, _, _, hdr, rfl⟩
  | community hdr => exact ⟨_, _, _, hdr, rfl⟩
  | pdu hdr => exact ⟨_, _, _, hdr, rfl⟩
  | integer hdr => exact ⟨_, _, _, hdr, rfl⟩
  | varbinds hdr => exact ⟨_, _, _, hdr, rfl⟩
  | binding hk hdr => exact ⟨_, _, _, hdr, rfl⟩
  | name hdr => exact ⟨_, _, _, hdr, rfl⟩
  | value hdr => exact ⟨_, _, _, hdr, rfl⟩

/-- A place leads to at most one place. -/
theorem Next.functional {s t t' : Place} (h : Next packet n s t) (h' : Next packet n s t') :
    t = t' := by
  obtain ⟨tag, length, q, hdr, rfl⟩ := h.header
  obtain ⟨tag', length', q', hdr', rfl⟩ := h'.header
  obtain ⟨-, rfl, rfl⟩ := hdr.functional hdr'
  rfl

/-- The number of elements that the walk comes by before this one. -/
def Element.index : Element → Nat
  | .message => 0
  | .version => 1
  | .community => 2
  | .pdu => 3
  | .integer .requestId => 4
  | .integer .nonRepeaters => 5
  | .integer .maxRepetitions => 6
  | .varbinds => 7
  | .binding k => 8 + 3 * k
  | .name k => 9 + 3 * k
  | .value k => 10 + 3 * k

theorem Next.index {s t : Place} (h : Next packet n s t) :
    t.element.index = s.element.index + 1 := by
  obtain ⟨tag, length, q, hdr, rfl⟩ := h.header
  obtain ⟨element, p⟩ := s
  cases element with
  | integer field => cases field <;> rfl
  | name k => simp only [Element.next, Element.index]; omega
  | value k => simp only [Element.next, Element.index]; omega
  | binding k => simp only [Element.next, Element.index]; omega
  | message | version | community | pdu | varbinds => rfl

/-- A way that is not empty leads to a later element. -/
theorem eq_or_index_lt {s t : Place} (h : Relation.ReflTransGen (Next packet n) s t) :
    s = t ∨ s.element.index < t.element.index := by
  induction h with
  | refl => exact .inl rfl
  | tail _ hnext ih =>
    have hindex := hnext.index
    right
    rcases ih with rfl | hlt <;> omega

/-- The walk comes by each element at most once. -/
theorem reaches_unique {s t : Place} (h : Reaches packet n s) (h' : Reaches packet n t)
    (hindex : s.element.index = t.element.index) : s = t := by
  have hfun : Relator.RightUnique (Next packet n) := fun _ _ _ => Next.functional
  rcases Relation.ReflTransGen.total_of_right_unique hfun h h' with hway | hway
  · rcases eq_or_index_lt hway with heq | hlt
    · exact heq
    · omega
  · rcases eq_or_index_lt hway with heq | hlt
    · exact heq.symm
    · omega

/-- A packet has at most one community. -/
theorem reaches_community_unique {p p' : Nat} (h : Reaches packet n ⟨.community, p⟩)
    (h' : Reaches packet n ⟨.community, p'⟩) : p = p' :=
  congrArg Place.pos (reaches_unique h h' rfl)

/-- A packet has at most one PDU tag. -/
theorem PduTag.functional {tag tag' : UInt8} (h : PduTag packet n tag)
    (h' : PduTag packet n tag') : tag = tag' := by
  obtain ⟨p, length, q, hreach, hdr⟩ := h
  obtain ⟨p', length', q', hreach', hdr'⟩ := h'
  cases reaches_unique hreach hreach' rfl
  exact (hdr.functional hdr').1

/-! ## Packets whose lengths fit -/

/-- Every length that is declared on the walk through the message fits inside the packet. -/
def LengthsFit (packet : Mem) (n : Nat) : Prop :=
  ∀ place tag length q, Reaches packet n place → PacketHeader packet n place.pos tag length q →
    q + length ≤ n

/-- A test of `LengthsFit` that follows the walk for a number of places. -/
def lengthsFitFrom (packet : Mem) (n : Nat) : (places : Nat) → Place → Bool
  | 0, _ => false
  | places + 1, place =>
      match (decodeSnmpElementTypeLength n place.pos).eval packet with
      | .error _ => true
      | .ok h =>
          decide (h.pos + h.length ≤ n) &&
            lengthsFitFrom packet n places (place.element.next h.length h.pos)

theorem lengthsFit_of_test (places : Nat)
    (h : lengthsFitFrom packet n places ⟨.message, 0⟩ = true) : LengthsFit packet n := by
  -- the test holds at every place of the walk, for fewer places
  have hinv : ∀ place, Reaches packet n place →
      ∃ places, lengthsFitFrom packet n places place = true := by
    intro place hreach
    induction hreach with
    | refl => exact ⟨places, h⟩
    | tail _ hnext ih =>
      obtain ⟨k, hk⟩ := ih
      obtain ⟨tag, length, q, hdr, rfl⟩ := hnext.header
      cases k with
      | zero => cases hk
      | succ k =>
        rw [lengthsFitFrom, (eval_typeLength_eq_ok packet (h := ⟨tag, length, q⟩)).mpr hdr] at hk
        exact ⟨k, (Bool.and_eq_true_iff.mp hk).2⟩
  intro place tag length q hreach hdr
  obtain ⟨k, hk⟩ := hinv place hreach
  cases k with
  | zero => cases hk
  | succ k =>
    rw [lengthsFitFrom, (eval_typeLength_eq_ok packet (h := ⟨tag, length, q⟩)).mpr hdr] at hk
    exact of_decide_eq_true (Bool.and_eq_true_iff.mp hk).1

/-- Where every length fits, nothing overruns. -/
theorem LengthsFit.not_overruns (h : LengthsFit packet n) {place : Place}
    (hreach : Reaches packet n place) : ¬ Overruns packet n place := by
  intro hbad
  cases hbad with
  | community hdr hlen hover hnul =>
    have hfit := h _ _ _ _ hreach hdr
    omega
  | integer hdr hover =>
    have hfit := h _ _ _ _ hreach hdr
    omega
  | name hdr hover hstop =>
    have hfit := h _ _ _ _ hreach hdr
    omega
  | value hdr hlen hover =>
    have hfit := h _ _ _ _ hreach hdr
    omega

/-- The decoder cannot tell apart buffers that agree on a packet whose lengths fit. -/
theorem decodeSnmpRequest_congr (hn : n ≤ maxPacketSize) (hfit : LengthsFit packet n)
    {packet' : Mem} (hag : Mem.AgreeBelow n packet packet') :
    (decodeSnmpRequest n).eval packet' = (decodeSnmpRequest n).eval packet := by
  have hclean : Clean packet n .message 0 := fun place hreach => hfit.not_overruns hreach
  exact Scan.eval_eq_of_within ((within_decodeSnmpRequest hn).mpr hclean) hag

end

end SdkSnmpd
