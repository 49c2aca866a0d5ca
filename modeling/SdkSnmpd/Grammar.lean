import SdkSnmpd.Accepted

/-!
# The Format of a Message

An SNMP message as nested elements in definite form, and what the decoder checks of it.

## Contents

- `Bindings`, `Message`: the format, stated without the decoder.
- `Misnests`: the three ways in which an accepted packet can break the format.
- `message_iff`: an accepted packet is a message exactly when none of them is met on the way.
-/

namespace SdkSnmpd

open Lib (Mem Scan)
open Lib.Ber (ElementAt HeaderAt)

/-! ## The format -/

/-- Variable bindings fill the octets from `p` to `e`: each is a sequence of a name and a
    value. The names are the OIDs, in order. -/
inductive Bindings (packet : Mem) (e : Nat) : List Oid → Nat → Prop where
  | nil : Bindings packet e [] e
  | cons {p q a b tag c p' oids} (binding : ElementAt packet berTypeSequence p q p')
      (name : ElementAt packet berTypeOid q a b) (value : ElementAt packet tag b c p')
      (rest : Bindings packet e oids p') :
      Bindings packet e (oidValue (packet.slice a (b - a)) :: oids) p

/-- The `n` bytes of a packet are one message: a sequence of version, community and PDU. The
    PDU has three integers and the bindings, with the OIDs of the request. -/
inductive Message (packet : Mem) (n : Nat) (request : Request) : Prop where
  | intro {q₀ q₁ p₁ q₂ p₂ q₃ q₄ p₄ q₅ p₅ q₆ p₆ q₇ : Nat}
      (message : ElementAt packet berTypeSequence 0 q₀ n)
      (version : ElementAt packet berTypeInteger q₀ q₁ p₁)
      (community : ElementAt packet berTypeOctetString p₁ q₂ p₂)
      (pdu : ElementAt packet request.type p₂ q₃ n)
      (requestId : ElementAt packet berTypeInteger q₃ q₄ p₄)
      (nonRepeaters : ElementAt packet berTypeInteger p₄ q₅ p₅)
      (maxRepetitions : ElementAt packet berTypeInteger p₅ q₆ p₆)
      (varbinds : ElementAt packet berTypeSequence p₆ q₇ n)
      (bindings : Bindings packet n request.oidList q₇) : Message packet n request

/-- At this place the decoder goes on although the format is broken. -/
inductive Misnests (packet : Mem) (n : Nat) : Place → Prop where
  /-- The length octet announces an indefinite length. The decoder takes it for a length
      of 0. -/
  | indefinite {element p tag length q} (hdr : PacketHeader packet n p tag length q)
      (hlen : packet (p + 1) = 0x80) : Misnests packet n ⟨element, p⟩
  /-- The length of a binding is not that of its name and value. -/
  | binding {k p length q b e} (hdr : PacketHeader packet n p berTypeSequence length q)
      (hname : Next packet n ⟨.name k, q⟩ ⟨.value k, b⟩)
      (hvalue : Next packet n ⟨.value k, b⟩ ⟨.binding (k + 1), e⟩) (hlen : q + length ≠ e) :
      Misnests packet n ⟨.binding k, p⟩
  /-- The length of a value is so large that the guard has wrapped around. -/
  | value {k p} (hover : Overruns packet n ⟨.value k, p⟩) : Misnests packet n ⟨.value k, p⟩

section

variable {packet : Mem} {n : Nat}

/-- From this place on, the elements nest. -/
abbrev Nests (packet : Mem) (n : Nat) (place : Place) : Prop :=
  Lib.Stages.Clean (Next packet n) (Misnests packet n) place

theorem nests_iff {place : Place} :
    Nests packet n place ↔ ¬ Misnests packet n place ∧
      ∀ t, Next packet n place t → Nests packet n t :=
  Lib.Stages.clean_iff

theorem Nests.next {s t : Place} (h : Nests packet n s) (hnext : Next packet n s t) :
    Nests packet n t :=
  (nests_iff.mp h).2 t hnext

/-- Where the elements nest, a header starts an element. -/
theorem Nests.elementAt {element : Element} {p length q : Nat} {tag : UInt8}
    (h : Nests packet n ⟨element, p⟩) (hdr : PacketHeader packet n p tag length q) :
    ElementAt packet tag p q (q + length) :=
  hdr.elementAt fun hlen => (nests_iff.mp h).1 (.indefinite hdr hlen)

/-! ## From the format to the walk -/

theorem Bindings.le {e p : Nat} {oids : List Oid} (h : Bindings packet e oids p) : p ≤ e := by
  induction h with
  | nil => exact le_rfl
  | cons binding name value rest ih =>
    have hb := binding.bounds
    omega

/-- An element of the format leads to the place behind its header, or behind its content. -/
theorem nests_of_elementAt {place : Place} {tag : UInt8} {q e : Nat}
    (h : ElementAt packet tag place.pos q e) (hbad : ¬ Misnests packet n place)
    (hnext : Nests packet n (place.element.next (e - q) q)) : Nests packet n place := by
  refine nests_iff.mpr ⟨hbad, fun t ht => ?_⟩
  obtain ⟨tag', length, q', hdr, rfl⟩ := ht.header
  obtain ⟨-, rfl, rfl⟩ := h.of_header hdr
  rwa [Nat.add_sub_cancel_left] at hnext

/-- Bindings and values apart, an element can only break the format by its header. -/
theorem not_misnests {place : Place} {tag : UInt8} {q e : Nat}
    (h : ElementAt packet tag place.pos q e) (hbinding : ∀ k, place.element ≠ .binding k)
    (hvalue : ∀ k, place.element ≠ .value k) : ¬ Misnests packet n place := by
  intro hbad
  cases hbad with
  | indefinite hdr hlen => exact h.definite hlen
  | binding => exact hbinding _ rfl
  | value => exact hvalue _ rfl

/-- The bindings of the format are gone through without meeting a defect. The induction is
    on the bindings. -/
theorem Bindings.nests {oids : List Oid} {p : Nat} (h : Bindings packet n oids p) (k : Nat) :
    Nests packet n ⟨.binding k, p⟩ := by
  induction h generalizing k with
  | nil =>
    -- the end of the packet
    refine nests_iff.mpr ⟨fun hbad => ?_, fun t ht => ?_⟩
    · cases hbad with
      | indefinite hdr => exact not_packetHeader le_rfl hdr
      | binding hdr => exact not_packetHeader le_rfl hdr
    · obtain ⟨tag, length, q, hdr, -⟩ := ht.header
      exact absurd hdr (not_packetHeader le_rfl)
  | @cons p q a b tag c p' oids binding name value rest ih =>
    have hend := rest.le
    have hvalue : Nests packet n ⟨.value k, b⟩ := by
      refine nests_of_elementAt value (fun hbad => ?_) ?_
      · cases hbad with
        | indefinite hdr hlen => exact value.definite hlen
        | value hover =>
          cases hover with
          | value hdr hlen hover =>
            obtain ⟨-, -, hlength⟩ := value.of_header hdr
            omega
      · rw [Element.next, Nat.add_sub_cancel' value.inside]
        exact ih (k + 1)
    have hname : Nests packet n ⟨.name k, q⟩ := by
      refine nests_of_elementAt name (not_misnests name (by simp) (by simp)) ?_
      rw [Element.next, Nat.add_sub_cancel' name.inside]
      exact hvalue
    refine nests_of_elementAt binding (fun hbad => ?_) hname
    cases hbad with
    | indefinite hdr hlen => exact binding.definite hlen
    | binding hdr hnextName hnextValue hlen =>
      -- the walk goes from the name to the value and to the end of the binding
      obtain ⟨-, rfl, hbinding⟩ := binding.of_header hdr
      obtain ⟨_, _, _, hdrName, heqName⟩ := hnextName.header
      obtain ⟨-, rfl, hnameEnd⟩ := name.of_header hdrName
      cases heqName
      rw [hnameEnd] at hnextValue
      obtain ⟨_, _, _, hdrValue, heqValue⟩ := hnextValue.header
      obtain ⟨-, rfl, hvalueEnd⟩ := value.of_header hdrValue
      cases heqValue
      exact hlen (hbinding.trans hvalueEnd.symm)

/-- An element whose content the walk skips. -/
theorem nests_of_skipped {element : Element} {p q e : Nat} {tag : UInt8} {after : Element}
    (h : ElementAt packet tag p q e)
    (hskip : ∀ length q, element.next length q = ⟨after, q + length⟩)
    (hbinding : ∀ k, element ≠ .binding k) (hvalue : ∀ k, element ≠ .value k)
    (hnext : Nests packet n ⟨after, e⟩) : Nests packet n ⟨element, p⟩ := by
  apply nests_of_elementAt h (not_misnests h hbinding hvalue)
  rw [hskip, Nat.add_sub_cancel' h.inside]
  exact hnext

/-- A message is gone through without meeting a defect. -/
theorem Message.nests {request : Request} (h : Message packet n request) :
    Nests packet n ⟨.message, 0⟩ := by
  obtain ⟨message, version, community, pdu, requestId, nonRepeaters, maxRepetitions, varbinds,
    bindings⟩ := h
  have hvarbinds : Nests packet n ⟨.varbinds, _⟩ :=
    nests_of_elementAt varbinds (not_misnests varbinds (by simp) (by simp)) (bindings.nests 0)
  have hmaxRepetitions : Nests packet n ⟨.integer .maxRepetitions, _⟩ :=
    nests_of_skipped maxRepetitions (fun _ _ => rfl) (by simp) (by simp) hvarbinds
  have hnonRepeaters : Nests packet n ⟨.integer .nonRepeaters, _⟩ :=
    nests_of_skipped nonRepeaters (fun _ _ => rfl) (by simp) (by simp) hmaxRepetitions
  have hrequestId : Nests packet n ⟨.integer .requestId, _⟩ :=
    nests_of_skipped requestId (fun _ _ => rfl) (by simp) (by simp) hnonRepeaters
  have hpdu : Nests packet n ⟨.pdu, _⟩ :=
    nests_of_elementAt pdu (not_misnests pdu (by simp) (by simp)) hrequestId
  have hcommunity : Nests packet n ⟨.community, _⟩ :=
    nests_of_skipped community (fun _ _ => rfl) (by simp) (by simp) hpdu
  have hversion : Nests packet n ⟨.version, _⟩ :=
    nests_of_skipped version (fun _ _ => rfl) (by simp) (by simp) hcommunity
  exact nests_of_elementAt message (not_misnests message (by simp) (by simp)) hversion

/-! ## From the walk to the format -/

/-- One binding: the sequence ends where its value does. -/
theorem binding_of_nests {k p q b e : Nat} {length a : Nat}
    (hnests : Nests packet n ⟨.binding k, p⟩)
    (hbinding : Next packet n ⟨.binding k, p⟩ ⟨.name k, q⟩)
    (hname : Next packet n ⟨.name k, q⟩ ⟨.value k, b⟩)
    (hvalue : Next packet n ⟨.value k, b⟩ ⟨.binding (k + 1), e⟩)
    (hdr : PacketHeader packet n q berTypeOid length a) {oids : List Oid}
    (hrest : Bindings packet n oids e) :
    Bindings packet n (oidValue (packet.slice a length) :: oids) p := by
  have hnestsName := hnests.next hbinding
  have hnestsValue := hnestsName.next hname
  cases hbinding with
  | @binding _ _ lengthBinding _ _ hdrBinding _ =>
    have hend : q + lengthBinding = e := by
      by_contra hlen
      exact (nests_iff.mp hnests).1 (.binding hdrBinding hname hvalue hlen)
    cases hname with
    | name hdrName _ _ _ =>
      obtain ⟨-, rfl, rfl⟩ := hdr.functional hdrName
      cases hvalue with
      | value hdrValue _ _ =>
        have hlength : a + length - a = length := by omega
        rw [← hlength]
        exact .cons (hend ▸ hnests.elementAt hdrBinding) (hnestsName.elementAt hdr)
          (hnestsValue.elementAt hdrValue) hrest

/-- The decoder takes the OIDs from bindings that nest. The induction is on the places left
    in the OID list. -/
theorem bindings_of_nests (hn : n ≤ maxPacketSize) (room k : Nat) {p : Nat} {oidList : List Oid}
    {r : List Oid × Nat} (hk : k + room = maxNrOids) (hp : p ≤ n)
    (hnests : Nests packet n ⟨.binding k, p⟩)
    (h : (decodeVarbinds n room p oidList).eval packet = .ok r) :
    ∃ oids, r.1 = oidList ++ oids ∧ Bindings packet n oids p := by
  induction room generalizing k p oidList with
  | zero =>
    by_cases hend : p < n
    · -- a binding too many is an error
      rw [decodeVarbinds, if_pos hend] at h
      cases h
    · obtain rfl : p = n := by omega
      rw [decodeVarbinds_of_ge 0 le_rfl] at h
      obtain rfl : _ = r := by simpa using h
      exact ⟨[], by simp, .nil⟩
  | succ room ih =>
    by_cases hend : p < n
    · rw [decodeVarbinds, if_pos hend, Scan.eval_bind_eq_ok] at h
      obtain ⟨q, hbinding, h⟩ := h
      rw [Scan.eval_bind_eq_ok] at h
      obtain ⟨name, hname, h⟩ := h
      rw [Scan.eval_bind_eq_ok] at h
      obtain ⟨e, hvalue, h⟩ := h
      have hnextBinding := @decodeVarbindHeader_ok packet n k p q (by omega) hbinding
      obtain ⟨hnextName, length, a, hdr, hoid⟩ :=
        decodeVarbindName_ok k hname (typeLength_bind_inside hvalue)
      have hnestsValue := (hnests.next hnextBinding).next hnextName
      rcases decodeVarbindSkip_ok hn k hvalue with ⟨hle, hnextValue⟩ | hover
      · obtain ⟨oids, hr, hrest⟩ := ih (k + 1) (by omega) hle (hnestsValue.next hnextValue) h
        refine ⟨oidValue (packet.slice a length) :: oids, ?_, ?_⟩
        · rw [hr, hoid, List.append_assoc, List.singleton_append]
        · exact binding_of_nests hnests hnextBinding hnextName hnextValue hdr hrest
      · -- a value that overruns breaks the format
        exact absurd (.value hover) (nests_iff.mp hnestsValue).1
    · obtain rfl : p = n := by omega
      rw [decodeVarbinds_of_ge (room + 1) le_rfl] at h
      obtain rfl : _ = r := by simpa using h
      exact ⟨[], by simp, .nil⟩

/-- What the decoder has gone through without meeting a defect is a message. -/
theorem message_of_nests (hn : n ≤ maxPacketSize) {request : Request} {pos : Nat}
    (h : Decoded packet n request pos) (hnests : Nests packet n ⟨.message, 0⟩) :
    Message packet n request := by
  obtain ⟨message, version, community, pdu, requestId, nonRepeaters, maxRepetitions, varbinds,
    -, -, hdrPdu, hbindings⟩ := h
  have hversion := hnests.next message
  have hcommunity := hversion.next version
  have hpdu := hcommunity.next community
  have hrequestId := hpdu.next pdu
  have hnonRepeaters := hrequestId.next requestId
  have hmaxRepetitions := hnonRepeaters.next nonRepeaters
  have hvarbinds := hmaxRepetitions.next maxRepetitions
  have hbinding := hvarbinds.next varbinds
  -- sequences that span the rest of the packet end where it ends
  have hspans : ∀ {element p q tag}, Nests packet n ⟨element, p⟩ →
      PacketHeader packet n p tag (n - q) q → ElementAt packet tag p q n := by
    intro element p q tag hplace hdr
    have hb := hdr.bounds
    have helement := hplace.elementAt hdr
    rwa [Nat.add_sub_cancel' hb.2.2] at helement
  have hpduElement := hspans hpdu hdrPdu
  cases message with
  | message hdrMessage hlenMessage =>
  cases version with
  | version hdrVersion =>
  cases community with
  | community hdrCommunity =>
  cases requestId with
  | integer hdrRequestId =>
  cases nonRepeaters with
  | integer hdrNonRepeaters =>
  cases maxRepetitions with
  | integer hdrMaxRepetitions =>
  cases varbinds with
  | varbinds hdrVarbinds hlenVarbinds =>
  rw [hlenMessage] at hdrMessage
  rw [hlenVarbinds] at hdrVarbinds
  obtain ⟨oids, hoids, hbindings⟩ :=
    bindings_of_nests hn maxNrOids 0 (Nat.zero_add _) hdrVarbinds.bounds.2.2 hbinding hbindings
  obtain rfl : request.oidList = oids := by simpa using hoids
  exact .intro (hspans hnests hdrMessage) (hversion.elementAt hdrVersion)
    (hcommunity.elementAt hdrCommunity) hpduElement (hrequestId.elementAt hdrRequestId)
    (hnonRepeaters.elementAt hdrNonRepeaters) (hmaxRepetitions.elementAt hdrMaxRepetitions)
    (hspans hvarbinds hdrVarbinds) hbindings

end

/-- **Nesting.** A packet that the decoder accepts is a message in definite form with the OIDs
    of the request exactly when no element on the way through it has an indefinite length, no
    binding has another length than its name and value together, and no value has a length that
    lets the guard wrap around. -/
theorem message_iff (packet : Mem) (n : Nat) (hn : n ≤ maxPacketSize) (request : Request)
    (pos : Nat) (haccepted : (decodeSnmpRequest n).eval packet = .ok (request, pos)) :
    Message packet n request ↔ ∀ place, Reaches packet n place → ¬ Misnests packet n place :=
  ⟨Message.nests, message_of_nests hn (decodeSnmpRequest_decoded hn haccepted)⟩

/-- A v2c GET request for `.1.3.1` whose binding claims to have one byte. -/
def misnestedGet : List UInt8 :=
  [0x30, 0x1B, 0x02, 0x01, 0x01, 0x04, 0x01, 0x70, 0xA0, 0x13, 0x02, 0x01, 0x01, 0x02, 0x01,
    0x00, 0x02, 0x01, 0x00, 0x30, 0x08, 0x30, 0x01, 0x06, 0x02, 0x2B, 0x01, 0x05, 0x00]

/-- What it is decoded to. -/
def misnestedRequest : Request :=
  ⟨.ofList [0x70], berTypeSnmpGet, snmpVersion2c, 1, 0, 0, [⟨[1, 3, 1], 4⟩]⟩

theorem eval_misnestedGet :
    (decodeSnmpRequest 29).eval (Mem.ofList misnestedGet) = .ok (misnestedRequest, 29) :=
  Lib.ok_of_toOption (by decide +kernel)

/-- The request is accepted, but the binding does not end where its value does. -/
theorem misnestedGet_not_message :
    (decodeSnmpRequest 29).eval (Mem.ofList misnestedGet) = .ok (misnestedRequest, 29) ∧
      ¬ Message (Mem.ofList misnestedGet) 29 misnestedRequest := by
  refine ⟨eval_misnestedGet, fun h => ?_⟩
  obtain ⟨message, version, community, pdu, requestId, nonRepeaters, maxRepetitions, varbinds,
    bindings⟩ := h
  obtain ⟨rfl, -⟩ := message.of_short (by decide)
  obtain ⟨-, rfl⟩ := version.of_short (by decide)
  obtain ⟨-, rfl⟩ := community.of_short (by decide)
  obtain ⟨rfl, -⟩ := pdu.of_short (by decide)
  obtain ⟨-, rfl⟩ := requestId.of_short (by decide)
  obtain ⟨-, rfl⟩ := nonRepeaters.of_short (by decide)
  obtain ⟨-, rfl⟩ := maxRepetitions.of_short (by decide)
  obtain ⟨rfl, -⟩ := varbinds.of_short (by decide)
  have hbindings : Bindings (Mem.ofList misnestedGet) 29 misnestedRequest.oidList 21 := bindings
  generalize misnestedRequest.oidList = oids at hbindings
  cases hbindings with
  | cons binding name value rest =>
    -- 24 by the length of the binding, 29 by those of its name and value
    obtain ⟨rfl, hbinding⟩ := binding.of_short (by decide)
    obtain ⟨-, rfl⟩ := name.of_short (by decide)
    obtain ⟨-, hvalue⟩ := value.of_short (by decide)
    rw [hbinding] at hvalue
    exact absurd hvalue (by decide)

theorem message_iff_misnestedGet :
    Message (Mem.ofList misnestedGet) 29 misnestedRequest ↔
      ∀ place, Reaches (Mem.ofList misnestedGet) 29 place →
        ¬ Misnests (Mem.ofList misnestedGet) 29 place :=
  message_iff (Mem.ofList misnestedGet) 29 (by decide) misnestedRequest 29 eval_misnestedGet

end SdkSnmpd
