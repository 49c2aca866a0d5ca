import SdkSnmpd.Decode
import SdkSnmpd.Lib.Run

/-!
# The Request Decoder

`decode_snmp_request` of `protocol.c`, and the places of a message that it works through.

## Contents

- `decodeSnmpRequest`: the decoder, one helper for each element of the message.
- `Place`, `Next`: the walk through the message along its declared lengths, from the message
  header to the value of the last variable binding.
- `Overruns`: a value element is met whose declared length exceeds the packet by so much
  that the unsigned guard lets it pass, and the decoder does leave the packet there.
- `decodeSnmpRequest_staysInside_iff`: the decoder stays inside the packet, and ends at
  its end, exactly when no element on the way overruns.
-/

namespace SdkSnmpd

open Lib (Mem Scan)
open Lib.Ber (HeaderAt)

/-! ## The decoder -/

/-- The SNMP message is enclosed in a sequence. -/
def decodeMessageHeader (size pos : Nat) : Scan Failure Nat := do
  let h ← decodeSnmpElementTypeLength size pos
  require (h.type = berTypeSequence ∧ h.length = size - h.pos)
    (einval "unexpected SNMP header type %02X length %d")
  pure h.pos

/-- The first element of the sequence is the version. -/
def decodeVersion (size pos : Nat) : Scan Failure (Int32 × Nat) := do
  let h ← decodeSnmpElementTypeLength size pos
  require (h.type = berTypeInteger ∧ h.length = 1)
    (einval "unexpected SNMP version type %02X length %d")
  let (version, pos) ← decodeSnmpElementValueInteger size h.pos h.length
  require (version = snmpVersion1 ∨ version = snmpVersion2c)
    (einval "unsupported SNMP version %d")
  pure (version, pos)

/-- The second element of the sequence is the community string. -/
def decodeCommunity (size pos : Nat) : Scan Failure (CString × Nat) := do
  let h ← decodeSnmpElementTypeLength size pos
  require (h.type = berTypeOctetString ∧ ¬ h.length ≥ maxStringSize)
    (einval "unexpected SNMP community type %02X length %d")
  let (community, pos) ← decodeSnmpElementValueString size h.pos h.length maxStringSize
  require (¬ community.strlen < 1) (einval "unsupported SNMP community '%s'")
  pure (community, pos)

/-- The third element of the sequence is the SNMP request; its tag is not checked here. -/
def decodePduHeader (size pos : Nat) : Scan Failure (UInt8 × Nat) := do
  let h ← decodeSnmpElementTypeLength size pos
  require (h.length = size - h.pos)
    (einval "unexpected SNMP request type type %02X length %d")
  pure (h.type, h.pos)

/-- The first three elements of the SNMP request are integers: the request ID, the error
    state or non-repeaters, and the error index or max-repetitions. -/
def decodePduInteger (size pos : Nat) (message : String) : Scan Failure (Int32 × Nat) := do
  let h ← decodeSnmpElementTypeLength size pos
  require (h.type = berTypeInteger ∧ ¬ h.length < 1) (einval message)
  decodeSnmpElementValueInteger size h.pos h.length

def decodeRequestId (size pos : Nat) : Scan Failure (Int32 × Nat) :=
  decodePduInteger size pos "unexpected SNMP request id type %02X length %d"

def decodeNonRepeaters (size pos : Nat) : Scan Failure (Int32 × Nat) :=
  decodePduInteger size pos "unexpected SNMP error state type %02X length %d"

def decodeMaxRepetitions (size pos : Nat) : Scan Failure (Int32 × Nat) :=
  decodePduInteger size pos "unexpected SNMP error index type %02X length %d"

/-- The fourth element of the SNMP request are the variable bindings. -/
def decodeVarbindsHeader (size pos : Nat) : Scan Failure Nat := do
  let h ← decodeSnmpElementTypeLength size pos
  require (h.type = berTypeSequence ∧ h.length = size - h.pos)
    (einval "unexpected SNMP varbindings type %02X length %d")
  pure h.pos

/-- Each variable binding is a sequence describing the variable. -/
def decodeVarbindHeader (size pos : Nat) : Scan Failure Nat := do
  let h ← decodeSnmpElementTypeLength size pos
  require (h.type = berTypeSequence ∧ ¬ h.length < 1)
    (einval "unexpected SNMP varbinding type %02X length %d")
  pure h.pos

/-- The first element of the variable binding is the OID. -/
def decodeVarbindOid (size pos : Nat) : Scan Failure (Oid × Nat) := do
  let h ← decodeSnmpElementTypeLength size pos
  require (h.type = berTypeOid ∧ ¬ h.length < 1)
    (einval "unexpected SNMP varbinding OID type %02X length %d")
  decodeSnmpElementValueOid size h.pos h.length

/-- The second element of the variable binding is the new type and value. -/
def decodeVarbindValue (size pos : Nat) : Scan Failure Nat := do
  let h ← decodeSnmpElementTypeLength size pos
  require (¬ ((h.type = berTypeNull ∧ h.length ≠ 0) ∨ (h.type ≠ berTypeNull ∧ h.length = 0)))
    (einval "unexpected SNMP varbinding value type %02X length %d")
  decodeSnmpElementValueVoid size h.pos h.length

/-- Loop through the variable bindings. `room` is the number of free places of the OID
    list. -/
def decodeVarbinds (size : Nat) : (room pos : Nat) → (oidList : List Oid) →
    Scan Failure (List Oid × Nat)
  | room, pos, oidList =>
      if pos < size then
        match room with
        | 0 => Scan.fail (efault "overflow for OID list")
        | room + 1 => do
            let pos ← decodeVarbindHeader size pos
            let (oid, pos) ← decodeVarbindOid size pos
            let pos ← decodeVarbindValue size pos
            decodeVarbinds size room pos (oidList ++ [oid])
      else
        pure (oidList, pos)

/-- Decode the request in a packet of `size` bytes. Returns what is stored in `*request`,
    and the final cursor. -/
def decodeSnmpRequest (size : Nat) : Scan Failure (Request × Nat) := do
  let pos ← decodeMessageHeader size 0
  let (version, pos) ← decodeVersion size pos
  let (community, pos) ← decodeCommunity size pos
  let (type, pos) ← decodePduHeader size pos
  let (id, pos) ← decodeRequestId size pos
  let (nonRepeaters, pos) ← decodeNonRepeaters size pos
  let (maxRepetitions, pos) ← decodeMaxRepetitions size pos
  let pos ← decodeVarbindsHeader size pos
  let (oidList, pos) ← decodeVarbinds size maxNrOids pos []
  pure (⟨community, type, version, id, nonRepeaters, maxRepetitions, oidList⟩, pos)

/-! ## Places of a message -/

/-- The integers at the start of a PDU. -/
inductive PduInteger where
  | requestId
  | nonRepeaters
  | maxRepetitions
  deriving DecidableEq

/-- The elements of a message, in the order in which they are decoded. Bindings, names and
    values are counted. -/
inductive Element where
  | message
  | version
  | community
  | pdu
  | integer (field : PduInteger)
  | varbinds
  | binding (k : Nat)
  | name (k : Nat)
  | value (k : Nat)
  deriving DecidableEq

/-- The element after an integer of the PDU. -/
def PduInteger.after : PduInteger → Element
  | requestId => .integer .nonRepeaters
  | nonRepeaters => .integer .maxRepetitions
  | maxRepetitions => .varbinds

/-- An element and the index where its header is expected. -/
structure Place where
  element : Element
  pos : Nat

/-- A header that the agent understands stands at a position of the packet. -/
abbrev PacketHeader (packet : Mem) (n pos : Nat) (tag : UInt8) (length next : Nat) : Prop :=
  HeaderAt supportedTypes packet n pos tag length next

/-- One element further: the element at hand has the header and, where the agent looks at
    it, the content that the message format asks for, and its content fits. -/
inductive Next (packet : Mem) (n : Nat) : Place → Place → Prop where
  | message {p length q} (hdr : PacketHeader packet n p berTypeSequence length q)
      (hlen : length = n - q) : Next packet n ⟨.message, p⟩ ⟨.version, q⟩
  | version {p q} (hdr : PacketHeader packet n p berTypeInteger 1 q) (hfit : q + 1 ≤ n)
      (hval : integerValue (packet.slice q 1) = snmpVersion1 ∨
        integerValue (packet.slice q 1) = snmpVersion2c) :
      Next packet n ⟨.version, p⟩ ⟨.community, q + 1⟩
  | community {p length q} (hdr : PacketHeader packet n p berTypeOctetString length q)
      (hlen : length < maxStringSize) (hfit : q + length ≤ n)
      (hval : 1 ≤ (stringValue (packet.slice q length) maxStringSize).strlen) :
      Next packet n ⟨.community, p⟩ ⟨.pdu, q + length⟩
  | pdu {p tag length q} (hdr : PacketHeader packet n p tag length q) (hlen : length = n - q) :
      Next packet n ⟨.pdu, p⟩ ⟨.integer .requestId, q⟩
  | integer {field p length q} (hdr : PacketHeader packet n p berTypeInteger length q)
      (hlen : 1 ≤ length) (hfit : q + length ≤ n) :
      Next packet n ⟨.integer field, p⟩ ⟨field.after, q + length⟩
  | varbinds {p length q} (hdr : PacketHeader packet n p berTypeSequence length q)
      (hlen : length = n - q) : Next packet n ⟨.varbinds, p⟩ ⟨.binding 0, q⟩
  | binding {k p length q} (hk : k < maxNrOids)
      (hdr : PacketHeader packet n p berTypeSequence length q) (hlen : 1 ≤ length) :
      Next packet n ⟨.binding k, p⟩ ⟨.name k, q⟩
  | name {k p length q} (hdr : PacketHeader packet n p berTypeOid length q) (hlen : 1 ≤ length)
      (hfit : q + length ≤ n) (hval : OidContent (packet.slice q length)) :
      Next packet n ⟨.name k, p⟩ ⟨.value k, q + length⟩
  | value {k p tag length q} (hdr : PacketHeader packet n p tag length q)
      (hlen : tag = berTypeNull ↔ length = 0) (hfit : q + length ≤ n) :
      Next packet n ⟨.value k, p⟩ ⟨.binding (k + 1), q + length⟩

/-- The walk through the message of `n` bytes arrives at a place. -/
def Reaches (packet : Mem) (n : Nat) (place : Place) : Prop :=
  Relation.ReflTransGen (Next packet n) ⟨.message, 0⟩ place

/-- At this place stands an element with a value whose declared length exceeds the packet
    size by more than one, so that the guard `*pos < (size - length + 1)` wraps around and
    passes, and nothing in the packet keeps the decoder from leaving it: no NUL ends the
    community, no octet stops the OID decoder. -/
inductive Overruns (packet : Mem) (n : Nat) : Place → Prop where
  | community {p length q} (hdr : PacketHeader packet n p berTypeOctetString length q)
      (hlen : length < maxStringSize) (hover : n + 1 < length)
      (hnul : ¬ ∃ i, q ≤ i ∧ i < n ∧ packet i = 0) : Overruns packet n ⟨.community, p⟩
  | integer {field p length q} (hdr : PacketHeader packet n p berTypeInteger length q)
      (hover : n + 1 < length) : Overruns packet n ⟨.integer field, p⟩
  | name {k p length q} (hdr : PacketHeader packet n p berTypeOid length q)
      (hover : n + 1 < length) (hstop : ¬ OidStops packet n q) : Overruns packet n ⟨.name k, p⟩
  | value {k p tag length q} (hdr : PacketHeader packet n p tag length q)
      (hlen : tag = berTypeNull ↔ length = 0) (hover : n + 1 < length) :
      Overruns packet n ⟨.value k, p⟩

/-! ## Staying inside the packet -/

section

variable {packet : Mem} {n : Nat}

/-- From this place on, no element overruns. -/
abbrev Clean (packet : Mem) (n : Nat) (element : Element) (pos : Nat) : Prop :=
  Lib.Stages.Clean (Next packet n) (Overruns packet n) ⟨element, pos⟩

theorem clean_step {element : Element} {pos : Nat} :
    Clean packet n element pos ↔ ¬ Overruns packet n ⟨element, pos⟩ ∧
      ∀ t, Next packet n ⟨element, pos⟩ t → Clean packet n t.element t.pos :=
  Lib.Stages.clean_iff

/-- Past the end of the packet there is no header. -/
theorem not_packetHeader {pos : Nat} (hpos : n ≤ pos) {tag : UInt8} {length next : Nat} :
    ¬ PacketHeader packet n pos tag length next := by
  intro hdr
  have hb := hdr.bounds
  omega

theorem clean_pdu_of_le {pos : Nat} (hpos : n ≤ pos) : Clean packet n .pdu pos := by
  refine clean_step.mpr ⟨fun hbad => (by cases hbad), fun t ht => ?_⟩
  cases ht with
  | pdu hdr hlen => exact absurd hdr (not_packetHeader hpos)

theorem within_decodeMessageHeader (pos : Nat) :
    ((decodeMessageHeader n pos).Within packet n fun q => Clean packet n .version q) ↔
      Clean packet n .message pos := by
  rw [clean_step]
  simp only [decodeMessageHeader, Scan.within_bind, within_typeLength, within_require,
    Scan.within_pure]
  constructor
  · intro h
    refine ⟨fun hbad => (by cases hbad), fun t ht => ?_⟩
    cases ht with
    | message hdr hlen => exact h _ _ _ hdr ⟨rfl, hlen⟩
  · rintro ⟨-, hnext⟩ tag length q hdr ⟨rfl, hlen⟩
    exact hnext _ (.message hdr hlen)

theorem within_decodeVersion (hn : n ≤ maxPacketSize) (pos : Nat) :
    ((decodeVersion n pos).Within packet n fun r => Clean packet n .community r.2) ↔
      Clean packet n .version pos := by
  rw [clean_step]
  simp only [decodeVersion, Scan.within_bind, within_typeLength, within_require, Scan.within_pure]
  constructor
  · intro h
    refine ⟨fun hbad => (by cases hbad), fun t ht => ?_⟩
    cases ht with
    | version hdr hfit hval =>
      have hq := hdr.bounds.2.2
      have hdec := h berTypeInteger 1 _ hdr ⟨rfl, rfl⟩
      simp only [within_integer packet (size_lt hn) hq le_rfl hdr.length_lt] at hdec
      exact hdec.2 hfit hval
  · -- a length of one octet cannot wrap the guard around
    rintro ⟨-, hnext⟩ tag length q hdr ⟨rfl, rfl⟩
    have hq := hdr.bounds.2.2
    simp only [within_integer packet (size_lt hn) hq le_rfl hdr.length_lt]
    exact ⟨by omega, fun hfit hval => hnext _ (.version hdr hfit hval)⟩

theorem within_decodeCommunity (hn : n ≤ maxPacketSize) (pos : Nat) :
    ((decodeCommunity n pos).Within packet n fun r => Clean packet n .pdu r.2) ↔
      Clean packet n .community pos := by
  rw [clean_step]
  simp only [decodeCommunity, Scan.within_bind, within_typeLength, within_require, Scan.within_pure]
  constructor
  · intro h
    constructor
    · intro hbad
      cases hbad with
      | community hdr hlen hover hnul =>
        have hdec := h _ _ _ hdr ⟨rfl, by omega⟩
        simp only [within_string packet _ (size_lt hn) hdr.bounds.2.2 hdr.length_lt] at hdec
        -- the decoder stayed inside, so that a NUL has stopped it
        exact hnul (hdec.1 hover).1
    · intro t ht
      cases ht with
      | community hdr hlen hfit hval =>
        have hdec := h _ _ _ hdr ⟨rfl, by omega⟩
        simp only [within_string packet _ (size_lt hn) hdr.bounds.2.2 hdr.length_lt] at hdec
        exact hdec.2 hfit (by omega)
  · rintro ⟨hclean, hnext⟩ tag length q hdr ⟨rfl, hlen⟩
    simp only [within_string packet _ (size_lt hn) hdr.bounds.2.2 hdr.length_lt]
    constructor
    · -- a NUL keeps the decoder inside, but the cursor is past the end
      intro hover
      refine ⟨?_, fun _ => clean_pdu_of_le (by omega)⟩
      by_contra hnul
      exact hclean (.community hdr (by omega) hover hnul)
    · intro hfit hval
      exact hnext _ (.community hdr (by omega) hfit (by omega))

theorem within_decodePduHeader (pos : Nat) :
    ((decodePduHeader n pos).Within packet n fun r => Clean packet n (.integer .requestId) r.2) ↔
      Clean packet n .pdu pos := by
  rw [clean_step]
  simp only [decodePduHeader, Scan.within_bind, within_typeLength, within_require, Scan.within_pure]
  constructor
  · intro h
    refine ⟨fun hbad => (by cases hbad), fun t ht => ?_⟩
    cases ht with
    | pdu hdr hlen => exact h _ _ _ hdr hlen
  · rintro ⟨-, hnext⟩ tag length q hdr hlen
    exact hnext _ (.pdu hdr hlen)

theorem within_decodePduInteger (hn : n ≤ maxPacketSize) (field : PduInteger) (pos : Nat)
    (message : String) :
    ((decodePduInteger n pos message).Within packet n fun r => Clean packet n field.after r.2) ↔
      Clean packet n (.integer field) pos := by
  rw [clean_step]
  simp only [decodePduInteger, Scan.within_bind, within_typeLength, within_require]
  constructor
  · intro h
    constructor
    · intro hbad
      cases hbad with
      | integer hdr hover =>
        have hdec := h _ _ _ hdr ⟨rfl, by omega⟩
        rw [within_integer packet (size_lt hn) hdr.bounds.2.2 (by omega) hdr.length_lt] at hdec
        omega
    · intro t ht
      cases ht with
      | integer hdr hlen hfit =>
        have hdec := h _ _ _ hdr ⟨rfl, by omega⟩
        rw [within_integer packet (size_lt hn) hdr.bounds.2.2 hlen hdr.length_lt] at hdec
        exact hdec.2 hfit
  · rintro ⟨hclean, hnext⟩ tag length q hdr ⟨rfl, hlen⟩
    rw [within_integer packet (size_lt hn) hdr.bounds.2.2 (by omega) hdr.length_lt]
    -- the decoder leaves the packet exactly where the element overruns
    refine ⟨?_, fun hfit => hnext _ (.integer hdr (by omega) hfit)⟩
    by_contra hover
    exact hclean (.integer hdr (by omega))

theorem within_decodeVarbindsHeader (pos : Nat) :
    ((decodeVarbindsHeader n pos).Within packet n fun q => Clean packet n (.binding 0) q ∧ q ≤ n) ↔
      Clean packet n .varbinds pos := by
  rw [clean_step]
  simp only [decodeVarbindsHeader, Scan.within_bind, within_typeLength, within_require,
    Scan.within_pure]
  constructor
  · intro h
    refine ⟨fun hbad => (by cases hbad), fun t ht => ?_⟩
    cases ht with
    | varbinds hdr hlen => exact (h _ _ _ hdr ⟨rfl, hlen⟩).1
  · rintro ⟨-, hnext⟩ tag length q hdr ⟨rfl, hlen⟩
    exact ⟨hnext _ (.varbinds hdr hlen), hdr.bounds.2.2⟩

theorem within_decodeVarbindHeader {k : Nat} (hk : k < maxNrOids) (pos : Nat) :
    ((decodeVarbindHeader n pos).Within packet n fun q => Clean packet n (.name k) q) ↔
      Clean packet n (.binding k) pos := by
  rw [clean_step]
  simp only [decodeVarbindHeader, Scan.within_bind, within_typeLength, within_require,
    Scan.within_pure]
  constructor
  · intro h
    refine ⟨fun hbad => (by cases hbad), fun t ht => ?_⟩
    cases ht with
    | binding hk hdr hlen => exact h _ _ _ hdr ⟨rfl, by omega⟩
  · rintro ⟨-, hnext⟩ tag length q hdr ⟨rfl, hlen⟩
    exact hnext _ (.binding hk hdr (by omega))

theorem within_decodeVarbindOid (hn : n ≤ maxPacketSize) (k pos : Nat) :
    ((decodeVarbindOid n pos).Within packet n fun r => Clean packet n (.value k) r.2) ↔
      Clean packet n (.name k) pos := by
  rw [clean_step]
  simp only [decodeVarbindOid, Scan.within_bind, within_typeLength, within_require]
  constructor
  · intro h
    constructor
    · intro hbad
      cases hbad with
      | name hdr hover hstop =>
        -- the content overruns the packet, and no octet inside stops the decoder
        have hdec := h _ _ _ hdr ⟨rfl, by omega⟩
        rw [within_oid packet (size_lt hn) hdr.bounds.2.2 (by omega) hdr.length_lt] at hdec
        exact hstop (hdec.1 hover)
    · intro t ht
      cases ht with
      | name hdr hlen hfit hval =>
        have hdec := h _ _ _ hdr ⟨rfl, by omega⟩
        rw [within_oid packet (size_lt hn) hdr.bounds.2.2 hlen hdr.length_lt] at hdec
        exact hdec.2 hfit hval
  · rintro ⟨hclean, hnext⟩ tag length q hdr ⟨rfl, hlen⟩
    rw [within_oid packet (size_lt hn) hdr.bounds.2.2 (by omega) hdr.length_lt]
    constructor
    · intro hover
      by_contra hstop
      exact hclean (.name hdr hover hstop)
    · intro hfit hval
      exact hnext _ (.name hdr (by omega) hfit hval)

/-- A value that is skipped leads to the next binding, or past the end of the packet. -/
theorem within_decodeVarbindValue (hn : n ≤ maxPacketSize) (k pos : Nat) :
    ((decodeVarbindValue n pos).Within packet n fun q =>
        Clean packet n (.binding (k + 1)) q ∧ q ≤ n) ↔
      Clean packet n (.value k) pos := by
  rw [clean_step]
  simp only [decodeVarbindValue, Scan.within_bind, within_typeLength, within_require]
  constructor
  · intro h
    constructor
    · intro hbad
      cases hbad with
      | value hdr hlen hover =>
        have hdec := h _ _ _ hdr (by tauto)
        rw [within_void packet (size_lt hn) hdr.bounds.2.2 hdr.length_lt] at hdec
        have hle := (hdec (.inr hover)).2
        omega
    · intro t ht
      cases ht with
      | value hdr hlen hfit =>
        have hdec := h _ _ _ hdr (by tauto)
        rw [within_void packet (size_lt hn) hdr.bounds.2.2 hdr.length_lt] at hdec
        exact (hdec (.inl hfit)).1
  · rintro ⟨hclean, hnext⟩ tag length q hdr hlen
    rw [within_void packet (size_lt hn) hdr.bounds.2.2 hdr.length_lt]
    -- NULL is empty, and nothing else is
    have hnull : tag = berTypeNull ↔ length = 0 := by tauto
    rintro (hfit | hover)
    · exact ⟨hnext _ (.value hdr hnull hfit), hfit⟩
    · exact absurd (.value hdr hnull hover) hclean

theorem clean_binding_of_ge {k pos : Nat} (h : maxNrOids ≤ k ∨ n ≤ pos) :
    Clean packet n (.binding k) pos := by
  refine clean_step.mpr ⟨fun hbad => (by cases hbad), fun t ht => ?_⟩
  cases ht with
  | binding hk hdr hlen =>
    rcases h with hfull | hpast
    · omega
    · exact absurd hdr (not_packetHeader hpast)

/-- At the end of the packet, or past it, the loop stops. -/
theorem decodeVarbinds_of_ge (room : Nat) {pos : Nat} (hpos : n ≤ pos) (oidList : List Oid) :
    decodeVarbinds n room pos oidList = pure (oidList, pos) := by
  cases room with
  | zero => rw [decodeVarbinds, if_neg (by omega)]
  | succ room => rw [decodeVarbinds, if_neg (by omega)]

/-- The loop over the bindings ends at the end of the packet. The induction is on the
    places left in the OID list. -/
theorem within_decodeVarbinds (hn : n ≤ maxPacketSize) (room k pos : Nat) (oidList : List Oid)
    (hk : k + room = maxNrOids) :
    ((decodeVarbinds n room pos oidList).Within packet n fun r => r.2 = n) ↔
      Clean packet n (.binding k) pos ∧ pos ≤ n := by
  by_cases hpos : n ≤ pos
  · have hclean : Clean packet n (.binding k) pos := clean_binding_of_ge (.inr hpos)
    rw [decodeVarbinds_of_ge room hpos]
    simp only [Scan.within_pure, hclean, true_and]
    omega
  · rw [and_iff_left (by omega)]
    induction room generalizing k pos oidList with
    | zero =>
      have hclean : Clean packet n (.binding k) pos := clean_binding_of_ge (.inl (by omega))
      rw [decodeVarbinds, if_pos (by omega)]
      simp [hclean]
    | succ room ih =>
      rw [decodeVarbinds, if_pos (by omega)]
      simp only [Scan.within_bind]
      refine (Scan.within_congr packet fun q => ?_).trans
        (within_decodeVarbindHeader (by omega) pos)
      refine (Scan.within_congr packet fun r => ?_).trans (within_decodeVarbindOid hn k q)
      refine (Scan.within_congr packet fun q' => ?_).trans (within_decodeVarbindValue hn k r.2)
      -- a value that overran its packet has ended the loop past the end
      by_cases hq : n ≤ q'
      · rw [decodeVarbinds_of_ge room hq]
        have hclean : Clean packet n (.binding (k + 1)) q' := clean_binding_of_ge (.inr hq)
        simp only [Scan.within_pure, hclean, true_and]
        omega
      · rw [ih (k + 1) q' _ (by omega) hq]
        exact (and_iff_left (by omega)).symm

/-- The whole decoder: it stays inside the packet and ends at its end exactly when the walk
    through the message is clean. -/
theorem within_decodeSnmpRequest (hn : n ≤ maxPacketSize) :
    ((decodeSnmpRequest n).Within packet n fun r => r.2 = n) ↔ Clean packet n .message 0 := by
  simp only [decodeSnmpRequest, Scan.within_bind, Scan.within_pure]
  -- each stage turns one place of the walk into the next
  refine (Scan.within_congr packet fun p => ?_).trans (within_decodeMessageHeader 0)
  refine (Scan.within_congr packet fun version => ?_).trans (within_decodeVersion hn p)
  refine (Scan.within_congr packet fun community => ?_).trans
    (within_decodeCommunity hn version.2)
  refine (Scan.within_congr packet fun pdu => ?_).trans (within_decodePduHeader community.2)
  refine (Scan.within_congr packet fun id => ?_).trans
    (within_decodePduInteger hn .requestId pdu.2 _)
  refine (Scan.within_congr packet fun nonRepeaters => ?_).trans
    (within_decodePduInteger hn .nonRepeaters id.2 _)
  refine (Scan.within_congr packet fun maxRepetitions => ?_).trans
    (within_decodePduInteger hn .maxRepetitions nonRepeaters.2 _)
  refine (Scan.within_congr packet fun q => ?_).trans
    (within_decodeVarbindsHeader maxRepetitions.2)
  exact within_decodeVarbinds hn maxNrOids 0 q [] (by omega)

end

/-- The decoder dereferences only bytes below `n`, and a request that it returns ends at the
    end of the packet. -/
def StaysInside (packet : Mem) (n : Nat) : Prop :=
  (∀ i ∈ (decodeSnmpRequest n).reads packet, i < n) ∧
    ∀ request pos, (decodeSnmpRequest n).eval packet = .ok (request, pos) → pos = n

/-- The decoder stays inside the packet exactly when no element on its way overruns. -/
theorem decodeSnmpRequest_staysInside_iff (packet : Mem) (n : Nat) (hn : n ≤ maxPacketSize) :
    StaysInside packet n ↔ ∀ place, Reaches packet n place → ¬ Overruns packet n place := by
  have hwithin := (Scan.within_iff packet _ _).symm.trans (within_decodeSnmpRequest hn)
  change StaysInside packet n ↔ Clean packet n .message 0
  rw [← hwithin]
  refine and_congr_right fun _ => ?_
  exact ⟨fun h r hr => h r.1 r.2 hr, fun h request pos hr => h (request, pos) hr⟩

/-- A GET request for `.1.3` whose value claims 65535 octets. -/
def overlongValue : List UInt8 :=
  [0x30, 0x1C, 0x02, 0x01, 0x00, 0x04, 0x01, 0x70, 0xA0, 0x14, 0x02, 0x01, 0x01, 0x02, 0x01,
    0x00, 0x02, 0x01, 0x00, 0x30, 0x09, 0x30, 0x07, 0x06, 0x01, 0x2B, 0x04, 0x82, 0xFF, 0xFF]

/-- A GET request whose ID claims 32 octets. -/
def overlongInteger : List UInt8 :=
  [0x30, 0x0C, 0x02, 0x01, 0x00, 0x04, 0x01, 0x70, 0xA0, 0x04, 0x02, 0x81, 0x20, 0x01]

theorem overlongValue_not_staysInside :
    ¬ StaysInside (Mem.ofList overlongValue) overlongValue.length ∧
      ¬ StaysInside (Mem.ofList overlongInteger) overlongInteger.length := by
  constructor
  · rintro ⟨-, hend⟩
    have hpos : ((decodeSnmpRequest overlongValue.length).eval
        (Mem.ofList overlongValue)).toOption.map Prod.snd = some 65565 := by decide +kernel
    obtain ⟨r, hdec, hover⟩ := Lib.exists_ok_of_toOption hpos
    have hn : r.2 = overlongValue.length := hend r.1 r.2 hdec
    rw [hover] at hn
    exact absurd hn (by decide)
  · rintro ⟨hreads, -⟩
    have hread : ∃ i ∈ (decodeSnmpRequest overlongInteger.length).reads
        (Mem.ofList overlongInteger), overlongInteger.length ≤ i := by decide +kernel
    obtain ⟨i, hi, hge⟩ := hread
    exact absurd (hreads i hi) (by omega)

theorem decodeSnmpRequest_staysInside_iff_overlongValue :
    StaysInside (Mem.ofList overlongValue) 30 ↔
      ∀ place, Reaches (Mem.ofList overlongValue) 30 place →
        ¬ Overruns (Mem.ofList overlongValue) 30 place :=
  decodeSnmpRequest_staysInside_iff (Mem.ofList overlongValue) 30 (by decide)

end SdkSnmpd
