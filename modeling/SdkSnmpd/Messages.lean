import SdkSnmpd.Access
import SdkSnmpd.RoundTrip

/-!
# The Request Round Trip

What a manager has to send so that the agent decodes the request that was meant. A response has
the format of a request: two of its integers are called by other names.

## Contents

- `WireMessage`, `messageBytes`: a message with its bindings, and its encoding.
- `decodeSnmpRequest_roundTrip`: its encoding is decoded to the request, whatever stands behind it,
  and under its own length only.
- `length_messageBytes_le`: NULL values never make a message too long.
- `responseBytes_eq`: the responses of the agent are such messages, too.
-/

namespace SdkSnmpd

open Lib (Mem Scan)
open Lib.Ber (HeaderAt tlv)

/-! ## Messages -/

/-- The encoding of a message with the fields of a request. -/
def messageBytes (request : Request) (bindings : List Value) : List UInt8 :=
  tlv berTypeSequence (integerBytes request.version ++
    (tlv berTypeOctetString request.community.bytes ++
      tlv request.type (integerBytes request.id ++ (integerBytes request.nonRepeaters ++
        (integerBytes request.maxRepetitions ++ varbindsBytes bindings)))))

/-- The bytes are one element that is empty exactly if it is NULL. -/
def BindingTlv (bytes : List UInt8) : Prop :=
  ∃ tag length q, HeaderAt supportedTypes (Mem.ofList bytes) bytes.length 0 tag length q ∧
    q + length = bytes.length ∧ (tag = berTypeNull ↔ length = 0)

/-- A message that the agent decodes: a request with its bindings. -/
structure WireMessage (request : Request) (bindings : List Value) : Prop where
  wire : WireRequest request
  type : request.type ∈ supportedTypes
  oids : bindings.map Value.oid = request.oidList
  values : ∀ value ∈ bindings, BindingTlv value.data.bytes

theorem bindingTlv_null : BindingTlv mNull.bytes :=
  ⟨0x05, 0, 2, .short (by decide) (by decide) (by decide), rfl, by decide⟩

/-- A request with NULL values. -/
theorem wireMessage_nullBindings {request : Request} (h : WireRequest request)
    (htype : request.type ∈ supportedTypes) : WireMessage request (nullBindings request.oidList) where
  wire := h
  type := htype
  oids := by
    rw [nullBindings, List.map_map]
    exact List.map_id _
  values := by
    intro value hvalue
    obtain ⟨oid, -, rfl⟩ := List.mem_map.mp hvalue
    exact bindingTlv_null

/-! ## The stages of the decoder -/

section

variable {mem : Mem} {size pos : Nat}

/-- The header of an element, in a packet that fits into its buffer. -/
theorem eval_elementHeader (hsize : size ≤ maxPacketSize) {type : UInt8} {content : List UInt8}
    (htype : type ∈ supportedTypes) (h : Stands mem size pos (tlv type content)) :
    ∃ q, (decodeSnmpElementTypeLength size pos).eval mem = .ok ⟨type, content.length, q⟩ ∧
      Stands mem size q content ∧ q + content.length = pos + (tlv type content).length := by
  have hlen := Lib.Ber.length_tlv type content
  have hfit := h.2
  unfold maxPacketSize at hsize
  exact eval_header htype (by omega) h

theorem eval_decodeMessageHeader (hsize : size ≤ maxPacketSize) {content : List UInt8}
    (h : Stands mem size pos (tlv berTypeSequence content))
    (hspan : pos + (tlv berTypeSequence content).length = size) :
    ∃ q, (decodeMessageHeader size pos).eval mem = .ok q ∧ Stands mem size q content ∧
      q + content.length = size := by
  obtain ⟨q, heval, hcontent, hend⟩ := eval_elementHeader hsize (by decide) h
  refine ⟨q, ?_, hcontent, by omega⟩
  rw [decodeMessageHeader, Scan.eval_bind_of_ok mem heval, eval_require_bind_eq_ok]
  exact ⟨⟨rfl, by dsimp only; omega⟩, rfl⟩

theorem eval_decodeVersion (hsize : size ≤ maxPacketSize) {v : Int32}
    (hv : v = snmpVersion1 ∨ v = snmpVersion2c) (h : Stands mem size pos (integerBytes v)) :
    (decodeVersion size pos).eval mem = .ok (v, pos + (integerBytes v).length) := by
  have hone : (integerContent v).length = 1 := by
    rw [length_integerContent]
    rcases hv with rfl | rfl <;> decide
  obtain ⟨q, heval, hcontent, hend⟩ := eval_elementHeader hsize (by decide) h
  have hvalue : (decodeSnmpElementValueInteger size q (integerContent v).length).eval mem =
      .ok (v, q + (integerContent v).length) := by
    rw [eval_integer_eq_ok mem (by omega), hcontent.slice, integerValue_integerContent]
    exact ⟨guardPasses_of_fits hsize hcontent.2, rfl⟩
  rw [decodeVersion, Scan.eval_bind_of_ok mem heval, eval_require_bind_eq_ok]
  refine ⟨⟨rfl, hone⟩, ?_⟩
  rw [Scan.eval_bind_of_ok mem hvalue, eval_require_bind_eq_ok]
  exact ⟨hv, congrArg (fun pos => Except.ok (v, pos)) hend⟩

theorem eval_decodeCommunity (hsize : size ≤ maxPacketSize) {s : CString} (hpos : 1 ≤ s.strlen)
    (hlt : s.strlen < maxStringSize) (h : Stands mem size pos (tlv berTypeOctetString s.bytes)) :
    (decodeCommunity size pos).eval mem =
      .ok (s, pos + (tlv berTypeOctetString s.bytes).length) := by
  obtain ⟨q, heval, hcontent, hend⟩ := eval_elementHeader hsize (by decide) h
  have hvalue : (decodeSnmpElementValueString size q s.bytes.length maxStringSize).eval mem =
      .ok (s, q + s.bytes.length) := by
    rw [eval_string_eq_ok, hcontent.slice, stringValue_bytes hlt]
    exact ⟨guardPasses_of_fits hsize hcontent.2, rfl⟩
  rw [decodeCommunity, Scan.eval_bind_of_ok mem heval, eval_require_bind_eq_ok]
  refine ⟨⟨rfl, Nat.not_le.mpr hlt⟩, ?_⟩
  rw [Scan.eval_bind_of_ok mem hvalue, eval_require_bind_eq_ok]
  exact ⟨Nat.not_lt.mpr hpos, congrArg (fun pos => Except.ok (s, pos)) hend⟩

theorem eval_decodePduHeader (hsize : size ≤ maxPacketSize) {type : UInt8} {content : List UInt8}
    (htype : type ∈ supportedTypes) (h : Stands mem size pos (tlv type content))
    (hspan : pos + (tlv type content).length = size) :
    ∃ q, (decodePduHeader size pos).eval mem = .ok (type, q) ∧ Stands mem size q content ∧
      q + content.length = size := by
  obtain ⟨q, heval, hcontent, hend⟩ := eval_elementHeader hsize htype h
  refine ⟨q, ?_, hcontent, by omega⟩
  rw [decodePduHeader, Scan.eval_bind_of_ok mem heval, eval_require_bind_eq_ok]
  exact ⟨by dsimp only; omega, rfl⟩

theorem eval_decodePduInteger (hsize : size ≤ maxPacketSize) (message : String) {v : Int32}
    (h : Stands mem size pos (integerBytes v)) :
    (decodePduInteger size pos message).eval mem =
      .ok (v, pos + (integerBytes v).length) := by
  have hlen : 1 ≤ (integerContent v).length := by
    rw [length_integerContent]
    exact (integerOctets_bounds v).1
  obtain ⟨q, heval, hcontent, hend⟩ := eval_elementHeader hsize (by decide) h
  rw [decodePduInteger, Scan.eval_bind_of_ok mem heval, eval_require_bind_eq_ok,
    eval_integer_eq_ok mem hlen, hcontent.slice, integerValue_integerContent]
  exact ⟨⟨rfl, Nat.not_lt.mpr hlen⟩, guardPasses_of_fits hsize hcontent.2,
    congrArg (Prod.mk v) hend.symm⟩

theorem eval_decodeVarbindsHeader (hsize : size ≤ maxPacketSize) {content : List UInt8}
    (h : Stands mem size pos (tlv berTypeSequence content))
    (hspan : pos + (tlv berTypeSequence content).length = size) :
    ∃ q, (decodeVarbindsHeader size pos).eval mem = .ok q ∧ Stands mem size q content ∧
      q + content.length = size := by
  obtain ⟨q, heval, hcontent, hend⟩ := eval_elementHeader hsize (by decide) h
  refine ⟨q, ?_, hcontent, by omega⟩
  rw [decodeVarbindsHeader, Scan.eval_bind_of_ok mem heval, eval_require_bind_eq_ok]
  exact ⟨⟨rfl, by dsimp only; omega⟩, rfl⟩

theorem eval_decodeVarbindHeader (hsize : size ≤ maxPacketSize) {content : List UInt8}
    (hlen : 1 ≤ content.length) (h : Stands mem size pos (tlv berTypeSequence content)) :
    ∃ q, (decodeVarbindHeader size pos).eval mem = .ok q ∧ Stands mem size q content ∧
      q + content.length = pos + (tlv berTypeSequence content).length := by
  obtain ⟨q, heval, hcontent, hend⟩ := eval_elementHeader hsize (by decide) h
  refine ⟨q, ?_, hcontent, hend⟩
  rw [decodeVarbindHeader, Scan.eval_bind_of_ok mem heval, eval_require_bind_eq_ok]
  exact ⟨⟨rfl, Nat.not_lt.mpr hlen⟩, rfl⟩

theorem eval_decodeVarbindOid (hsize : size ≤ maxPacketSize) {oid : Oid} (hoid : WireOid oid)
    (h : Stands mem size pos (tlv berTypeOid (oidContent oid.subidList))) :
    (decodeVarbindOid size pos).eval mem =
      .ok (oid, pos + (tlv berTypeOid (oidContent oid.subidList)).length) := by
  have hlength := hoid.contentLength_le
  have hpos : 1 ≤ (oidContent oid.subidList).length := by
    rw [oidContent, List.length_cons]
    omega
  obtain ⟨q, heval, hcontent, hend⟩ := eval_elementHeader hsize (by decide) h
  rw [decodeVarbindOid, Scan.eval_bind_of_ok mem heval, eval_require_bind_eq_ok,
    eval_oid_eq_ok mem hpos (by rw [length_oidContent]; omega), hcontent.slice,
    hoid.oidValue_oidContent]
  exact ⟨⟨rfl, Nat.not_lt.mpr hpos⟩, guardPasses_of_fits hsize hcontent.2, hoid.content,
    congrArg (Prod.mk oid) hend.symm⟩

/-- A value is skipped. -/
theorem eval_decodeVarbindValue (hsize : size ≤ maxPacketSize) {bytes : List UInt8}
    (hvalue : BindingTlv bytes) (h : Stands mem size pos bytes) :
    (decodeVarbindValue size pos).eval mem = .ok (pos + bytes.length) := by
  obtain ⟨tag, length, q, hdr, hend, hnull⟩ := hvalue
  have hheader : PacketHeader mem size pos tag length (pos + q) := by
    -- the header is read from the bytes of the element only
    refine hdr.shift (fun i hi => ?_) (by have hb := h.2; omega)
    have hi' : i < bytes.length := by omega
    have hget := Mem.getElem_slice mem pos bytes.length (by simpa using hi')
    simp only [h.slice] at hget
    rw [← hget]
    simp [Mem.ofList, hi']
  have hfit := h.2
  have heval : (decodeSnmpElementTypeLength size pos).eval mem = .ok ⟨tag, length, pos + q⟩ :=
    (eval_typeLength_eq_ok mem).mpr hheader
  rw [decodeVarbindValue, Scan.eval_bind_of_ok mem heval, eval_require_bind_eq_ok,
    eval_void_eq_ok]
  exact ⟨by dsimp only; tauto, guardPasses_of_fits hsize (by dsimp only; omega),
    by dsimp only; omega⟩

/-- **The bindings.** The induction is on them. -/
theorem eval_decodeVarbinds (hsize : size ≤ maxPacketSize) (bindings : List Value)
    (hoids : ∀ value ∈ bindings, WireOid value.oid)
    (hvalues : ∀ value ∈ bindings, BindingTlv value.data.bytes) {room : Nat}
    (hroom : bindings.length ≤ room) (oidList : List Oid)
    (h : Stands mem size pos (bindings.flatMap varbindBytes))
    (hspan : pos + (bindings.flatMap varbindBytes).length = size) :
    (decodeVarbinds size room pos oidList).eval mem =
      .ok (oidList ++ bindings.map Value.oid, size) := by
  induction bindings generalizing pos room oidList with
  | nil =>
    obtain rfl : pos = size := by simpa using hspan
    rw [decodeVarbinds_of_ge room le_rfl, List.map_nil, List.append_nil]
    rfl
  | cons value bindings ih =>
    obtain ⟨room, rfl⟩ := Nat.exists_eq_add_of_le' (Nat.le_trans (Nat.le_add_left 1 _) hroom)
    rw [List.flatMap_cons] at h hspan
    rw [List.length_append] at hspan
    obtain ⟨hfirst, hrest⟩ := stands_append.mp h
    obtain ⟨hoid, hoids⟩ := List.forall_mem_cons.mp hoids
    obtain ⟨hvalue, hvalues⟩ := List.forall_mem_cons.mp hvalues
    have hpos := length_varbindBytes_pos value
    have hlen : 1 ≤ (tlv berTypeOid (oidContent value.oid.subidList) ++
        value.data.bytes).length := by
      rw [List.length_append, Lib.Ber.length_tlv]
      omega
    obtain ⟨q, hbinding, hcontent, hend⟩ := eval_decodeVarbindHeader hsize hlen hfirst
    obtain ⟨hname, hdata⟩ := stands_append.mp hcontent
    rw [List.length_append] at hend
    have hnext : q + (tlv berTypeOid (oidContent value.oid.subidList)).length +
        value.data.bytes.length = pos + (varbindBytes value).length := by
      rw [varbindBytes, ← hend, Nat.add_assoc]
    have hlater := ih hoids hvalues (by simpa using hroom) (oidList ++ [value.oid]) hrest
      (by omega)
    rw [decodeVarbinds, if_pos (by omega)]
    simp only
    rw [Scan.eval_bind_of_ok mem hbinding, Scan.eval_bind_of_ok mem
        (eval_decodeVarbindOid hsize hoid hname)]
    simp only
    rw [Scan.eval_bind_of_ok mem (eval_decodeVarbindValue hsize hvalue hdata), hnext, hlater,
      List.map_cons, List.append_assoc, List.singleton_append]

/-! ## The decoder as a whole -/

/-- **Messages are decoded** to the request that was meant. -/
theorem eval_decodeSnmpRequest {request : Request} {bindings : List Value}
    (h : WireMessage request bindings)
    (hfit : (messageBytes request bindings).length ≤ maxPacketSize)
    (hmem : mem.HoldsAt 0 (messageBytes request bindings)) :
    (decodeSnmpRequest (messageBytes request bindings).length).eval mem =
      .ok (request, (messageBytes request bindings).length) := by
  set size := (messageBytes request bindings).length with hsize
  have hstands : Stands mem size 0 (messageBytes request bindings) := ⟨hmem, by omega⟩
  -- the message
  obtain ⟨p, hmessage, hcontent, hend⟩ :=
    eval_decodeMessageHeader hfit hstands (by rw [hsize]; exact Nat.zero_add _)
  rw [List.length_append, List.length_append] at hend
  obtain ⟨hversion, hcontent⟩ := stands_append.mp hcontent
  obtain ⟨hcommunity, hpdu⟩ := stands_append.mp hcontent
  -- the PDU
  obtain ⟨q, hheader, hcontent, hend'⟩ := eval_decodePduHeader hfit h.type hpdu (by omega)
  rw [List.length_append, List.length_append, List.length_append] at hend'
  obtain ⟨hid, hcontent⟩ := stands_append.mp hcontent
  obtain ⟨hnonRepeaters, hcontent⟩ := stands_append.mp hcontent
  obtain ⟨hmaxRepetitions, hvarbinds⟩ := stands_append.mp hcontent
  -- the variable bindings
  obtain ⟨r, hlist, hcontent, hend''⟩ :=
    eval_decodeVarbindsHeader hfit hvarbinds (by unfold varbindsBytes at hend'; omega)
  have hoids : ∀ value ∈ bindings, WireOid value.oid := fun value hvalue =>
    h.wire.oids _ (h.oids ▸ List.mem_map_of_mem hvalue)
  have hroom : bindings.length ≤ maxNrOids := by
    have hlength := congrArg List.length h.oids
    rw [List.length_map] at hlength
    rw [hlength]
    exact h.wire.room
  have hbindings := eval_decodeVarbinds hfit bindings hoids h.values hroom [] hcontent hend''
  rw [List.nil_append, h.oids] at hbindings
  have hstring := eval_decodeCommunity hfit h.wire.community.1 h.wire.community.2 hcommunity
  -- put the stages together
  rw [decodeSnmpRequest, Scan.eval_bind_of_ok mem hmessage,
    Scan.eval_bind_of_ok mem (eval_decodeVersion hfit h.wire.version hversion)]
  simp only
  rw [Scan.eval_bind_of_ok mem hstring]
  simp only
  rw [Scan.eval_bind_of_ok mem hheader]
  simp only [decodeRequestId, decodeNonRepeaters, decodeMaxRepetitions]
  rw [Scan.eval_bind_of_ok mem (eval_decodePduInteger hfit _ hid)]
  simp only
  rw [Scan.eval_bind_of_ok mem (eval_decodePduInteger hfit _ hnonRepeaters)]
  simp only
  rw [Scan.eval_bind_of_ok mem (eval_decodePduInteger hfit _ hmaxRepetitions)]
  simp only
  rw [Scan.eval_bind_of_ok mem hlist, Scan.eval_bind_of_ok mem hbindings]
  rfl

/-- What is accepted says itself how long it is. -/
theorem size_eq_of_decoded {n m : Nat} {result result' : Request × Nat}
    (h : (decodeSnmpRequest n).eval mem = .ok result)
    (h' : (decodeSnmpRequest m).eval mem = .ok result') : n = m := by
  have hheader : ∀ {n : Nat} {result : Request × Nat},
      (decodeSnmpRequest n).eval mem = .ok result → ∃ length q,
        HeaderAt supportedTypes mem n 0 berTypeSequence length q ∧ q + length = n := by
    intro n result h
    rw [decodeSnmpRequest, Scan.eval_bind_eq_ok] at h
    obtain ⟨q, hmessage, -⟩ := h
    have hhdr := decodeMessageHeader_ok hmessage
    exact ⟨n - q, q, hhdr, Nat.add_sub_cancel' hhdr.bounds.2.2⟩
  obtain ⟨length, q, hhdr, hn⟩ := hheader h
  obtain ⟨length', q', hhdr', hm⟩ := hheader h'
  -- both headers are read in a packet of either size
  have hsame := fun i (_ : i < q) => congrArg mem (Nat.zero_add i)
  have hsame' := fun i (_ : i < q') => congrArg mem (Nat.zero_add i)
  have hbounds := hhdr.bounds
  have hbounds' := hhdr'.bounds
  have hwide : HeaderAt supportedTypes mem (max n m) (0 + 0) berTypeSequence length (0 + q) :=
    hhdr.shift hsame (by omega)
  have hwide' : HeaderAt supportedTypes mem (max n m) (0 + 0) berTypeSequence length' (0 + q') :=
    hhdr'.shift hsame' (by omega)
  obtain ⟨-, hlength, hnext⟩ := hwide.functional hwide'
  omega

/-- **Round trip.** Let a message stand at the start of a buffer, with anything behind it. Taken for
    a packet of its own length, it is decoded to the request that was meant; no other length is
    accepted. -/
theorem decodeSnmpRequest_roundTrip {request : Request} {bindings : List Value}
    (h : WireMessage request bindings)
    (hfit : (messageBytes request bindings).length ≤ maxPacketSize)
    (hmem : mem.HoldsAt 0 (messageBytes request bindings)) (n : Nat) (result : Request × Nat) :
    (decodeSnmpRequest n).eval mem = .ok result ↔
      n = (messageBytes request bindings).length ∧
        result = (request, (messageBytes request bindings).length) := by
  have hdecoded := eval_decodeSnmpRequest h hfit hmem
  constructor
  · intro hresult
    obtain rfl := size_eq_of_decoded hresult hdecoded
    rw [hdecoded] at hresult
    cases hresult
    exact ⟨rfl, rfl⟩
  · rintro ⟨rfl, rfl⟩
    exact hdecoded

end

theorem decodeSnmpRequest_roundTrip_nextRequest :
    let bytes := messageBytes nextRequest (nullBindings nextRequest.oidList)
    (decodeSnmpRequest 28).eval (Mem.ofList bytes) = .ok (nextRequest, 28) ↔
      28 = bytes.length ∧ (nextRequest, 28) = (nextRequest, bytes.length) := by
  have hmem : (Mem.ofList (messageBytes nextRequest (nullBindings nextRequest.oidList))).HoldsAt 0
      (messageBytes nextRequest (nullBindings nextRequest.oidList)) := by
    simpa using Mem.holdsAt_ofList
      (messageBytes nextRequest (nullBindings nextRequest.oidList)) []
  have hwire := wireMessage_nullBindings wireRequest_nextRequest
    (show nextRequest.type ∈ supportedTypes by decide)
  exact decodeSnmpRequest_roundTrip hwire (by decide) hmem 28 (nextRequest, 28)

/-! ## Room in a packet -/

/-- A header of at most four octets. -/
theorem length_tlv_le (type : UInt8) (content : List UInt8) :
    (tlv type content).length ≤ content.length + 4 := by
  rw [Lib.Ber.length_tlv, Lib.Ber.length_lengthOctets]
  split_ifs <;> omega

/-- A value that takes few bytes. -/
structure Compact (value : Value) : Prop where
  oid : WireOid value.oid
  data : value.data.bytes.length ≤ 6

theorem Compact.length_varbindBytes_le {value : Value} (h : Compact value) :
    (varbindBytes value).length ≤ 85 := by
  have hdata := h.data
  have hcontent := h.oid.contentLength_le
  have hoid := length_tlv_le berTypeOid (oidContent value.oid.subidList)
  have hbinding := length_tlv_le berTypeSequence
    (tlv berTypeOid (oidContent value.oid.subidList) ++ value.data.bytes)
  rw [length_oidContent] at hoid
  rw [List.length_append] at hbinding
  unfold varbindBytes
  omega

theorem length_flatMap_varbindBytes_le {values : List Value} (h : ∀ value ∈ values, Compact value) :
    (values.flatMap varbindBytes).length ≤ 85 * values.length := by
  induction values with
  | nil => exact Nat.le_refl 0
  | cons value values ih =>
    obtain ⟨hvalue, hvalues⟩ := List.forall_mem_cons.mp h
    have hfirst := hvalue.length_varbindBytes_le
    have hrest := ih hvalues
    rw [List.flatMap_cons, List.length_append, List.length_cons]
    omega

/-- A message with as many compact values as a request has OIDs. -/
theorem length_messageBytes_le {request : Request} {bindings : List Value}
    (hcommunity : request.community.strlen < maxStringSize)
    (hroom : bindings.length ≤ maxNrOids) (h : ∀ value ∈ bindings, Compact value) :
    (messageBytes request bindings).length ≤ maxPacketSize := by
  have hbindings := length_flatMap_varbindBytes_le h
  have hinteger : ∀ v, (integerBytes v).length ≤ 8 := fun v => by
    have hbounds := integerOctets_bounds v
    have hlen := length_tlv_le berTypeInteger (integerContent v)
    rw [length_integerContent] at hlen
    unfold integerBytes
    omega
  have hid := hinteger request.id
  have hversion := hinteger request.version
  have hnonRepeaters := hinteger request.nonRepeaters
  have hmaxRepetitions := hinteger request.maxRepetitions
  have hstring := length_tlv_le berTypeOctetString request.community.bytes
  have hlist := length_tlv_le berTypeSequence (bindings.flatMap varbindBytes)
  have hpdu := length_tlv_le request.type (integerBytes request.id ++
    (integerBytes request.nonRepeaters ++ (integerBytes request.maxRepetitions ++
      varbindsBytes bindings)))
  have hmessage := length_tlv_le berTypeSequence (integerBytes request.version ++
    (tlv berTypeOctetString request.community.bytes ++
      tlv request.type (integerBytes request.id ++ (integerBytes request.nonRepeaters ++
        (integerBytes request.maxRepetitions ++ varbindsBytes bindings)))))
  simp only [List.length_append, varbindsBytes] at hpdu hmessage
  unfold maxStringSize CString.strlen at hcommunity
  unfold maxNrOids at hroom
  simp only [messageBytes, varbindsBytes, maxPacketSize]
  omega

theorem compact_null {oid : Oid} (hoid : WireOid oid) : Compact ⟨oid, mNull⟩ :=
  ⟨hoid, show mNull.bytes.length ≤ 6 by decide⟩

/-! ## Responses as requests -/

/-- The request that the agent takes a response for. -/
def responseRequest (request : Request) (response : Response) : Request where
  community := request.community
  type := berTypeSnmpResponse
  version := request.version
  id := request.id
  nonRepeaters := response.errorStatus
  maxRepetitions := response.errorIndex
  oidList := (valuesToEncode request response).map Value.oid

/-- The two messages have one format. -/
theorem responseBytes_eq (request : Request) (response : Response) :
    responseBytes request response =
      messageBytes (responseRequest request response) (valuesToEncode request response) := rfl

end SdkSnmpd
