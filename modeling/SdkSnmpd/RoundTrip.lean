import SdkSnmpd.OidCodec

/-!
# The Response Round Trip

A manager that reads a response of the agent with the agent's own decoders gets back what
the agent put into it.

## Contents

- `Reply`, `readResponse`: the reader. It checks that every enclosing element ends where
  its content ends.
- `responseBytes`: the encoding of a response, from nested elements.
- `encodeSnmpResponse_roundTrip`: the encoder returns 0 exactly when the encoding fits, and
  then the reader returns the response.
-/

namespace SdkSnmpd

open Lib (Mem Scan Content)
open Lib.Ber (HeaderAt octets foldOctets tlv lengthOctets)

/-! ## The reader -/

/-- What a manager takes from a response: each variable with the bytes of its value. -/
structure Reply where
  version : Int32
  community : CString
  type : UInt8
  id : Int32
  errorStatus : Int32
  errorIndex : Int32
  varbinds : List (Oid × List UInt8)
  deriving DecidableEq

/-- The header of an element of the given type. -/
def readHeader (size pos : Nat) (type : UInt8) : Scan Failure Header := do
  let h ← decodeSnmpElementTypeLength size pos
  require (h.type = type) (einval "unexpected element type")
  pure h

/-- The header of an element of the given type that spans the rest of the packet. -/
def readSpan (size pos : Nat) (type : UInt8) : Scan Failure Nat := do
  let h ← readHeader size pos type
  require (h.pos + h.length = size) (einval "unexpected element length")
  pure h.pos

def readInteger (size pos : Nat) : Scan Failure (Int32 × Nat) := do
  let h ← readHeader size pos berTypeInteger
  decodeSnmpElementValueInteger size h.pos h.length

def readCommunity (size pos : Nat) : Scan Failure (CString × Nat) := do
  let h ← readHeader size pos berTypeOctetString
  decodeSnmpElementValueString size h.pos h.length maxStringSize

/-- A variable binding: OID and value, and nothing else. -/
def readVarbind (size pos : Nat) : Scan Failure ((Oid × List UInt8) × Nat) := do
  let binding ← readHeader size pos berTypeSequence
  let name ← readHeader size binding.pos berTypeOid
  let (oid, pos) ← decodeSnmpElementValueOid size name.pos name.length
  let value ← decodeSnmpElementTypeLength size pos
  let stop ← decodeSnmpElementValueVoid size value.pos value.length
  require (stop = binding.pos + binding.length) (einval "unexpected element length")
  let bytes ← Scan.bytes pos (stop - pos)
  pure ((oid, bytes), stop)

/-- The variable bindings up to the end of the packet, at most `room` of them. -/
def readVarbinds (size : Nat) : (room pos : Nat) → Scan Failure (List (Oid × List UInt8))
  | 0, pos => do
      require (pos = size) (einval "unexpected element length")
      pure []
  | room + 1, pos =>
      if pos = size then pure []
      else do
        let (varbind, pos) ← readVarbind size pos
        let varbinds ← readVarbinds size room pos
        pure (varbind :: varbinds)

/-- Read a response of `size` bytes. -/
def readResponse (size : Nat) : Scan Failure Reply := do
  let pos ← readSpan size 0 berTypeSequence
  let (version, pos) ← readInteger size pos
  let (community, pos) ← readCommunity size pos
  let pos ← readSpan size pos berTypeSnmpResponse
  let (id, pos) ← readInteger size pos
  let (errorStatus, pos) ← readInteger size pos
  let (errorIndex, pos) ← readInteger size pos
  let pos ← readSpan size pos berTypeSequence
  let varbinds ← readVarbinds size size pos
  pure ⟨version, community, berTypeSnmpResponse, id, errorStatus, errorIndex, varbinds⟩

/-! ## The encoding of a response -/

/-- The bytes of a value, as far as its recorded length goes. -/
def Data.bytes (data : Data) : List UInt8 := data.buffer.take data.encodedLength.toNat

def integerBytes (integerValue : Int32) : List UInt8 :=
  tlv berTypeInteger (integerContent integerValue)

def varbindBytes (value : Value) : List UInt8 :=
  tlv berTypeSequence (tlv berTypeOid (oidContent value.oid.subidList) ++ value.data.bytes)

def varbindsBytes (values : List Value) : List UInt8 :=
  tlv berTypeSequence (values.flatMap varbindBytes)

def pduBytes (request : Request) (response : Response) : List UInt8 :=
  tlv berTypeSnmpResponse (integerBytes request.id ++ (integerBytes response.errorStatus ++
    (integerBytes response.errorIndex ++ varbindsBytes (valuesToEncode request response))))

def responseBytes (request : Request) (response : Response) : List UInt8 :=
  tlv berTypeSequence (integerBytes request.version ++
    (tlv berTypeOctetString request.community.bytes ++ pduBytes request response))

/-- The reply that a response stands for: the response's variables, or those of the request
    with NULL values if there was an error. -/
def replyOf (request : Request) (response : Response) : Reply where
  version := request.version
  community := request.community
  type := berTypeSnmpResponse
  id := request.id
  errorStatus := response.errorStatus
  errorIndex := response.errorIndex
  varbinds :=
    if response.errorStatus = snmpStatusOk then
      response.valueList.map fun value => (value.oid, value.data.bytes)
    else
      request.oidList.map fun oid => (oid, [berTypeNull, 0x00])

/-- The bytes are one complete element: a header that the agent understands, and as much
    content as it declares. -/
def CompleteTlv (bytes : List UInt8) : Prop :=
  ∃ tag length q, HeaderAt supportedTypes (Mem.ofList bytes) bytes.length 0 tag length q ∧
    q + length = bytes.length

/-- A value as the MIB holds it. -/
structure WireValue (value : Value) : Prop where
  oid : WireOid value.oid
  data : 0 ≤ value.data.encodedLength
  buffer : value.data.encodedLength ≤ value.data.buffer.length
  tlv : CompleteTlv value.data.bytes

/-- A request as the decoder delivers it. -/
structure WireRequest (request : Request) : Prop where
  version : request.version = snmpVersion1 ∨ request.version = snmpVersion2c
  community : 1 ≤ request.community.strlen ∧ request.community.strlen < maxStringSize
  room : request.oidList.length ≤ maxNrOids
  oids : ∀ oid ∈ request.oidList, WireOid oid

/-- A response as the handlers prepare it. -/
structure WireResponse (response : Response) : Prop where
  room : response.valueList.length ≤ maxNrValues
  values : ∀ value ∈ response.valueList, WireValue value

/-! ## The encoder writes the encoding -/

theorem element_map_some (type : UInt8) (bs : List UInt8) :
    element type (bs.map some) = (tlv type bs).map some := by
  rw [element, List.length_map, ← List.map_append]
  rfl

/-- The bytes of a value that the encoder copies. -/
theorem WireValue.encodable {value : Value} (h : WireValue value) : Encodable value where
  oid := by
    have hlen := h.oid.contentLength_le
    rw [h.oid.exact, encodeSnmpOid_eq_tlv (by omega)]
  data := h.data
  buffer := h.buffer

/-- The OID takes as many octets as are recorded for it. -/
structure ExactOid (oid : Oid) : Prop where
  room : oid.subidList.length ≤ maxNrSubids
  exact : oid.encodedLength = (encodeSnmpOid oid).length

theorem WireOid.exactOid {oid : Oid} (h : WireOid oid) : ExactOid oid where
  room := h.room
  exact := by
    have hlen := h.contentLength_le
    rw [h.exact, encodeSnmpOid_eq_tlv (by omega)]

/-- An OID of exact length fills its slot. -/
theorem varbindContent_of_exact {value : Value} (h : ExactOid value.oid) :
    varbindContent value = (varbindBytes value).map some := by
  have hle := oidContentLength_le h.room
  have hwritten : encodeSnmpOid value.oid = tlv berTypeOid (oidContent value.oid.subidList) :=
    encodeSnmpOid_eq_tlv (by omega)
  have hslot : value.oid.encodedLength.toNat = (encodeSnmpOid value.oid).length := by
    rw [h.exact, Int.toNat_natCast]
  rw [varbindContent, hslot, Lib.slot_self, ← List.map_append, element_map_some, hwritten]
  rfl

/-- Where all OIDs are of exact length, every byte of the response is written. -/
theorem responseContent_of_exact {request : Request} {response : Response}
    (h : ∀ value ∈ valuesToEncode request response, ExactOid value.oid) :
    responseContent request response = (responseBytes request response).map some := by
  have hvarbinds : (valuesToEncode request response).flatMap varbindContent =
      ((valuesToEncode request response).flatMap varbindBytes).map some := by
    rw [List.map_flatMap]
    exact List.flatMap_congr fun value hvalue => varbindContent_of_exact (h value hvalue)
  simp only [responseContent, pduContent, integerElement, hvarbinds, element_map_some,
    ← List.map_append]
  rfl

section

variable {request : Request} {response : Response}

theorem completeTlv_null : CompleteTlv mNull.bytes :=
  ⟨0x05, 0, 2, .short (by decide) (by decide) (by decide), rfl⟩

theorem wireValue_of_mem (hreq : WireRequest request) (hresp : WireResponse response)
    {value : Value} (h : value ∈ valuesToEncode request response) : WireValue value := by
  unfold valuesToEncode at h
  split at h
  · -- after an error: the OIDs of the request, with NULL values
    obtain ⟨oid, hoid, rfl⟩ := List.mem_map.mp h
    exact ⟨hreq.oids oid hoid, show (0 : Int) ≤ 2 by decide, show (2 : Int) ≤ 2 by decide,
      completeTlv_null⟩
  · exact hresp.values value h

theorem encoderInput (hreq : WireRequest request) (hresp : WireResponse response) :
    EncoderInput request response where
  community := hreq.community.2
  room := hreq.room.trans maxNrOids_le_maxNrValues
  values := fun _ h => (wireValue_of_mem hreq hresp h).encodable

theorem responseContent_eq (hreq : WireRequest request) (hresp : WireResponse response) :
    responseContent request response = (responseBytes request response).map some :=
  responseContent_of_exact fun _ h => (wireValue_of_mem hreq hresp h).oid.exactOid

end

/-! ## Reading elements back -/

/-- The bytes stand at `pos`, before `size`. -/
def Stands (mem : Mem) (size pos : Nat) (bytes : List UInt8) : Prop :=
  mem.HoldsAt pos bytes ∧ pos + bytes.length ≤ size

section

variable {mem : Mem} {size pos : Nat}

theorem stands_append {xs ys : List UInt8} :
    Stands mem size pos (xs ++ ys) ↔
      Stands mem size pos xs ∧ Stands mem size (pos + xs.length) ys := by
  unfold Stands
  rw [Mem.holdsAt_append, List.length_append]
  constructor
  · intro ⟨⟨hx, hy⟩, hfit⟩
    exact ⟨⟨hx, by omega⟩, hy, by omega⟩
  · intro ⟨⟨hx, _⟩, hy, hfit⟩
    exact ⟨⟨hx, hy⟩, by omega⟩

theorem Stands.slice {bytes : List UInt8} (h : Stands mem size pos bytes) :
    mem.slice pos bytes.length = bytes := h.1

/-- The header of an element is read wherever it stands, and leads to its content. -/
theorem eval_header {type : UInt8} {content : List UInt8} (htype : type ∈ supportedTypes)
    (hshort : content.length < 65536) (h : Stands mem size pos (tlv type content)) :
    ∃ q, (decodeSnmpElementTypeLength size pos).eval mem = .ok ⟨type, content.length, q⟩ ∧
      Stands mem size q content ∧ q + content.length = pos + (tlv type content).length := by
  have hlen := Lib.Ber.length_tlv type content
  obtain ⟨hheader, hcontent⟩ := stands_append.mp (show Stands mem size pos
    ((type :: lengthOctets content.length) ++ content) from h)
  have hfit := h.2
  -- the header stands before the content
  have hinside : pos + 1 + (lengthOctets content.length).length ≤ size := by omega
  have hdr := Lib.Ber.headerAt_of_holdsAt htype hshort hheader.1 hinside
  refine ⟨pos + 1 + (lengthOctets content.length).length, ?_, ?_, ?_⟩
  · exact (eval_typeLength_eq_ok mem (h := ⟨type, content.length, _⟩)).mpr hdr
  · rw [List.length_cons] at hcontent
    rwa [show pos + 1 + (lengthOctets content.length).length =
      pos + ((lengthOctets content.length).length + 1) by omega]
  · omega

/-- The same with the check of the type. -/
theorem eval_readHeader (hsize : size ≤ maxPacketSize) {type : UInt8} {content : List UInt8}
    (htype : type ∈ supportedTypes) (h : Stands mem size pos (tlv type content)) :
    ∃ q, (readHeader size pos type).eval mem = .ok ⟨type, content.length, q⟩ ∧
      Stands mem size q content ∧ q + content.length = pos + (tlv type content).length := by
  have hlen := Lib.Ber.length_tlv type content
  have hfit := h.2
  unfold maxPacketSize at hsize
  obtain ⟨q, heval, hrest⟩ := eval_header htype (by omega) h
  refine ⟨q, ?_, hrest⟩
  rw [readHeader, Scan.eval_bind_of_ok mem heval, eval_require_bind_eq_ok]
  exact ⟨rfl, rfl⟩

/-- Where the content fits, the guard of the value decoders passes. -/
theorem guardPasses_of_fits (hsize : size ≤ maxPacketSize) {length : Nat}
    (hfit : pos + length ≤ size) : guardPasses size length pos := by
  have hlt : length < 65536 := by
    unfold maxPacketSize at hsize
    omega
  exact (guardPasses_iff (size_lt hsize) (by omega) hlt).mpr (.inl hfit)

/-- The ladder of `integerOctets`, in whole numbers. -/
theorem integerOctets_eq (v : Int32) :
    integerOctets v =
      if v.toInt < -8388608 ∨ 8388607 < v.toInt then 4
      else if v.toInt < -32768 ∨ 32767 < v.toInt then 3
      else if v.toInt < -128 ∨ 127 < v.toInt then 2
      else 1 := by
  simp only [integerOctets, gt_iff_lt, Int32.lt_iff_toInt_lt,
    show (-8388608 : Int32).toInt = -8388608 from rfl,
    show (8388607 : Int32).toInt = 8388607 from rfl, show (-32768 : Int32).toInt = -32768 from rfl,
    show (32767 : Int32).toInt = 32767 from rfl, show (-128 : Int32).toInt = -128 from rfl,
    show (127 : Int32).toInt = 127 from rfl]

/-- The ladder of `integerOctets` chooses enough octets. -/
theorem integerOctets_range (v : Int32) :
    v.toUInt32.toNat < 2 ^ (8 * integerOctets v - 1) ∨
      2 ^ 32 - 2 ^ (8 * integerOctets v - 1) ≤ v.toUInt32.toNat := by
  have hlt := v.toUInt32.toNat_lt
  have hint : v.toInt = if 2 * v.toUInt32.toNat < 2 ^ 32 then (v.toUInt32.toNat : Int)
      else v.toUInt32.toNat - 2 ^ 32 := BitVec.toInt_eq_toNat_cond v.toBitVec
  rw [integerOctets_eq]
  -- one case for each rung of the ladder and each sign
  split_ifs at hint ⊢ <;> omega

theorem length_integerContent (v : Int32) : (integerContent v).length = integerOctets v := by
  rw [integerContent, Lib.Ber.length_octets]

/-- **Integers survive.** The sign of the first octet is the sign of the integer. -/
theorem integerValue_integerContent (v : Int32) : integerValue (integerContent v) = v := by
  have hb := integerOctets_bounds v
  have hfold := Lib.Ber.foldOctets_sign v.toUInt32 hb.1 hb.2 (integerOctets_range v)
  rw [integerValue, integerContent, hfold, Int32.toInt32_toUInt32]

theorem eval_readInteger (hsize : size ≤ maxPacketSize) {v : Int32}
    (h : Stands mem size pos (integerBytes v)) :
    (readInteger size pos).eval mem = .ok (v, pos + (integerBytes v).length) := by
  have hlen : 1 ≤ (integerContent v).length := by
    rw [integerContent, Lib.Ber.length_octets]
    exact (integerOctets_bounds v).1
  obtain ⟨q, heval, hcontent, hend⟩ := eval_readHeader hsize (by decide) h
  rw [readInteger, Scan.eval_bind_of_ok mem heval, eval_integer_eq_ok mem hlen, hcontent.slice,
    integerValue_integerContent]
  exact ⟨guardPasses_of_fits hsize hcontent.2, congrArg (Prod.mk v) hend.symm⟩

/-- **Strings survive** if they are short enough. -/
theorem stringValue_bytes {s : CString} {valueSize : Nat} (h : s.strlen < valueSize) :
    stringValue s.bytes valueSize = s := by
  -- a C string has no NUL that could cut it off
  have hall : s.bytes.takeWhile (· ≠ 0) = s.bytes := by
    rw [List.takeWhile_eq_self_iff]
    intro b hb
    simpa using fun h0 : b = 0 => s.noNul (h0 ▸ hb)
  have htake : s.bytes.take (valueSize - 1) = s.bytes := by
    apply List.take_of_length_le
    unfold CString.strlen at h
    omega
  obtain ⟨bytes, noNul⟩ := s
  simp only [stringValue, CString.ofList] at hall htake ⊢
  simp only [hall, htake]

theorem eval_readCommunity (hsize : size ≤ maxPacketSize) {s : CString}
    (hs : s.strlen < maxStringSize)
    (h : Stands mem size pos (tlv berTypeOctetString s.bytes)) :
    (readCommunity size pos).eval mem =
      .ok (s, pos + (tlv berTypeOctetString s.bytes).length) := by
  obtain ⟨q, heval, hcontent, hend⟩ := eval_readHeader hsize (by decide) h
  rw [readCommunity, Scan.eval_bind_of_ok mem heval, eval_string_eq_ok, hcontent.slice,
    stringValue_bytes hs]
  exact ⟨guardPasses_of_fits hsize hcontent.2, congrArg (Prod.mk s) hend.symm⟩

/-- An element that spans the rest of the packet. -/
theorem eval_readSpan (hsize : size ≤ maxPacketSize) {type : UInt8} {content : List UInt8}
    (htype : type ∈ supportedTypes) (h : Stands mem size pos (tlv type content))
    (hspan : pos + (tlv type content).length = size) :
    ∃ q, (readSpan size pos type).eval mem = .ok q ∧ Stands mem size q content ∧
      q + content.length = size := by
  obtain ⟨q, heval, hcontent, hend⟩ := eval_readHeader hsize htype h
  refine ⟨q, ?_, hcontent, by omega⟩
  rw [readSpan, Scan.eval_bind_of_ok mem heval, eval_require_bind_eq_ok]
  exact ⟨show q + content.length = size by omega, rfl⟩

/-- A complete element that stands in the packet has its header there. -/
theorem CompleteTlv.header {bytes : List UInt8} (htlv : CompleteTlv bytes)
    (h : Stands mem size pos bytes) : ∃ tag length q,
      HeaderAt supportedTypes mem size pos tag length q ∧ q + length = pos + bytes.length := by
  obtain ⟨tag, length, q, hdr, hend⟩ := htlv
  refine ⟨tag, length, pos + q, ?_, by omega⟩
  -- the header is read from the bytes of the element only
  refine hdr.shift (fun i hi => ?_) (by have hb := h.2; omega)
  have hi' : i < bytes.length := by omega
  have hget := Mem.getElem_slice mem pos bytes.length (by simpa using hi')
  simp only [h.slice] at hget
  rw [← hget]
  simp [Mem.ofList, hi']

/-- A variable binding that stands in the packet. -/
theorem eval_readVarbind (hsize : size ≤ maxPacketSize) {value : Value} (hvalue : WireValue value)
    (h : Stands mem size pos (varbindBytes value)) :
    (readVarbind size pos).eval mem =
      .ok ((value.oid, value.data.bytes), pos + (varbindBytes value).length) := by
  obtain ⟨q, hbinding, hcontent, hend⟩ := eval_readHeader hsize (by decide) h
  obtain ⟨hname, hdata⟩ := stands_append.mp hcontent
  obtain ⟨q', hoid, hsubids, hend'⟩ := eval_readHeader hsize (by decide) hname
  rw [← hend'] at hdata
  obtain ⟨tag, length, q'', hdr, hstop⟩ := hvalue.tlv.header hdata
  have hlength := hvalue.oid.contentLength_le
  have hpos : 1 ≤ (oidContent value.oid.subidList).length := by
    rw [oidContent, List.length_cons]
    omega
  -- the OID
  have hdecode := (eval_oid_eq_ok mem
    (r := (value.oid, q' + (oidContent value.oid.subidList).length))
    hpos (by rw [length_oidContent]; omega)).mpr ⟨guardPasses_of_fits hsize hsubids.2,
      by rw [hsubids.slice]; exact hvalue.oid.content,
      by rw [hsubids.slice, hvalue.oid.oidValue_oidContent]⟩
  -- the value
  have hheader := (eval_typeLength_eq_ok mem (h := ⟨tag, length, q''⟩)).mpr hdr
  have hskip := (eval_void_eq_ok mem (r := q'' + length)).mpr
    ⟨guardPasses_of_fits hsize (by have hb := hdata.2; omega), rfl⟩
  rw [List.length_append] at hend
  have htotal : q'' + length = pos + (varbindBytes value).length := by
    rw [varbindBytes, ← hend]
    omega
  rw [readVarbind, Scan.eval_bind_of_ok mem hbinding, Scan.eval_bind_of_ok mem hoid,
    Scan.eval_bind_of_ok mem hdecode, Scan.eval_bind_of_ok mem hheader,
    Scan.eval_bind_of_ok mem hskip, eval_require_bind_eq_ok]
  -- the binding ends with its value, and the value is what was copied
  refine ⟨?_, ?_⟩
  · change q'' + length = q + (_ ++ _ : List UInt8).length
    rw [List.length_append]
    omega
  · rw [Scan.eval_bind_of_ok mem (Scan.eval_bytes mem _ _), ← htotal,
      show q'' + length - (q' + (oidContent value.oid.subidList).length) =
        value.data.bytes.length by omega, hdata.slice]
    rfl

theorem length_varbindBytes_pos (value : Value) : 1 ≤ (varbindBytes value).length := by
  rw [varbindBytes, Lib.Ber.length_tlv]
  omega

/-- Each variable binding takes room. -/
theorem length_le_varbinds (values : List Value) :
    values.length ≤ (values.flatMap varbindBytes).length := by
  induction values with
  | nil => exact le_rfl
  | cons value values ih =>
    have hpos := length_varbindBytes_pos value
    rw [List.flatMap_cons, List.length_append, List.length_cons]
    omega

/-- The variable bindings, up to the end of the packet. -/
theorem eval_readVarbinds (hsize : size ≤ maxPacketSize) (values : List Value)
    (hvalues : ∀ value ∈ values, WireValue value) {room : Nat}
    (hroom : values.length ≤ room) (h : Stands mem size pos (values.flatMap varbindBytes))
    (hspan : pos + (values.flatMap varbindBytes).length = size) :
    (readVarbinds size room pos).eval mem =
      .ok (values.map fun value => (value.oid, value.data.bytes)) := by
  induction values generalizing pos room with
  | nil =>
    obtain rfl : pos = size := by simpa using hspan
    cases room with
    | zero =>
      rw [readVarbinds, eval_require_bind_eq_ok]
      exact ⟨rfl, rfl⟩
    | succ room =>
      rw [readVarbinds, if_pos rfl]
      rfl
  | cons value values ih =>
    obtain ⟨room, rfl⟩ := Nat.exists_eq_add_of_le' (Nat.le_trans (Nat.le_add_left 1 _) hroom)
    rw [List.flatMap_cons] at h hspan
    rw [List.length_append] at hspan
    obtain ⟨hfirst, hrest⟩ := stands_append.mp h
    have hvarbind := eval_readVarbind hsize (hvalues value List.mem_cons_self) hfirst
    have hlater : (readVarbinds size room (pos + (varbindBytes value).length)).eval mem = _ :=
      ih (fun v hv => hvalues v (List.mem_cons_of_mem _ hv)) (by simpa using hroom) hrest (by omega)
    -- a binding that follows takes room, so that the packet is not at its end
    have hpos := length_varbindBytes_pos value
    rw [readVarbinds, if_neg (by omega), Scan.eval_bind_of_ok mem hvarbind]
    rw [Scan.eval_bind_of_ok mem hlater]
    rfl

end

/-! ## The round trip -/

section

variable {request : Request} {response : Response}

/-- The variables of a reply are the ones that were encoded. -/
theorem replyOf_varbinds (request : Request) (response : Response) :
    (replyOf request response).varbinds =
      (valuesToEncode request response).map fun value => (value.oid, value.data.bytes) := by
  unfold replyOf valuesToEncode
  by_cases hstatus : response.errorStatus = snmpStatusOk
  · simp [hstatus]
  · simp only [hstatus, ite_false, ne_eq, not_false_eq_true, ite_true, List.map_map]
    rfl

/-- A packet that starts with the encoding is read as the reply. -/
theorem eval_readResponse (hreq : WireRequest request) (hresp : WireResponse response)
    {mem : Mem} (hfit : (responseBytes request response).length ≤ maxPacketSize)
    (hmem : mem.HoldsAt 0 (responseBytes request response)) :
    (readResponse (responseBytes request response).length).eval mem =
      .ok (replyOf request response) := by
  set size := (responseBytes request response).length with hsize
  have hstands : Stands mem size 0 (responseBytes request response) := ⟨hmem, by omega⟩
  -- the message
  obtain ⟨p, hmessage, hcontent, hend⟩ :=
    eval_readSpan hfit (by decide) hstands (by rw [hsize]; exact Nat.zero_add _)
  rw [List.length_append, List.length_append] at hend
  obtain ⟨hversion, hcontent⟩ := stands_append.mp hcontent
  obtain ⟨hcommunity, hpdu⟩ := stands_append.mp hcontent
  -- the PDU
  obtain ⟨q, hresponse, hcontent, hend'⟩ :=
    eval_readSpan hfit (by decide) hpdu (by unfold pduBytes at hend; omega)
  rw [List.length_append, List.length_append, List.length_append] at hend'
  obtain ⟨hid, hcontent⟩ := stands_append.mp hcontent
  obtain ⟨hstatus, hcontent⟩ := stands_append.mp hcontent
  obtain ⟨hindex, hvarbinds⟩ := stands_append.mp hcontent
  -- the variable bindings
  obtain ⟨r, hlist, hcontent, hend''⟩ :=
    eval_readSpan hfit (by decide) hvarbinds (by unfold varbindsBytes at hend'; omega)
  have hroom : (valuesToEncode request response).length ≤ size := by
    have hle := length_le_varbinds (valuesToEncode request response)
    omega
  have hvalues := eval_readVarbinds hfit (valuesToEncode request response)
    (fun _ h => wireValue_of_mem hreq hresp h) hroom hcontent hend''
  -- put the elements together
  rw [readResponse, Scan.eval_bind_of_ok mem hmessage,
    Scan.eval_bind_of_ok mem (eval_readInteger hfit hversion),
    Scan.eval_bind_of_ok mem (eval_readCommunity hfit hreq.community.2 hcommunity),
    Scan.eval_bind_of_ok mem hresponse, Scan.eval_bind_of_ok mem (eval_readInteger hfit hid),
    Scan.eval_bind_of_ok mem (eval_readInteger hfit hstatus),
    Scan.eval_bind_of_ok mem (eval_readInteger hfit hindex), Scan.eval_bind_of_ok mem hlist,
    Scan.eval_bind_of_ok mem hvalues, ← replyOf_varbinds]
  rfl

/-- **Response round trip.** The encoder returns 0 exactly when the encoding fits into the
    packet. Then the packet has the length of the encoding, and whoever receives these bytes
    reads the response from them. -/
theorem encodeSnmpResponse_roundTrip (request : Request) (response : Response) (client : Client)
    (hreq : WireRequest request) (hresp : WireResponse response) :
    ((encodeSnmpResponse request response client).1 = .ok () ↔
        (responseBytes request response).length ≤ maxPacketSize) ∧
      ((encodeSnmpResponse request response client).1 = .ok () →
        let client' := (encodeSnmpResponse request response client).2
        client'.size = (responseBytes request response).length ∧
          ∀ received : Mem, Mem.AgreeBelow client'.size client'.packet received →
            (readResponse client'.size).eval received = .ok (replyOf request response)) := by
  have hin := encoderInput hreq hresp
  have hcontent := responseContent_eq hreq hresp
  have hok := encodeSnmpResponse_ok_iff hin client
  rw [hcontent, List.length_map] at hok
  refine ⟨hok, fun hrv => ?_⟩
  have hfit := hok.mp hrv
  obtain ⟨packet, hrun, hbytes⟩ := encodeSnmpResponse_of_fits hin
    (by rw [hcontent, List.length_map]; exact hfit) client
  -- an encoding without gaps: every byte of the packet was written
  rw [hrun]
  simp only [hcontent, List.length_map, List.getElem_map, Option.getD_some] at hbytes ⊢
  refine ⟨trivial, fun received hag => eval_readResponse hreq hresp hfit ?_⟩
  -- the packet received starts with the encoding
  apply List.ext_getElem (by simp)
  intro k hk hk'
  rw [Mem.getElem_slice, Nat.zero_add, ← hag k hk', hbytes k hk']

end

/-- A client whose buffer is all zeros. -/
def Client.empty : Client := ⟨0, -1, 0, 0, fun _ => 0, 0, false⟩

/-- The community `p`, and a GETNEXT request for `.1.3` with it. -/
def communityP : CString := ⟨[0x70], by decide⟩

def nextRequest : Request :=
  ⟨communityP, berTypeSnmpGetnext, snmpVersion2c, 7, 0, 0, [⟨[1, 3], 3⟩]⟩

/-- The answer `.1.3.6.200 = 5`. -/
def nextResponse : Response :=
  ⟨snmpStatusOk, 0, [⟨⟨[1, 3, 6, 200], 6⟩, ⟨[0x02, 0x01, 0x05, 0x00], 4, 3⟩⟩]⟩

theorem wireRequest_nextRequest : WireRequest nextRequest where
  version := .inr rfl
  community := ⟨by decide, by decide⟩
  room := by decide
  oids := by
    intro oid h
    obtain rfl : oid = ⟨[1, 3], 3⟩ := by simpa [nextRequest] using h
    exact ⟨by decide, by decide, by decide, by decide, by decide⟩

theorem wireResponse_nextResponse : WireResponse nextResponse where
  room := by decide
  values := by
    intro value h
    obtain rfl : value = ⟨⟨[1, 3, 6, 200], 6⟩, ⟨[0x02, 0x01, 0x05, 0x00], 4, 3⟩⟩ := by
      simpa [nextResponse] using h
    refine ⟨⟨by decide, by decide, by decide, by decide, by decide⟩, by decide, by decide, ?_⟩
    exact ⟨0x02, 1, 2, .short (by decide) (by decide) (by decide), rfl⟩

theorem encodeSnmpResponse_roundTrip_nextResponse :
    let client' := (encodeSnmpResponse nextRequest nextResponse Client.empty).2
    (readResponse client'.size).eval client'.packet = .ok (replyOf nextRequest nextResponse) := by
  obtain ⟨hiff, hread⟩ := encodeSnmpResponse_roundTrip nextRequest nextResponse Client.empty
    wireRequest_nextRequest wireResponse_nextResponse
  exact (hread (hiff.mpr (by decide))).2 _ fun _ _ => rfl

end SdkSnmpd
