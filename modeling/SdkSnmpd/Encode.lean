import SdkSnmpd.Basic
import SdkSnmpd.Lib.Ber
import SdkSnmpd.Lib.Backfill

/-!
# The Response Encoder

The helper functions for encoding of `protocol.c`. The element writers are given by the bytes
they store from `buffer` on; their return values are ignored by every caller. The packet is
filled from its end, each element into a slot whose length is predicted by a function of
its own.

## Contents

- Length predictors and element writers.
- `encodeSnmpVarbind`, `encodeSnmpResponse`: the encoder.
- `responseContent`: what the encoder leaves in the packet, gaps included.
- `encodeSnmpResponse_spec`: it succeeds exactly when that content fits, and then the packet
  starts with it.
-/

namespace SdkSnmpd

open Lib (Mem Fill Frame Content Prepends put frame slot)
open Lib.Ber (octets groups lengthOctets)

/-! ## Length predictors -/

/-- The ladder over the magnitude of an integer. -/
def integerOctets (integerValue : Int32) : Nat :=
  if integerValue < -8388608 ∨ integerValue > 8388607 then 4
  else if integerValue < -32768 ∨ integerValue > 32767 then 3
  else if integerValue < -128 ∨ integerValue > 127 then 2
  else 1

def getIntegerLength (integerValue : Int32) : Int :=
  if integerValue < -8388608 ∨ integerValue > 8388607 then 6
  else if integerValue < -32768 ∨ integerValue > 32767 then 5
  else if integerValue < -128 ∨ integerValue > 127 then 4
  else 3

def getStringLength (stringValue : CString) : Int :=
  let length := stringValue.strlen
  if length > 0xFFFF then maxPacketSize
  else if length > 0xFF then length + 4
  else if length > 0x7F then length + 3
  else length + 2

def getSequenceHeaderLength (length : Int) : Int :=
  if length > 0xFFFF then maxPacketSize
  else if length > 0xFF then 4
  else if length > 0x7F then 3
  else 2

/-- The number of base-128 groups of a subid. -/
def subidLength (subid : UInt32) : Nat :=
  if subid ≥ (1 : UInt32) <<< 28 then 5
  else if subid ≥ (1 : UInt32) <<< 21 then 4
  else if subid ≥ (1 : UInt32) <<< 14 then 3
  else if subid ≥ (1 : UInt32) <<< 7 then 2
  else 1

/-! ## Element writers -/

/-- The length octets that every writer but the one for integers stores. -/
def encodeLength (length : Int) : List UInt8 :=
  if length > 0xFF then [0x82, UInt8.ofInt (length >>> (8 : Nat)), UInt8.ofInt length]
  else if length > 0x7F then [0x81, UInt8.ofInt length]
  else [UInt8.ofInt length &&& 0x7F]

def encodeSnmpInteger (integerValue : Int32) : List UInt8 :=
  let length := integerOctets integerValue
  [berTypeInteger, UInt8.ofNat length] ++ octets integerValue.toUInt32 length

def encodeSnmpString (stringValue : CString) : List UInt8 :=
  let length := stringValue.strlen
  if length > 0xFFFF then []
  else [berTypeOctetString] ++ encodeLength length ++ stringValue.bytes

def encodeSnmpSequenceHeader (length : Int) (type : UInt8) : List UInt8 :=
  if length > 0xFFFF then [] else [type] ++ encodeLength length

/-- The content length that the OID writer computes. -/
def oidContentLength (subidList : List UInt32) : Nat :=
  1 + ((subidList.drop 2).map subidLength).sum

/-- The loop over the subids after the first two. -/
def encodeSubids (subids : List UInt32) : List UInt8 :=
  subids.flatMap fun subid => groups subid (subidLength subid)

/-- The content octets of an OID: the first two subids share one octet. -/
def oidContent (subidList : List UInt32) : List UInt8 :=
  (subidList.getD 0 0 * 40 + subidList.getD 1 0).toUInt8 :: encodeSubids (subidList.drop 2)

def encodeSnmpOid (oid : Oid) : List UInt8 :=
  let length := oidContentLength oid.subidList
  if length > 0xFFFF then [berTypeOid]
  else [berTypeOid] ++ encodeLength length ++ oidContent oid.subidList

/-! ## The encoder -/

/-- A failure that leaves `errno` alone. -/
def overflow (message : String) : Failure := ⟨none, message⟩

def encodeSnmpVarbind (value : Value) : Fill Failure Unit := do
  -- the value of the variable binding (NULL for error responses)
  put (overflow "could not encode '%s': DATA overflow") value.data.encodedLength
    (value.data.buffer.take value.data.encodedLength.toNat)
  -- the OID of the variable binding
  put (overflow "could not encode '%s': OID overflow") value.oid.encodedLength
    (encodeSnmpOid value.oid)
  -- the sequence header of the variable binding
  let length := value.oid.encodedLength + value.data.encodedLength
  put (overflow "could not encode '%s': VARBIND overflow") (getSequenceHeaderLength length)
    (encodeSnmpSequenceHeader length berTypeSequence)

/-- The loop over the value list, from the last value to the first. -/
def encodeVarbinds : List Value → Fill Failure Unit
  | [] => pure ()
  | value :: values => do
      encodeVarbinds values
      encodeSnmpVarbind value

/-- A header in front of everything that is encoded already. -/
def encodeHeader (type : UInt8) (message : String) : Fill Failure Unit := do
  let f ← get
  let length := maxPacketSize - f.pos
  put (overflow message) (getSequenceHeaderLength length) (encodeSnmpSequenceHeader length type)

def encodeInteger (integerValue : Int32) (message : String) : Fill Failure Unit :=
  put (overflow message) (getIntegerLength integerValue) (encodeSnmpInteger integerValue)

/-- The elements of the message, from the last one to the first. -/
def encodeMessage (request : Request) (response : Response) (valueList : List Value) :
    Fill Failure Unit := do
  encodeVarbinds valueList
  encodeHeader berTypeSequence "could not encode response: VARBINDS overflow"
  encodeInteger response.errorIndex "could not encode response: ERROR INDEX overflow"
  encodeInteger response.errorStatus "could not encode response: ERROR STATUS overflow"
  encodeInteger request.id "could not encode response: ID overflow"
  encodeHeader berTypeSnmpResponse "could not encode response: PDU overflow"
  put (overflow "could not encode response: COMMUNITY overflow")
    (getStringLength request.community) (encodeSnmpString request.community)
  encodeInteger request.version "could not encode response: VERSION overflow"
  encodeHeader berTypeSequence "could not encode response: RESPONSE overflow"

/-- `m_null`, `m_no_such_object`, `m_no_such_instance` and `m_end_of_mib_view`: an element
    without content. -/
def emptyData (type : UInt8) : Data := ⟨[type, 0x00], 2, 2⟩

def mNull : Data := emptyData berTypeNull
def mNoSuchObject : Data := emptyData berTypeNoSuchObject
def mNoSuchInstance : Data := emptyData berTypeNoSuchInstance
def mEndOfMibView : Data := emptyData berTypeEndOfMibView

/-- If there was an error, the original varbind list is encoded, but the values are
    replaced with NULL. -/
def valuesToEncode (request : Request) (response : Response) : List Value :=
  if response.errorStatus ≠ snmpStatusOk then request.oidList.map fun oid => ⟨oid, mNull⟩
  else response.valueList

/-- Move a packet of `size` bytes to the start of the buffer. -/
def moveToStart (f : Frame) (size : Nat) : Mem :=
  if f.pos > 0 then f.mem.write 0 (f.mem.slice f.pos.toNat size) else f.mem

/-- Returns 0 (`ok`) or -1, and the client with what was written into its packet. -/
def encodeSnmpResponse (request : Request) (response : Response) (client : Client) :
    Except Failure Unit × Client :=
  if response.errorStatus ≠ snmpStatusOk ∧ request.oidList.length > maxNrValues then
    (.error (overflow "could not encode SNMP response: value list overflow"), client)
  else
    match encodeMessage request response (valuesToEncode request response)
        ⟨client.packet, maxPacketSize⟩ with
    | .error e f => (.error e, { client with packet := f.mem })
    | .ok _ f =>
        let size := (maxPacketSize - f.pos).toNat
        (.ok (), { client with packet := moveToStart f size, size })

/-! ## What the encoder writes -/

/-- A complete element around content that may have gaps. -/
def element (type : UInt8) (c : Content) : Content :=
  (type :: lengthOctets c.length).map some ++ c

/-- The content octets of an integer. -/
def integerContent (integerValue : Int32) : List UInt8 :=
  octets integerValue.toUInt32 (integerOctets integerValue)

/-- A variable binding: the OID stands at the start of a slot of its recorded length. -/
def varbindContent (value : Value) : Content :=
  element berTypeSequence (slot value.oid.encodedLength.toNat (encodeSnmpOid value.oid) ++
    (value.data.buffer.take value.data.encodedLength.toNat).map some)

def integerElement (integerValue : Int32) : Content :=
  element berTypeInteger ((integerContent integerValue).map some)

/-- The PDU: request ID, error state, error index, variable bindings. -/
def pduContent (request : Request) (response : Response) : Content :=
  integerElement request.id ++ (integerElement response.errorStatus ++
    (integerElement response.errorIndex ++
      element berTypeSequence ((valuesToEncode request response).flatMap varbindContent)))

/-- The whole message. -/
def responseContent (request : Request) (response : Response) : Content :=
  element berTypeSequence (integerElement request.version ++
    (element berTypeOctetString (request.community.bytes.map some) ++
      element berTypeSnmpResponse (pduContent request response)))

/-- A value that the encoder can place: what it writes for the OID fits into the slot, and
    the data buffer holds the element. -/
structure Encodable (value : Value) : Prop where
  oid : (encodeSnmpOid value.oid).length ≤ value.oid.encodedLength
  data : 0 ≤ value.data.encodedLength
  buffer : value.data.encodedLength ≤ value.data.buffer.length

/-! ## Predicted and written lengths -/

theorem ofInt_natCast (n : Nat) : UInt8.ofInt (n : Int) = UInt8.ofNat n := by
  rw [← UInt8.toNat_inj, UInt8.ofInt, UInt8.toNat_ofNat', UInt8.toNat_ofNat']
  omega

/-- The writers store the shortest length octets. -/
theorem encodeLength_natCast (n : Nat) : encodeLength n = lengthOctets n := by
  have hshift : (n : Int) >>> (8 : Nat) = ((n / 256 : Nat) : Int) := by
    rw [Int.shiftRight_eq_div_pow]
    rfl
  unfold encodeLength lengthOctets
  by_cases hbig : n > 0xFF
  · rw [if_pos (by omega), if_pos hbig, hshift, ofInt_natCast, ofInt_natCast]
  rw [if_neg (by omega), if_neg hbig]
  by_cases hmid : n > 0x7F
  · rw [if_pos (by omega), if_pos hmid, ofInt_natCast]
  rw [if_neg (by omega), if_neg hmid, ofInt_natCast]
  -- below 128 the mask changes nothing
  rw [List.cons.injEq, ← UInt8.toNat_inj, Lib.Ber.toNat_and_low, UInt8.toNat_ofNat']
  exact ⟨by omega, rfl⟩

theorem encodeSnmpSequenceHeader_natCast {n : Nat} (h : n ≤ 0xFFFF) (type : UInt8) :
    encodeSnmpSequenceHeader n type = type :: lengthOctets n := by
  unfold encodeSnmpSequenceHeader
  rw [if_neg (by omega), encodeLength_natCast]
  rfl

theorem getSequenceHeaderLength_natCast {n : Nat} (h : n ≤ 0xFFFF) (type : UInt8) :
    getSequenceHeaderLength n = (encodeSnmpSequenceHeader n type).length := by
  rw [encodeSnmpSequenceHeader_natCast h, List.length_cons, Lib.Ber.length_lengthOctets]
  unfold getSequenceHeaderLength
  rw [if_neg (by omega)]
  split_ifs <;> omega

theorem integerOctets_bounds (v : Int32) : 1 ≤ integerOctets v ∧ integerOctets v ≤ 4 := by
  unfold integerOctets
  split_ifs <;> omega

theorem getIntegerLength_eq (v : Int32) : getIntegerLength v = (encodeSnmpInteger v).length := by
  unfold getIntegerLength encodeSnmpInteger integerOctets
  split_ifs <;> rfl

theorem encodeSnmpInteger_eq (v : Int32) :
    encodeSnmpInteger v = berTypeInteger :: lengthOctets (integerContent v).length ++
      integerContent v := by
  have hb := integerOctets_bounds v
  have hlen : lengthOctets (integerContent v).length = [UInt8.ofNat (integerOctets v)] := by
    rw [integerContent, Lib.Ber.length_octets, lengthOctets, if_neg (by omega), if_neg (by omega)]
  rw [hlen]
  rfl

theorem encodeSnmpString_eq {s : CString} (h : s.strlen ≤ 0xFFFF) :
    encodeSnmpString s = berTypeOctetString :: lengthOctets s.bytes.length ++ s.bytes := by
  unfold encodeSnmpString
  rw [if_neg (by omega), encodeLength_natCast]
  rfl

theorem getStringLength_eq {s : CString} (h : s.strlen ≤ 0xFFFF) :
    getStringLength s = (encodeSnmpString s).length := by
  rw [encodeSnmpString_eq h, List.length_append, List.length_cons, Lib.Ber.length_lengthOctets]
  unfold getStringLength CString.strlen at *
  rw [if_neg (by omega)]
  split_ifs <;> omega

/-! ## Steps of the encoder -/

section

variable {c : Content}

/-- A header around everything that is there. -/
theorem prepends_header (type : UInt8) (message : String) (h : c.length ≤ maxPacketSize) :
    Prepends maxPacketSize (encodeHeader type message) c (element type c) := by
  have hle : c.length ≤ 0xFFFF := by
    unfold maxPacketSize at h
    omega
  have hlen : (maxPacketSize : Int) - (maxPacketSize - c.length) = c.length := by omega
  unfold encodeHeader
  apply Prepends.get (p := fun pos => put (overflow message)
    (getSequenceHeaderLength (maxPacketSize - pos))
    (encodeSnmpSequenceHeader (maxPacketSize - pos) type))
  rw [hlen, element, ← encodeSnmpSequenceHeader_natCast hle]
  exact Lib.prepends_put_exact _ (getSequenceHeaderLength_natCast hle type)

theorem prepends_integer (v : Int32) (message : String) :
    Prepends maxPacketSize (encodeInteger v message) c (integerElement v ++ c) := by
  have hcontent : integerElement v = (encodeSnmpInteger v).map some := by
    rw [encodeSnmpInteger_eq, integerElement, element, List.length_map, ← List.map_append]
  rw [hcontent]
  exact Lib.prepends_put_exact _ (getIntegerLength_eq v)

theorem prepends_string {s : CString} (h : s.strlen ≤ 0xFFFF) (e : Failure) :
    Prepends maxPacketSize (put e (getStringLength s) (encodeSnmpString s)) c
      (element berTypeOctetString (s.bytes.map some) ++ c) := by
  have hcontent : element berTypeOctetString (s.bytes.map some) =
      (encodeSnmpString s).map some := by
    rw [encodeSnmpString_eq h, element, List.length_map, ← List.map_append]
  rw [hcontent]
  exact Lib.prepends_put_exact _ (getStringLength_eq h)

/-- A variable binding: data, OID, header. -/
theorem prepends_varbind {value : Value} (hv : Encodable value) :
    Prepends maxPacketSize (encodeSnmpVarbind value) c (varbindContent value ++ c) := by
  have hoid : ((value.oid.encodedLength.toNat : Nat) : Int) = value.oid.encodedLength := by
    have hle := hv.oid
    omega
  have hdata : ((value.data.encodedLength.toNat : Nat) : Int) = value.data.encodedLength :=
    Int.toNat_of_nonneg hv.data
  have hbytes : (value.data.buffer.take value.data.encodedLength.toNat).length =
      value.data.encodedLength.toNat := by
    have hle := hv.buffer
    rw [List.length_take]
    omega
  -- the OID may be shorter than its slot
  have hslot : (slot value.oid.encodedLength.toNat (encodeSnmpOid value.oid)).length =
      value.oid.encodedLength.toNat := by
    have hle := hv.oid
    exact Lib.length_slot (by omega)
  have hcontent : varbindContent value ++ c =
      (berTypeSequence :: lengthOctets
          (value.oid.encodedLength.toNat + value.data.encodedLength.toNat)).map some ++
        (slot value.oid.encodedLength.toNat (encodeSnmpOid value.oid) ++
          ((value.data.buffer.take value.data.encodedLength.toNat).map some ++ c)) := by
    simp only [varbindContent, element, List.length_append, List.length_map, hslot, hbytes,
      List.append_assoc]
  -- the length in the header counts the slot, not the OID
  have hreserve : value.oid.encodedLength + value.data.encodedLength =
      ((value.oid.encodedLength.toNat + value.data.encodedLength.toNat : Nat) : Int) := by
    omega
  rw [hcontent]
  unfold encodeSnmpVarbind
  -- data
  apply Prepends.bind (Lib.prepends_put_exact _ (by rw [hbytes, hdata]))
  · intro hfit
    -- OID
    have hput : Prepends maxPacketSize
        (put (overflow "could not encode '%s': OID overflow") value.oid.encodedLength
          (encodeSnmpOid value.oid))
        ((value.data.buffer.take value.data.encodedLength.toNat).map some ++ c)
        (slot value.oid.encodedLength.toNat (encodeSnmpOid value.oid) ++
          ((value.data.buffer.take value.data.encodedLength.toNat).map some ++ c)) := by
      rw [← hoid]
      apply Lib.prepends_put
      have hle := hv.oid
      omega
    apply Prepends.bind hput
    · intro hfit
      -- header
      simp only [List.length_append, hslot, List.length_map, hbytes, maxPacketSize] at hfit
      have hle : value.oid.encodedLength.toNat + value.data.encodedLength.toNat ≤ 0xFFFF := by
        omega
      rw [hreserve, ← encodeSnmpSequenceHeader_natCast hle]
      exact Lib.prepends_put_exact _ (getSequenceHeaderLength_natCast hle _)
    · simp only [List.length_append]
      omega
  · simp only [List.length_append]
    omega

/-- The loop over the values. -/
theorem prepends_varbinds {values : List Value} (h : ∀ value ∈ values, Encodable value) :
    Prepends maxPacketSize (encodeVarbinds values) [] (values.flatMap varbindContent) := by
  induction values with
  | nil => exact Lib.prepends_pure (Nat.zero_le _)
  | cons value values ih =>
    apply Prepends.bind (ih fun v hv => h v (List.mem_cons_of_mem _ hv))
    · intro hfit
      exact prepends_varbind (h value List.mem_cons_self)
    · simp

theorem length_element (type : UInt8) (c : Content) :
    (element type c).length = 1 + (lengthOctets c.length).length + c.length := by
  simp only [element, List.length_append, List.length_map, List.length_cons]
  omega

/-- The whole message. Each step finds the content that the steps before it have built. -/
theorem prepends_message {request : Request} {response : Response}
    (hcommunity : request.community.strlen < maxStringSize)
    (hvalues : ∀ value ∈ valuesToEncode request response, Encodable value) :
    Prepends maxPacketSize (encodeMessage request response (valuesToEncode request response)) []
      (responseContent request response) := by
  have hstring : request.community.strlen ≤ 0xFFFF := by
    unfold maxStringSize at hcommunity
    omega
  unfold encodeMessage responseContent pduContent
  -- the variable bindings, and the PDU in front of them
  refine (prepends_varbinds hvalues).bind (fun hfit => ?_)
    (by simp only [List.length_append, length_element]; omega)
  refine (prepends_header _ _ hfit).bind (fun hfit => ?_)
    (by simp only [List.length_append, length_element]; omega)
  refine (prepends_integer _ _).bind (fun hfit => ?_)
    (by simp only [List.length_append, length_element]; omega)
  refine (prepends_integer _ _).bind (fun hfit => ?_)
    (by simp only [List.length_append, length_element]; omega)
  refine (prepends_integer _ _).bind (fun hfit => ?_)
    (by simp only [List.length_append, length_element]; omega)
  refine (prepends_header _ _ hfit).bind (fun hfit => ?_)
    (by simp only [List.length_append, length_element]; omega)
  -- the message around it
  refine (prepends_string hstring _).bind (fun hfit => ?_)
    (by simp only [List.length_append, length_element]; omega)
  refine (prepends_integer _ _).bind (fun hfit => ?_)
    (by simp only [List.length_append, length_element]; omega)
  exact prepends_header _ _ hfit

end

/-! ## The encoder as a whole -/

/-- What the callers of the encoder guarantee. -/
structure EncoderInput (request : Request) (response : Response) : Prop where
  community : request.community.strlen < maxStringSize
  room : request.oidList.length ≤ maxNrValues
  values : ∀ value ∈ valuesToEncode request response, Encodable value

section

variable {request : Request} {response : Response}

/-- A response that fits is encoded, and the packet starts with it. A gap shows what the
    buffer held where the encoder left it. -/
theorem encodeSnmpResponse_of_fits (hin : EncoderInput request response)
    (hfit : (responseContent request response).length ≤ maxPacketSize) (client : Client) :
    ∃ packet : Mem, encodeSnmpResponse request response client =
        (.ok (), { client with packet, size := (responseContent request response).length }) ∧
      ∀ k (h : k < (responseContent request response).length),
        packet k = (responseContent request response)[k].getD
          (client.packet (maxPacketSize - (responseContent request response).length + k)) := by
  set c := responseContent request response with hc
  -- the run of the encoder as a whole, from the end of the buffer
  have hrun := (prepends_message hin.community hin.values).fits hfit client.packet
  rw [Lib.frame_nil] at hrun
  have hpos : (frame maxPacketSize client.packet c).pos =
      ((maxPacketSize - c.length : Nat) : Int) := by
    rw [Lib.frame_pos]
    omega
  have hsize : ((maxPacketSize : Int) - (frame maxPacketSize client.packet c).pos).toNat =
      c.length := by
    rw [Lib.frame_pos]
    omega
  have hroom := hin.room
  unfold encodeSnmpResponse
  rw [if_neg (by omega), hrun]
  refine ⟨moveToStart (frame maxPacketSize client.packet c) c.length, ?_, fun k hk => ?_⟩
  · rw [← hsize]
  -- byte `k` of the packet is what stood `k` bytes behind the final position
  rw [← Lib.frame_mem hk, moveToStart]
  by_cases hmove : (frame maxPacketSize client.packet c).pos > 0
  · rw [if_pos hmove, hpos]
    exact Mem.write_slice_zero _ _ hk
  · -- the packet fills the buffer, and stays where it is
    rw [if_neg hmove, show maxPacketSize - c.length = 0 by omega, Nat.zero_add]

/-- A response that does not fit is given up, with a packet that is written in part. -/
theorem encodeSnmpResponse_of_overflow (hin : EncoderInput request response)
    (hover : maxPacketSize < (responseContent request response).length) :
    ∃ (e : Failure) (cut : Content), ∀ client : Client,
      encodeSnmpResponse request response client =
        (.error e, { client with
          packet := client.packet.patch (maxPacketSize - cut.length) cut }) := by
  obtain ⟨e, cut, hrun⟩ := (prepends_message hin.community hin.values).overflows hover
  refine ⟨e, cut, fun client => ?_⟩
  have hclient := hrun client.packet
  have hroom := hin.room
  rw [Lib.frame_nil] at hclient
  unfold encodeSnmpResponse
  rw [if_neg (by omega), hclient]
  rfl

/-- The encoder returns 0 exactly when the response fits into the packet. -/
theorem encodeSnmpResponse_ok_iff (hin : EncoderInput request response) (client : Client) :
    (encodeSnmpResponse request response client).1 = .ok () ↔
      (responseContent request response).length ≤ maxPacketSize := by
  constructor
  · intro hok
    by_contra hover
    obtain ⟨e, cut, hrun⟩ := encodeSnmpResponse_of_overflow hin (Nat.not_le.mp hover)
    rw [hrun client] at hok
    cases hok
  · intro hfit
    obtain ⟨packet, hrun, -⟩ := encodeSnmpResponse_of_fits hin hfit client
    rw [hrun]

end

/-! ## The reply as others see it -/

/-- A message of the type RESPONSE with an error state, an error index and bindings. -/
def replyContent (request : Request) (errorStatus errorIndex : Int32) (bindings : List Value) :
    Content :=
  element berTypeSequence (integerElement request.version ++
    (element berTypeOctetString (request.community.bytes.map some) ++
      element berTypeSnmpResponse (integerElement request.id ++ (integerElement errorStatus ++
        (integerElement errorIndex ++
          element berTypeSequence (bindings.flatMap varbindContent))))))

theorem responseContent_eq_reply (request : Request) (response : Response) :
    responseContent request response =
      replyContent request response.errorStatus response.errorIndex
        (valuesToEncode request response) := rfl

/-- The packet of the client is the content, whatever stands in its gaps. -/
structure Client.Carries (client : Client) (content : Content) : Prop where
  size : client.size = content.length
  bytes : ∀ k b, content[k]? = some (some b) → client.packet k = b

/-- A response that is encoded is carried by the packet. -/
theorem encodeSnmpResponse_carries {request : Request} {response : Response}
    (hin : EncoderInput request response) (client : Client)
    (hok : (encodeSnmpResponse request response client).1 = .ok ()) :
    (encodeSnmpResponse request response client).2.Carries (responseContent request response) := by
  rw [encodeSnmpResponse_ok_iff hin] at hok
  obtain ⟨packet, hrun, hbytes⟩ := encodeSnmpResponse_of_fits hin hok client
  rw [hrun]
  refine ⟨rfl, fun k b hk => ?_⟩
  obtain ⟨hlt, hbyte⟩ := List.getElem?_eq_some_iff.mp hk
  change packet k = b
  rw [hbytes k hlt, hbyte]
  rfl

/-- The encoder leaves the socket of the client alone. -/
theorem encodeSnmpResponse_sockfd (request : Request) (response : Response) (client : Client) :
    (encodeSnmpResponse request response client).2.sockfd = client.sockfd := by
  unfold encodeSnmpResponse
  split
  · rfl
  · split
    · rfl
    · rfl

end SdkSnmpd
