import SdkSnmpd.Lib.Slots
import SdkSnmpd.MibBuild
import SdkSnmpd.Access

/-!
# What the Encoder Writes, and Where

The element writers check no bounds: they rely on the length that was predicted for the element
and reserved. This module lists the elements of a response with their reserved lengths, in the
order in which they are written.

## Contents

- `messageSlots`: the elements; `fills_message`: they are what `encodeMessage` puts.
- `fits_messageSlots`: no writer writes more than what is reserved for its element.
- `encodeSnmpResponse_staysInside`: the response to an accepted request is written inside the
  packet, and no element over another.
-/

namespace SdkSnmpd

open Lib (Mem Fill Frame Slot Fills fill reserved writes put finalState)

/-! ## The elements -/

/-- The elements of a variable binding, from the last one to the first. -/
def varbindSlots (value : Value) : List (Slot Failure) :=
  let length := value.oid.encodedLength + value.data.encodedLength
  [⟨overflow "could not encode '%s': DATA overflow", value.data.encodedLength,
      value.data.buffer.take value.data.encodedLength.toNat⟩,
    ⟨overflow "could not encode '%s': OID overflow", value.oid.encodedLength,
      encodeSnmpOid value.oid⟩,
    ⟨overflow "could not encode '%s': VARBIND overflow", getSequenceHeaderLength length,
      encodeSnmpSequenceHeader length berTypeSequence⟩]

/-- The elements of the variable bindings, from the last value to the first. -/
def varbindsSlots : List Value → List (Slot Failure)
  | [] => []
  | value :: values => varbindsSlots values ++ varbindSlots value

/-- A header around the elements in `slots`. -/
def headerSlot (type : UInt8) (message : String) (slots : List (Slot Failure)) : Slot Failure :=
  ⟨overflow message, getSequenceHeaderLength (reserved slots),
    encodeSnmpSequenceHeader (reserved slots) type⟩

def integerSlot (integerValue : Int32) (message : String) : Slot Failure :=
  ⟨overflow message, getIntegerLength integerValue, encodeSnmpInteger integerValue⟩

def stringSlot (stringValue : CString) (message : String) : Slot Failure :=
  ⟨overflow message, getStringLength stringValue, encodeSnmpString stringValue⟩

/-- The variable bindings with their header. -/
def bindingSlots (valueList : List Value) : List (Slot Failure) :=
  varbindsSlots valueList ++
    [headerSlot berTypeSequence "could not encode response: VARBINDS overflow"
      (varbindsSlots valueList)]

/-- The elements of the PDU. -/
def pduSlots (request : Request) (response : Response) (valueList : List Value) :
    List (Slot Failure) :=
  bindingSlots valueList ++
    [integerSlot response.errorIndex "could not encode response: ERROR INDEX overflow",
      integerSlot response.errorStatus "could not encode response: ERROR STATUS overflow",
      integerSlot request.id "could not encode response: ID overflow"]

/-- The elements of the message without its header. -/
def bodySlots (request : Request) (response : Response) (valueList : List Value) :
    List (Slot Failure) :=
  pduSlots request response valueList ++
    [headerSlot berTypeSnmpResponse "could not encode response: PDU overflow"
        (pduSlots request response valueList),
      stringSlot request.community "could not encode response: COMMUNITY overflow",
      integerSlot request.version "could not encode response: VERSION overflow"]

/-- All elements of the message. -/
def messageSlots (request : Request) (response : Response) (valueList : List Value) :
    List (Slot Failure) :=
  bodySlots request response valueList ++
    [headerSlot berTypeSequence "could not encode response: RESPONSE overflow"
      (bodySlots request response valueList)]

/-! ## The elements are what the encoder puts -/

section

variable {before : List (Slot Failure)}

theorem fills_varbind (value : Value) :
    Fills maxPacketSize before (encodeSnmpVarbind value) (varbindSlots value) := by
  apply (Lib.fills_put _ _ _).bind
  apply (Lib.fills_put _ _ _).bind
  exact Lib.fills_put _ _ _

theorem fills_varbinds (values : List Value) :
    Fills maxPacketSize before (encodeVarbinds values) (varbindsSlots values) := by
  induction values with
  | nil => exact Lib.fills_pure
  | cons value values ih => exact ih.bind (fills_varbind value)

theorem fills_header (type : UInt8) (message : String) :
    Fills maxPacketSize before (encodeHeader type message) [headerSlot type message before] := by
  have hlen : (maxPacketSize : Int) - (maxPacketSize - reserved before) = reserved before := by
    omega
  unfold encodeHeader
  apply Lib.Fills.get (p := fun pos => put (overflow message)
    (getSequenceHeaderLength (maxPacketSize - pos))
    (encodeSnmpSequenceHeader (maxPacketSize - pos) type))
  rw [hlen]
  exact Lib.fills_put _ _ _

theorem fills_integer (v : Int32) (message : String) :
    Fills maxPacketSize before (encodeInteger v message) [integerSlot v message] :=
  Lib.fills_put _ _ _

end

/-- **The encoder puts the elements**, one in front of the other. -/
theorem fills_message (request : Request) (response : Response) (valueList : List Value) :
    Fills maxPacketSize [] (encodeMessage request response valueList)
      (messageSlots request response valueList) := by
  have hmessage : messageSlots request response valueList =
      varbindsSlots valueList ++
        ([headerSlot berTypeSequence "could not encode response: VARBINDS overflow"
            (varbindsSlots valueList)] ++
          ([integerSlot response.errorIndex "could not encode response: ERROR INDEX overflow"] ++
            ([integerSlot response.errorStatus "could not encode response: ERROR STATUS overflow"] ++
              ([integerSlot request.id "could not encode response: ID overflow"] ++
                ([headerSlot berTypeSnmpResponse "could not encode response: PDU overflow"
                    (pduSlots request response valueList)] ++
                  ([stringSlot request.community
                      "could not encode response: COMMUNITY overflow"] ++
                    ([integerSlot request.version "could not encode response: VERSION overflow"] ++
                      [headerSlot berTypeSequence "could not encode response: RESPONSE overflow"
                        (bodySlots request response valueList)]))))))) := by
    simp only [messageSlots, bodySlots, pduSlots, bindingSlots, List.append_assoc,
      List.cons_append, List.nil_append]
  rw [hmessage, encodeMessage]
  apply (fills_varbinds valueList).bind
  apply (fills_header _ _).bind
  apply (fills_integer _ _).bind
  apply (fills_integer _ _).bind
  apply (fills_integer _ _).bind
  -- the header of the PDU sees the elements of the PDU
  apply Fills.bind
  · simp only [pduSlots, bindingSlots, List.nil_append, List.append_assoc, List.cons_append]
    exact fills_header _ _
  apply (Lib.fills_put _ _ _).bind
  apply (fills_integer _ _).bind
  simp only [bodySlots, pduSlots, bindingSlots, List.nil_append, List.append_assoc,
    List.cons_append]
  exact fills_header _ _

/-! ## The elements fit -/

/-- A header takes no more than its predicted length, whatever the length of the content. -/
theorem length_encodeSnmpSequenceHeader_le (length : Int) (type : UInt8) :
    ((encodeSnmpSequenceHeader length type).length : Int) ≤ getSequenceHeaderLength length := by
  unfold encodeSnmpSequenceHeader getSequenceHeaderLength encodeLength
  split_ifs <;> simp [maxPacketSize]

theorem length_encodeSnmpString_le (s : CString) :
    ((encodeSnmpString s).length : Int) ≤ getStringLength s := by
  by_cases h : s.strlen ≤ 0xFFFF
  · exact (getStringLength_eq h).ge
  · -- nothing is written then
    have hlong : s.strlen > 0xFFFF := by omega
    simp only [encodeSnmpString, getStringLength]
    rw [if_pos (by omega), if_pos (by omega)]
    simp

theorem fits_header (type : UInt8) (message : String) (slots : List (Slot Failure)) :
    (headerSlot type message slots).Fits := length_encodeSnmpSequenceHeader_le _ type

theorem fits_integer (v : Int32) (message : String) : (integerSlot v message).Fits :=
  (getIntegerLength_eq v).ge

theorem fits_varbindSlots {value : Value} (hv : Encodable value) :
    ∀ slot ∈ varbindSlots value, slot.Fits := by
  have hdata : ((value.data.buffer.take value.data.encodedLength.toNat).length : Int) ≤
      value.data.encodedLength := by
    have hnonneg := hv.data
    rw [List.length_take]
    omega
  simp only [varbindSlots, List.forall_mem_cons]
  exact ⟨hdata, hv.oid, length_encodeSnmpSequenceHeader_le _ _, fun _ h => absurd h List.not_mem_nil⟩

theorem fits_varbindsSlots {values : List Value} (h : ∀ value ∈ values, Encodable value) :
    ∀ slot ∈ varbindsSlots values, slot.Fits := by
  induction values with
  | nil => exact fun _ hslot => absurd hslot List.not_mem_nil
  | cons value values ih =>
    obtain ⟨hvalue, hvalues⟩ := List.forall_mem_cons.mp h
    rw [varbindsSlots, List.forall_mem_append]
    exact ⟨ih hvalues, fits_varbindSlots hvalue⟩

/-- **No writer writes more than is reserved for it**, if the OIDs fit into their slots. -/
theorem fits_messageSlots {request : Request} {response : Response} {valueList : List Value}
    (h : ∀ value ∈ valueList, Encodable value) :
    ∀ slot ∈ messageSlots request response valueList, slot.Fits := by
  simp only [messageSlots, bodySlots, pduSlots, bindingSlots, List.forall_mem_append,
    List.forall_mem_cons, fits_header, fits_integer, true_and]
  exact ⟨⟨⟨⟨fits_varbindsSlots h, fun _ hslot => absurd hslot List.not_mem_nil⟩,
      fun _ hslot => absurd hslot List.not_mem_nil⟩,
    length_encodeSnmpString_le _, fun _ hslot => absurd hslot List.not_mem_nil⟩,
    fun _ hslot => absurd hslot List.not_mem_nil⟩

/-! ## Responses -/

/-- The elements of the response that the encoder is given. -/
def responseSlots (request : Request) (response : Response) : List (Slot Failure) :=
  messageSlots request response (valuesToEncode request response)

/-- The writes of the element writers. -/
def elementWrites (request : Request) (response : Response) : List Lib.Write :=
  writes maxPacketSize (responseSlots request response)

/-- The encoder writes to the packet only, and each element to the place reserved for it. -/
structure EncodesInside (request : Request) (response : Response) (client : Client) : Prop where
  /-- No writer writes more than is reserved for its element. -/
  fits : ∀ slot ∈ responseSlots request response, slot.Fits
  /-- The writes below are all that the element writers do to the buffer. -/
  performed : (finalState (encodeMessage request response (valuesToEncode request response)
    ⟨client.packet, maxPacketSize⟩)).mem = client.packet.writeAll (elementWrites request response)
  inside : ∀ w ∈ elementWrites request response,
    0 ≤ w.start ∧ w.start + w.bytes.length ≤ maxPacketSize
  /-- No write reaches an element that has been written before it. -/
  apart : (elementWrites request response).Pairwise fun w w' : Lib.Write =>
    w'.start + w'.bytes.length ≤ w.start
  /-- What is moved to the start of the packet is no longer than the packet. -/
  moved : (encodeSnmpResponse request response client).1 = .ok () →
    (encodeSnmpResponse request response client).2.size ≤ maxPacketSize
  /-- The memory behind the packet is left alone. -/
  outside : ∀ i, maxPacketSize ≤ i →
    (encodeSnmpResponse request response client).2.packet i = client.packet i

section

variable {request : Request} {response : Response}

/-- Moving a packet to the start of the buffer leaves what is behind the buffer. -/
theorem moveToStart_of_ge {f : Frame} {i : Nat} (hi : maxPacketSize ≤ i) :
    moveToStart f (maxPacketSize - f.pos).toNat i = f.mem i := by
  unfold moveToStart
  split
  · apply Mem.write_of_ge
    rw [Mem.length_slice]
    omega
  · rfl

/-- A response whose values the encoder can place is written inside the packet. -/
theorem encodesInside_of_input (hin : EncoderInput request response) (client : Client) :
    EncodesInside request response client := by
  have hfits : ∀ slot ∈ responseSlots request response, slot.Fits := fits_messageSlots hin.values
  have hinside := Lib.writes_inside hfits maxPacketSize
  have hrun : encodeMessage request response (valuesToEncode request response)
      ⟨client.packet, maxPacketSize⟩ =
        fill (responseSlots request response) ⟨client.packet, maxPacketSize⟩ :=
    fills_message request response _ _ (Int.sub_zero _).symm
  have hperformed : (finalState (encodeMessage request response (valuesToEncode request response)
      ⟨client.packet, maxPacketSize⟩)).mem =
        client.packet.writeAll (elementWrites request response) := by
    rw [hrun]
    exact Lib.fill_mem _ _
  have hbehind : ∀ i, maxPacketSize ≤ i →
      client.packet.writeAll (elementWrites request response) i = client.packet i := by
    intro i hi
    apply Lib.writeAll_of_ge
    intro w hw
    obtain ⟨hstart, hend⟩ := hinside w hw
    exact ⟨hstart, by omega⟩
  refine ⟨hfits, hperformed, hinside, Lib.writes_disjoint hfits _, fun hok => ?_, fun i hi => ?_⟩
  · -- a response that is too long is an error, although the elements that fit are written
    have hlength := (encodeSnmpResponse_ok_iff hin client).mp hok
    obtain ⟨packet, heq, -⟩ := encodeSnmpResponse_of_fits hin hlength client
    rw [heq]
    exact hlength
  · rw [← hbehind i hi, ← hperformed]
    unfold encodeSnmpResponse
    rw [if_neg (by have hroom := hin.room; omega)]
    cases encodeMessage request response (valuesToEncode request response)
        ⟨client.packet, maxPacketSize⟩ with
    | error e f => rfl
    | ok u f => exact moveToStart_of_ge hi

end

/-- An OID that the decoder takes from inside the packet is written in at most the length that is
    recorded for it. -/
theorem length_encodeSnmpOid_le {mem : Mem} {size pos length : Nat} {r : Oid × Nat}
    (hsize : size ≤ maxPacketSize) (hlength : 1 ≤ length) (hinside : pos + length ≤ size)
    (h : (decodeSnmpElementValueOid size pos length).eval mem = .ok r) :
    ((encodeSnmpOid r.1).length : Int) ≤ r.1.encodedLength := by
  have hshort : length < 65536 := by
    unfold maxPacketSize at hsize
    omega
  obtain ⟨-, hcontent, rfl⟩ := (eval_oid_eq_ok mem hlength hshort).mp h
  have hlen := Mem.length_slice mem pos length
  apply DecodedOid.length_encode_le hsize
  refine ⟨mem.slice pos length, ?_, by omega, hcontent, rfl⟩
  exact List.ne_nil_of_length_pos (by omega)

/-- **The encoder stays inside.** For a MIB of INTEGER entries and every request that is accepted,
    the response is written inside the packet, each element to the place reserved for it; and
    every OID that is decoded inside a packet is written in at most its recorded length. -/
theorem encodeSnmpResponse_staysInside (config : Config) {vars : List MibVariable}
    (hvars : ∀ var ∈ vars, ∃ v, var.value = .integer v) {values : List Value}
    (hbuild : (forM vars mibBuildEntry).run [] = .ok () values) (client : Client)
    (hsize : client.size ≤ maxPacketSize) {request : Request} {pos : Nat}
    (hdec : (decodeSnmpRequest client.size).eval client.packet = .ok (request, pos))
    {response : Response} (hanswer : answer config values request = .reply response) :
    EncodesInside request response client ∧
      ∀ pos length r, 1 ≤ length → pos + length ≤ client.size →
        (decodeSnmpElementValueOid client.size pos length).eval client.packet = .ok r →
          ((encodeSnmpOid r.1).length : Int) ≤ r.1.encodedLength := by
  obtain ⟨mib, rfl⟩ := exists_mib_of_forM hvars hbuild
  have hin := answer_encoderInput hsize (decodeSnmpRequest_accepted hsize hdec) hanswer
  refine ⟨encodesInside_of_input hin client, ?_⟩
  intro pos length r hlength hinside hoid
  exact length_encodeSnmpOid_le hsize hlength hinside hoid

/-- The agent's own MIB, and a request with a padded OID that is answered with an error. -/
theorem encodeSnmpResponse_staysInside_paddedGet :
    ∃ values response, (mibBuild false).run [] = .ok () values ∧
      answer configQ values paddedRequest = .reply response ∧
        EncodesInside paddedRequest response (.holding (Mem.ofList paddedGet) 30) ∧
        ∀ pos length r, 1 ≤ length → pos + length ≤ 30 →
          (decodeSnmpElementValueOid 30 pos length).eval (Mem.ofList paddedGet) = .ok r →
            ((encodeSnmpOid r.1).length : Int) ≤ r.1.encodedLength := by
  obtain ⟨values, hbuild, -⟩ := mibBuild_publishes false
  have hvars : ∀ var ∈ defaults false, ∃ v, var.value = .integer v := by
    intro var hvar
    obtain ⟨v, hinteger⟩ := isInteger_defaults false var hvar
    exact ⟨v, hinteger.value⟩
  refine ⟨values, ⟨snmpStatusNoAccess, 0, []⟩, hbuild, rfl, ?_⟩
  exact encodeSnmpResponse_staysInside configQ hvars hbuild (.holding (Mem.ofList paddedGet) 30)
    (by decide) eval_paddedGet rfl

end SdkSnmpd
