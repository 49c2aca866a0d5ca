import SdkSnmpd.Delivery
import SdkSnmpd.Messages

/-!
# Conversations with the Agent

A manager sends one message after another, over UDP or over one TCP connection, and reads the
replies. All messages are encoded as in `SdkSnmpd.Messages`, and read by `readResponse`.

## Contents

- `wireResponse_fullAnswer`: what the agent answers can be read back.
- `snmp_of_answer`: the protocol handler turns a message into the encoding of its answer.
- `serveUdp_conversation`: each datagram is answered as if it were the only one.
- `serveTcp_conversation`: a connection serves any number of messages, in their order.
-/

namespace SdkSnmpd

open Lib (Content Mem Scan)
open Lib.Ber (HeaderAt tlv)

/-! ## Answers on the wire -/

section

variable {config : Config} {values : List Value} {request : Request}

/-- An exception, under an OID that the wire represents. -/
theorem wireValue_emptyData {oid : Oid} (hoid : WireOid oid) {type : UInt8}
    (htype : type ∈ supportedTypes) : WireValue ⟨oid, emptyData type⟩ where
  oid := hoid
  data := show (0 : Int) ≤ 2 by decide
  buffer := show (2 : Int) ≤ 2 by decide
  tlv := ⟨type, 0, 2, .short htype (show (0 : UInt8).toNat < 128 by decide) (Nat.le_refl 2), rfl⟩

/-- An answer is an entry of the MIB, or an exception under the OID that was asked for. -/
theorem answerOf_lookupOf_cases (values : List Value) (request : Request) (oid : Oid) :
    answerOf (lookupOf values request) oid ∈ values ∨
      ∃ type ∈ supportedTypes, answerOf (lookupOf values request) oid = ⟨oid, emptyData type⟩ := by
  cases hlookup : lookupOf values request oid with
  | found value =>
    rw [(isMissing_of_found hlookup).2]
    exact .inl (lookupOf_mem hlookup)
  | missing exception =>
    rw [(isMissing_of_missing hlookup).2]
    unfold lookupOf at hlookup
    split at hlookup
    · rcases lookupGet_missing hlookup with rfl | rfl
      · exact .inr ⟨_, by decide, rfl⟩
      · exact .inr ⟨_, by decide, rfl⟩
    · -- GETNEXT has one exception only
      unfold lookupNext at hlookup
      split at hlookup <;> cases hlookup
      exact .inr ⟨_, by decide, rfl⟩

theorem wireValue_lookupOf (hvalues : ∀ value ∈ values, WireValue value) {oid : Oid}
    (hoid : WireOid oid) : WireValue (answerOf (lookupOf values request) oid) := by
  rcases answerOf_lookupOf_cases values request oid with hentry | ⟨type, htype, heq⟩
  · exact hvalues _ hentry
  · rw [heq]
    exact wireValue_emptyData hoid htype

theorem wireValue_nextAnswer (hvalues : ∀ value ∈ values, WireValue value) {oid : Oid}
    (hoid : WireOid oid) : WireValue (nextAnswer values oid) := by
  cases hlookup : lookupNext values oid with
  | found value =>
    rw [nextAnswer, (isMissing_of_found hlookup).2]
    rcases @lookupNext_spec values oid with ⟨stored, hmem, hstored⟩ | ⟨type, hmissing⟩
    · rw [hlookup] at hstored
      cases hstored
      exact hvalues value hmem
    · rw [hlookup] at hmissing
      cases hmissing
  | missing exception =>
    rw [(nextAnswer_eq_end_iff oid).mpr (isMissing_of_missing hlookup).1]
    exact wireValue_emptyData hoid (by decide)

/-- The OIDs that GETBULK asks for in its rows. The induction is on the row. -/
theorem wireOid_asked (hvalues : ∀ value ∈ values, WireValue value) {oids : List Oid}
    (hoids : ∀ oid ∈ oids, WireOid oid) (r : Nat) :
    ∀ oid ∈ Lib.asked (nextAnswer values) Value.oid oids r, WireOid oid := by
  induction r with
  | zero => exact hoids
  | succ r ih =>
    intro oid hoid
    rw [Lib.asked, Lib.row_eq_map_asked, List.map_map] at hoid
    obtain ⟨before, hbefore, rfl⟩ := List.mem_map.mp hoid
    exact (wireValue_nextAnswer hvalues (ih before hbefore)).oid

theorem wireValue_bulkAnswers (hvalues : ∀ value ∈ values, WireValue value)
    (hoids : ∀ oid ∈ request.oidList, WireOid oid) :
    ∀ value ∈ bulkAnswers values request, WireValue value := by
  intro value hvalue
  -- the non-repeaters, and then the rows
  rcases List.mem_append.mp hvalue with hfirst | hrows
  · obtain ⟨oid, hoid, rfl⟩ := List.mem_map.mp hfirst
    exact wireValue_nextAnswer hvalues (hoids oid (List.mem_of_mem_take hoid))
  · obtain ⟨r, -, hrow⟩ := (Lib.mem_rows _ _).mp hrows
    rw [Lib.row_eq_map_asked] at hrow
    obtain ⟨oid, hoid, rfl⟩ := List.mem_map.mp hrow
    exact wireValue_nextAnswer hvalues (wireOid_asked hvalues
      (fun oid hoid => hoids oid (List.mem_of_mem_drop hoid)) r oid hoid)

/-- Unless the request is a GETBULK, the values of its answer answer its first OIDs one by one. -/
theorem fullAnswer_values (htype : request.type ≠ berTypeSnmpGetbulk) :
    ∃ n, (fullAnswer config values request).valueList =
      (request.oidList.take n).map (answerOf (lookupOf values request)) := by
  unfold fullAnswer
  split
  · exact ⟨0, rfl⟩
  · rw [if_neg htype]
    split
    · exact ⟨0, rfl⟩
    · split
      · -- in version 1 the values stop before the first OID without a match
        unfold versionOneResponse
        split
        · exact ⟨_, rfl⟩
        · exact ⟨request.oidList.length, by rw [List.take_length]⟩
      · exact ⟨request.oidList.length, by rw [List.take_length]⟩

/-- **Answers can be read back**, if the MIB has values that can be. -/
theorem wireResponse_fullAnswer (hvalues : ∀ value ∈ values, WireValue value)
    (hrequest : WireRequest request)
    (hcount : (fullAnswer config values request).valueList.length ≤ maxNrValues) :
    WireResponse (fullAnswer config values request) where
  room := hcount
  values := by
    intro value hvalue
    by_cases htype : request.type = berTypeSnmpGetbulk
    · unfold fullAnswer at hvalue
      split at hvalue
      · exact absurd hvalue List.not_mem_nil
      · rw [if_pos htype] at hvalue
        exact wireValue_bulkAnswers hvalues hrequest.oids value hvalue
    · obtain ⟨n, hanswers⟩ := @fullAnswer_values config values request htype
      rw [hanswers] at hvalue
      obtain ⟨oid, hoid, rfl⟩ := List.mem_map.mp hvalue
      exact wireValue_lookupOf hvalues (hrequest.oids oid (List.mem_of_mem_take hoid))

end

/-! ## One packet -/

/-- Content without gaps: every byte of the packet was written. -/
theorem holdsAt_of_content {content : Content} {bytes : List UInt8} {packet : Mem}
    {old : Nat → UInt8} (hcontent : content = bytes.map some)
    (h : ∀ k (hk : k < content.length), packet k = content[k].getD (old k)) :
    packet.HoldsAt 0 bytes := by
  subst hcontent
  apply List.ext_getElem (by simp)
  intro k hk hk'
  rw [Mem.getElem_slice, Nat.zero_add, h k (by simpa using hk'), List.getElem_map,
    Option.getD_some]

section

variable {config : Config} {mib : Mib} {request : Request} {bindings : List Value}
  {response : Response}

/-- The protocol handler replaces a message by the encoding of its answer. -/
theorem snmp_of_answer (hwire : WireMessage request bindings)
    (hfits : (messageBytes request bindings).length ≤ maxPacketSize)
    (hanswer : answer config mib.values request = .reply response)
    (hresponse : WireResponse response)
    (hreply : (responseBytes request response).length ≤ maxPacketSize) {client : Client}
    (hsize : client.size = (messageBytes request bindings).length)
    (hpacket : client.packet.HoldsAt 0 (messageBytes request bindings)) :
    ∃ packet : Mem, snmp config mib.values client =
        (.ok (), { client with packet, size := (responseBytes request response).length }) ∧
      packet.HoldsAt 0 (responseBytes request response) := by
  have hdec := eval_decodeSnmpRequest hwire hfits hpacket
  rw [← hsize] at hdec
  have hin := answer_encoderInput (hsize.trans_le hfits)
    (decodeSnmpRequest_accepted (hsize.trans_le hfits) hdec) hanswer
  -- a manager writes its OIDs in their shortest form, so that no slot has a gap
  have hcontent : responseContent request response = (responseBytes request response).map some :=
    responseContent_eq hwire.wire hresponse
  have hlength : (responseContent request response).length =
      (responseBytes request response).length := by rw [hcontent, List.length_map]
  obtain ⟨packet, hencode, hbytes⟩ := encodeSnmpResponse_of_fits hin (hlength.trans_le hreply) client
  refine ⟨packet, ?_, holdsAt_of_content hcontent hbytes⟩
  rw [snmp_of_reply hdec hanswer, hencode]
  exact congrArg (fun size => (Except.ok (), { client with packet, size })) hlength

/-- A response is not empty. -/
theorem length_responseBytes_pos (request : Request) (response : Response) :
    0 < (responseBytes request response).length := by
  rw [responseBytes, Lib.Ber.length_tlv]
  omega

/-- The record once a datagram is filled in. -/
theorem fill_of_datagram (udpSockfd : Int) {client : Client} {input : UdpInput}
    {datagram : Datagram} (hdatagram : input.datagram = some datagram) :
    (input.fill udpSockfd client).size = datagram.bytes.length ∧
      (input.fill udpSockfd client).packet.HoldsAt 0 datagram.bytes := by
  simp only [UdpInput.fill, UdpInput.rv, UdpInput.store, hdatagram]
  exact ⟨toSizeT_natCast datagram.fits, Mem.slice_write_self _ _ _⟩

/-- One datagram, over whatever an earlier one has left in the record. -/
theorem handleUdpClient_of_answer (udpSockfd : Int) (hwire : WireMessage request bindings)
    {input : UdpInput} {datagram : Datagram} (hdatagram : input.datagram = some datagram)
    (hbytes : datagram.bytes = messageBytes request bindings)
    (hanswer : answer config input.mib.values request = .reply response)
    (hresponse : WireResponse response)
    (hreply : (responseBytes request response).length ≤ maxPacketSize) {client : Client}
    (hsize : client.size ≤ maxPacketSize) :
    (handleUdpClient config udpSockfd client input).sent = some (responseBytes request response) ∧
      (handleUdpClient config udpSockfd client input).client.size ≤ maxPacketSize := by
  obtain ⟨hfilled, hpacket⟩ := @fill_of_datagram udpSockfd client input datagram hdatagram
  have hfits := datagram.fits
  rw [hbytes] at hfilled hpacket hfits
  obtain ⟨packet, hrun, hholds⟩ :=
    snmp_of_answer hwire hfits hanswer hresponse hreply hfilled hpacket
  -- an answer of size 0 would not be sent
  have hpos := length_responseBytes_pos request response
  rw [handleUdpClient, if_neg (ne_toSizeT_neg_one hsize)]
  simp only [hrun, udpReply]
  rw [if_neg (by omega)]
  exact ⟨congrArg some hholds, hreply⟩

end

/-! ## One message -/

/-- A message to the agent, and the MIB that it finds there. -/
structure ManagerMessage where
  request : Request
  bindings : List Value
  mib : Mib

namespace ManagerMessage

def bytes (message : ManagerMessage) : List UInt8 := messageBytes message.request message.bindings

/-- What the agent answers. -/
def answer (config : Config) (message : ManagerMessage) : Response :=
  fullAnswer config message.mib.values message.request

def replyBytes (config : Config) (message : ManagerMessage) : List UInt8 :=
  responseBytes message.request (message.answer config)

/-- A request in the format of the agent. It fits into a packet, and so does its answer. -/
structure Served (config : Config) (message : ManagerMessage) : Prop where
  wire : WireMessage message.request message.bindings
  type : IsRequestType message.request.type
  values : ∀ value ∈ message.mib.values, WireValue value
  fits : message.bytes.length ≤ maxPacketSize
  count : (message.answer config).valueList.length ≤ maxNrValues
  replyFits : (message.replyBytes config).length ≤ maxPacketSize

variable {config : Config} {message : ManagerMessage}

theorem Served.wireResponse (h : message.Served config) : WireResponse (message.answer config) :=
  wireResponse_fullAnswer h.values h.wire.wire h.count

/-- What the agent answers is what it replies. -/
theorem Served.answer_eq (h : message.Served config) :
    SdkSnmpd.answer config message.mib.values message.request = .reply (message.answer config) := by
  rw [SdkSnmpd.answer_eq h.type h.wire.wire.room]
  exact if_pos h.count

/-- The manager reads the answer from the reply. -/
theorem read_replyBytes (h : message.Served config) {received : Mem}
    (hreceived : received.HoldsAt 0 (message.replyBytes config)) :
    (readResponse (message.replyBytes config).length).eval received =
      .ok (replyOf message.request (message.answer config)) :=
  eval_readResponse h.wire.wire h.wireResponse h.replyFits hreceived

end ManagerMessage

/-- The bytes sent are read as the answer to the message, whoever receives them. -/
def AnsweredBy (config : Config) (message : ManagerMessage) (sent : Option (List UInt8)) : Prop :=
  ∃ bytes, sent = some bytes ∧ bytes.length ≤ maxPacketSize ∧
    ∀ received : Mem, received.HoldsAt 0 bytes →
      (readResponse bytes.length).eval received =
        .ok (replyOf message.request (message.answer config))

theorem ManagerMessage.Served.answeredBy {config : Config} {message : ManagerMessage}
    (h : message.Served config) : AnsweredBy config message (some (message.replyBytes config)) :=
  ⟨_, rfl, h.replyFits, fun _ hreceived => ManagerMessage.read_replyBytes h hreceived⟩

/-- A version 2 GET for `.1.3.1`, to an empty MIB. -/
def plainMessage : ManagerMessage where
  request := ⟨communityP, berTypeSnmpGet, snmpVersion2c, 1, 0, 0, [⟨[1, 3, 1], 4⟩]⟩
  bindings := nullBindings [⟨[1, 3, 1], 4⟩]
  mib := emptyMib

theorem served_plainMessage : plainMessage.Served ⟨communityP, false⟩ where
  wire := by
    refine wireMessage_nullBindings ⟨.inr rfl, by decide, by decide, ?_⟩ (by decide)
    intro oid hoid
    obtain rfl := List.mem_singleton.mp hoid
    exact ⟨by decide, by decide, by decide, by decide, by decide⟩
  type := .inl rfl
  values := fun _ h => absurd h List.not_mem_nil
  fits := by decide
  count := by decide
  replyFits := by decide

/-! ## Conversations over UDP -/

/-- What `recvfrom` stores of a datagram. -/
def Datagram.cut (bytes : List UInt8) : Datagram where
  bytes := bytes.take maxPacketSize
  fits := List.length_take_le _ _

theorem Datagram.bytes_cut {bytes : List UInt8} (h : bytes.length ≤ maxPacketSize) :
    (Datagram.cut bytes).bytes = bytes := List.take_of_length_le h

/-- The datagram is the message. -/
structure Delivers (message : ManagerMessage) (input : UdpInput) : Prop where
  bytes : ∃ datagram, input.datagram = some datagram ∧ datagram.bytes = message.bytes
  mib : input.mib = message.mib

theorem handleUdpClient_of_message {config : Config} (udpSockfd : Int) {message : ManagerMessage}
    {client : Client} (h : message.Served config) {input : UdpInput}
    (hinput : Delivers message input) (hsize : client.size ≤ maxPacketSize) :
    (handleUdpClient config udpSockfd client input).sent = some (message.replyBytes config) ∧
      (handleUdpClient config udpSockfd client input).client.size ≤ maxPacketSize := by
  obtain ⟨datagram, hdatagram, hbytes⟩ := hinput.bytes
  have hanswer := h.answer_eq
  rw [← hinput.mib] at hanswer
  exact handleUdpClient_of_answer udpSockfd h.wire hdatagram hbytes hanswer h.wireResponse
    h.replyFits hsize

/-- **A conversation over UDP.** Every message of a manager is answered with a datagram from which
    the manager reads the full answer, whatever was sent before. The induction is on the
    messages: each leaves a record that the next one finds in order. -/
theorem serveUdp_conversation (config : Config) (udpSockfd : Int) (client : Client)
    (hsize : client.size ≤ maxPacketSize) (messages : List ManagerMessage) (inputs : List UdpInput)
    (hserved : ∀ message ∈ messages, message.Served config)
    (hinputs : List.Forall₂ Delivers messages inputs) :
    List.Forall₂ (fun message call => AnsweredBy config message call.sent) messages
      (serveUdp config udpSockfd client inputs) := by
  induction hinputs generalizing client with
  | nil => exact .nil
  | cons hinput _ ih =>
    obtain ⟨hmessage, hserved⟩ := List.forall_mem_cons.mp hserved
    obtain ⟨hsent, hsize⟩ := handleUdpClient_of_message udpSockfd hmessage hinput hsize
    refine .cons ?_ (ih _ hsize hserved)
    rw [hsent]
    exact hmessage.answeredBy

def plainInput : UdpInput := ⟨some ⟨plainMessage.bytes, by decide⟩, 1, 161, 2, emptyMib⟩

theorem serveUdp_conversation_plainMessage :
    List.Forall₂ (fun message call => AnsweredBy ⟨communityP, false⟩ message call.sent)
      [plainMessage, plainMessage]
      (serveUdp ⟨communityP, false⟩ 3 Client.empty [plainInput, plainInput]) := by
  have hdelivers : Delivers plainMessage plainInput := ⟨⟨_, rfl, rfl⟩, rfl⟩
  refine serveUdp_conversation ⟨communityP, false⟩ 3 Client.empty (by decide)
    [plainMessage, plainMessage] [plainInput, plainInput] ?_
    (.cons hdelivers (.cons hdelivers .nil))
  simp only [List.forall_mem_cons, served_plainMessage, List.not_mem_nil, false_implies,
    implies_true, and_self]

/-! ## Conversations over TCP -/

/-- A message arrives at once, and the reply is sent at once. -/
def tcpExchange (config : Config) (client : Client) (message : ManagerMessage) (now : Int) :
    Client × Option (List UInt8) :=
  let read := handleTcpClientRead config message.mib.values client (some message.bytes) now
  if read.1.outgoing then
    (handleTcpClientWrite read.1 (some read.1.size), some (read.1.packet.slice 0 read.1.size))
  else (read.1, none)

/-- The exchanges over one connection: the client after them, and what was sent. -/
def serveTcp (config : Config) : Client → List (ManagerMessage × Int) →
    Client × List (Option (List UInt8))
  | client, [] => (client, [])
  | client, (message, now) :: rest =>
      let (client, sent) := tcpExchange config client message now
      let (client, replies) := serveTcp config client rest
      (client, sent :: replies)

/-- An open connection on which nothing is under way. -/
structure Client.Idle (client : Client) : Prop where
  isOpen : client.sockfd ≠ -1
  size : client.size = 0
  listening : client.outgoing = false

section

variable {config : Config} {message : ManagerMessage} {client : Client}

theorem receive_of_idle (hclient : client.Idle) (bytes : List UInt8) (now : Int) :
    (client.receive bytes now).size = bytes.length ∧
      (client.receive bytes now).packet.HoldsAt 0 bytes := by
  simp only [Client.receive, hclient.size, Nat.zero_add]
  exact ⟨trivial, Mem.slice_write_self _ _ _⟩

/-- The client has the reply to a message. -/
structure Client.Answering (config : Config) (message : ManagerMessage) (client : Client) : Prop where
  isOpen : client.sockfd ≠ -1
  size : client.size = (message.replyBytes config).length
  packet : client.packet.HoldsAt 0 (message.replyBytes config)
  outgoing : client.outgoing = true

/-- A message that is not too short is answered as soon as it is read. -/
theorem answering_of_message (h : message.Served config) (hlong : 25 ≤ message.bytes.length)
    (hclient : client.Idle) (now : Int) :
    (handleTcpClientRead config message.mib.values client (some message.bytes) now).1.Answering
      config message := by
  obtain ⟨hsize, hpacket⟩ := receive_of_idle hclient message.bytes now
  have hfits := h.fits
  -- the message is complete
  have hdec := eval_decodeSnmpRequest h.wire h.fits hpacket
  change (decodeSnmpRequest message.bytes.length).eval _ = _ at hdec
  rw [← hsize] at hdec
  obtain ⟨q, hheader⟩ := (decodeSnmpRequest_accepted (by omega) hdec).header
  have hcomplete := snmpPacketComplete_of_accepted (by omega) hheader
  -- and handled
  have hsize' : ({ client.receive message.bytes now with outgoing := false } : Client).size =
      message.bytes.length := hsize
  obtain ⟨packet, hrun, hreply⟩ : ∃ packet : Mem, snmp config message.mib.values
      { client.receive message.bytes now with outgoing := false } =
        (.ok (), { client.receive message.bytes now with
          packet, size := (message.replyBytes config).length, outgoing := false }) ∧
      packet.HoldsAt 0 (message.replyBytes config) :=
    snmp_of_answer h.wire h.fits h.answer_eq h.wireResponse h.replyFits hsize' hpacket
  have hpos : 0 < (message.replyBytes config).length := length_responseBytes_pos _ _
  have hne : message.bytes ≠ [] := by
    intro hnil
    rw [hnil] at hlong
    exact absurd hlong (by decide)
  rw [handleTcpClientRead_of_fits config _ now hne (by rw [hclient.size]; omega), hcomplete]
  simp only [handleTcpPacket, hrun]
  rw [if_neg (by omega)]
  exact ⟨hclient.isOpen, rfl, hreply, rfl⟩

/-- A reply that is sent as a whole leaves the connection idle. -/
theorem Client.Answering.idle (h : client.Answering config message) :
    (handleTcpClientWrite client (some client.size)).Idle := by
  simp only [handleTcpClientWrite, ne_eq, not_true_eq_false, if_false]
  exact ⟨h.isOpen, rfl, rfl⟩

/-- One exchange: a message that is not too short is answered, and the connection is idle again. -/
theorem tcpExchange_of_message (h : message.Served config) (hlong : 25 ≤ message.bytes.length)
    (hclient : client.Idle) (now : Int) :
    (tcpExchange config client message now).2 = some (message.replyBytes config) ∧
      (tcpExchange config client message now).1.Idle := by
  have hanswering := answering_of_message h hlong hclient now
  simp only [tcpExchange, hanswering.outgoing, if_true]
  refine ⟨congrArg some ?_, hanswering.idle⟩
  rw [hanswering.size]
  exact hanswering.packet

end

/-- **A conversation over TCP.** A connection serves any number of messages, each of 25 bytes or
    more, one after another. Each is answered, in its turn, with the full answer, and the
    connection is left idle. -/
theorem serveTcp_conversation (config : Config) (client : Client) (hclient : client.Idle)
    (exchanges : List (ManagerMessage × Int))
    (hserved : ∀ exchange ∈ exchanges, exchange.1.Served config ∧ 25 ≤ exchange.1.bytes.length) :
    (serveTcp config client exchanges).1.Idle ∧
      List.Forall₂ (fun exchange sent => AnsweredBy config exchange.1 sent) exchanges
        (serveTcp config client exchanges).2 := by
  induction exchanges generalizing client with
  | nil => exact ⟨hclient, .nil⟩
  | cons exchange rest ih =>
    obtain ⟨message, now⟩ := exchange
    obtain ⟨⟨hmessage, hlong⟩, hrest⟩ := List.forall_mem_cons.mp hserved
    obtain ⟨hsent, hidle⟩ := tcpExchange_of_message hmessage hlong hclient now
    obtain ⟨hlast, hreplies⟩ := ih _ hidle hrest
    have hfirst : AnsweredBy config message (tcpExchange config client message now).2 := by
      rw [hsent]
      exact hmessage.answeredBy
    exact ⟨hlast, .cons hfirst hreplies⟩

/-- The message is sent twice. -/
def plainExchanges : List (ManagerMessage × Int) := [(plainMessage, 1), (plainMessage, 2)]

theorem serveTcp_conversation_plainMessage :
    (serveTcp ⟨communityP, false⟩ connectedClient plainExchanges).1.Idle ∧
      List.Forall₂ (fun exchange sent => AnsweredBy ⟨communityP, false⟩ exchange.1 sent)
        plainExchanges (serveTcp ⟨communityP, false⟩ connectedClient plainExchanges).2 := by
  refine serveTcp_conversation ⟨communityP, false⟩ connectedClient ⟨by decide, rfl, rfl⟩
    plainExchanges ?_
  have hlong : 25 ≤ plainMessage.bytes.length := by decide
  simp only [plainExchanges, List.forall_mem_cons, served_plainMessage, hlong, List.not_mem_nil,
    false_implies, implies_true, and_self]

end SdkSnmpd
