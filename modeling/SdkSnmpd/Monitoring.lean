import SdkSnmpd.Agent
import SdkSnmpd.BulkWalk
import SdkSnmpd.Conversation
import SdkSnmpd.Isolation
import SdkSnmpd.OidTransport

/-!
# Monitoring the Agent

A manager that asks the agent for its words over UDP, while the sensor thread goes on.

## Contents

- `Refreshed.wireValue`, `Refreshed.served`: the MIB of the agent has no value that could not be
  sent, and the answer to a GET or GETNEXT always fits into a packet.
- `Agent.reply`: the datagram that a round sends.
- `agent_monitors`: what a manager reads for the words comes from samples.
- `agent_walk`: a walk meets every OID of the MIB in order, whatever happens between its requests.
-/

namespace SdkSnmpd

open Lib (Mem Outcome run)
open Lib.Ber (HeaderAt tlv)

/-! ## The table on the wire -/

/-- The prefixes of the variables: they leave room, and their first subids share an octet. -/
def MibVariable.hasWireOid (var : MibVariable) : Bool :=
  decide (2 ≤ var.oidPrefix.subidList.length) && decide (var.oidPrefix.subidList.length ≤ 14) &&
    decide (SharesStart var.oidPrefix.subidList)

theorem wireOid_defaults (demo : Bool) :
    ∀ oid ∈ (defaults demo).map MibVariable.oid, WireOid oid := by
  have hall : (defaults demo).all MibVariable.hasWireOid = true := by cases demo <;> rfl
  intro oid hoid
  obtain ⟨var, hvar, rfl⟩ := List.mem_map.mp hoid
  have hbool := List.all_eq_true.mp hall var hvar
  simp only [MibVariable.hasWireOid, Bool.and_eq_true, decide_eq_true_eq] at hbool
  exact wireOid_oid hbool.1.1 hbool.1.2 hbool.2

theorem completeTlv_integerBytes (v : Int32) : CompleteTlv (integerBytes v) := by
  have hbounds := integerOctets_bounds v
  have hlen := length_integerContent v
  have hmem : (Mem.ofList (integerBytes v)).HoldsAt 0 (integerBytes v) := by
    simpa using Mem.holdsAt_ofList (integerBytes v) []
  -- the reader of the header stops where the content begins
  obtain ⟨q, heval, -, hend⟩ := eval_header (show berTypeInteger ∈ supportedTypes by decide)
    (by omega) (show Stands _ (integerBytes v).length 0 (integerBytes v) from ⟨hmem, by omega⟩)
  exact ⟨berTypeInteger, _, q, (eval_typeLength_eq_ok _).mp heval, by
    rw [hend, Nat.zero_add, integerBytes]⟩

namespace Refreshed

variable {demo : Bool} {values : List Value}

theorem mem_oids (h : Refreshed demo values) {value : Value} (hvalue : value ∈ values) :
    value.oid ∈ (defaults demo).map MibVariable.oid := by
  rw [← h.oids]
  exact List.mem_map_of_mem hvalue

/-- Every value can be sent. -/
theorem wireValue (h : Refreshed demo values) : ∀ value ∈ values, WireValue value := by
  intro value hvalue
  obtain ⟨v, hdata⟩ := h.integers value hvalue
  have hlen := length_integerBytes v
  have hbounds := integerOctets_bounds v
  exact {
    oid := wireOid_defaults demo _ (h.mem_oids hvalue)
    data := hdata.pos.le
    buffer := by
      rw [hdata.encodedLength, hdata.buffer]
      omega
    tlv := by
      rw [hdata.bytes]
      exact completeTlv_integerBytes v }

end Refreshed

/-! ## Room for the answer -/

theorem Refreshed.compact_lookupOf {demo : Bool} {values : List Value} (h : Refreshed demo values)
    (request : Request) {oid : Oid} (hoid : WireOid oid) :
    Compact (answerOf (lookupOf values request) oid) := by
  -- an entry of the MIB is a number, and an exception has no content
  rcases answerOf_lookupOf_cases values request oid with hentry | ⟨type, -, heq⟩
  · obtain ⟨v, hdata⟩ := h.integers _ hentry
    have hlen := length_integerBytes v
    have hbounds := integerOctets_bounds v
    refine ⟨(h.wireValue _ hentry).oid, ?_⟩
    rw [hdata.bytes]
    omega
  · rw [heq]
    exact ⟨hoid, show (emptyData type).bytes.length ≤ 6 by simp [emptyData, Data.bytes]⟩

/-- The requests for which the agent always has room. -/
def IsLookup (request : Request) : Prop :=
  request.type = berTypeSnmpGet ∨ request.type = berTypeSnmpGetnext

/-- A request with NULL values, to the MIB of the agent. -/
def Refreshed.message {demo : Bool} {values : List Value} (h : Refreshed demo values)
    (request : Request) : ManagerMessage :=
  ⟨request, nullBindings request.oidList, h.mib⟩

/-- **The agent has room for its answers**: every GET and every GETNEXT with NULL values is
    served. -/
theorem Refreshed.served {demo : Bool} {values : List Value} (h : Refreshed demo values)
    (config : Config) {request : Request} (hwire : WireRequest request)
    (hlookup : IsLookup request) : (h.message request).Served config := by
  -- a GET or GETNEXT has at most one value for each OID, so that the packet has room
  have hbulk : request.type ≠ berTypeSnmpGetbulk := by
    rcases hlookup with htype | htype <;> rw [htype] <;> decide
  have htype : request.type ∈ supportedTypes := by
    rcases hlookup with htype | htype <;> rw [htype] <;> decide
  have hcount : (nullBindings request.oidList).length ≤ maxNrOids := by
    rw [nullBindings, List.length_map]
    exact hwire.room
  have hnull : ∀ value ∈ nullBindings request.oidList, Compact value := by
    intro value hvalue
    obtain ⟨oid, hoid, rfl⟩ := List.mem_map.mp hvalue
    exact compact_null (hwire.oids oid hoid)
  exact {
    wire := wireMessage_nullBindings hwire htype
    type := by
      rcases hlookup with htype | htype
      · exact .inl htype
      · exact .inr (.inl htype)
    values := h.wireValue
    fits := length_messageBytes_le hwire.community.2 hcount hnull
    count := length_fullAnswer_le hbulk hwire.room
    replyFits := by
      change (responseBytes request (fullAnswer config values request)).length ≤ maxPacketSize
      obtain ⟨n, hanswers⟩ := @fullAnswer_values config values request hbulk
      rw [responseBytes_eq]
      refine length_messageBytes_le hwire.community.2 ?_ ?_
      · unfold valuesToEncode
        split
        · exact hcount
        · rw [hanswers, List.length_map, List.length_take]
          exact (Nat.min_le_right _ _).trans hwire.room
      · intro value hvalue
        unfold valuesToEncode at hvalue
        split at hvalue
        · exact hnull value hvalue
        · rw [hanswers] at hvalue
          obtain ⟨oid, hoid, rfl⟩ := List.mem_map.mp hvalue
          exact h.compact_lookupOf request (hwire.oids oid (List.mem_of_mem_take hoid)) }

/-! ## Rounds with a datagram -/

section

variable {config : Config} {udpSockfd : Int}

/-- The record of the UDP client after a round. -/
theorem udpClient_of_iterate {s s' : Server} {input : LoopInput} {mib : Mib}
    (hmib : input.mib = some mib) (h : iterate config udpSockfd s input = .next s') :
    s'.udpClient = match input.udp with
      | none => s.udpClient
      | some udp => (handleUdpClient config udpSockfd s.udpClient { udp with mib }).client := by
  obtain ⟨served, hserved, h⟩ := Outcome.bind_eq_next.mp h
  cases h
  -- without a next state: a socket that cannot be watched, and a call that is interrupted
  unfold handleEvents at hserved
  split at hserved
  · cases hserved
  · split at hserved
    · cases hserved
    · rw [hmib] at hserved
      obtain ⟨_, -, hserved⟩ := Outcome.bind_eq_next.mp hserved
      cases hserved
      rfl

end

/-- Where the socket is ready, a datagram is received. -/
def AgentEvent.Receives (event : AgentEvent) : Prop :=
  ∀ input, event = .round input → ∀ udp, input.io.udp = some udp → udp.datagram ≠ none

namespace Agent

variable {demo : Bool} {config : Config} {udpSockfd : Int} {agent agent' : Agent demo}

/-- The UDP client is ready for the next datagram. -/
def Listening (agent : Agent demo) : Prop := agent.server.udpClient.size ≤ maxPacketSize

/-- Every step keeps the UDP client ready. -/
theorem Listening.step (h : agent.Listening) {event : AgentEvent} (hevent : event.Receives)
    (hnext : agent.step config udpSockfd event = .next agent') : agent'.Listening := by
  cases event with
  | sensor m =>
    cases hnext
    exact h
  | round input =>
    obtain ⟨prepared, server, hprepare, hserver, rfl⟩ := round_eq_next hnext
    have hclient := udpClient_of_iterate rfl hserver
    unfold Listening
    rw [hclient]
    cases hudp : input.io.udp with
    | none => exact h
    | some udp =>
      obtain ⟨datagram, hdatagram⟩ := Option.ne_none_iff_exists'.mp (hevent input rfl udp hudp)
      exact (@handleUdpClient_received config udpSockfd _
        { udp with mib := prepared.table.mib } datagram hdatagram h).2

theorem listening_run {events : List AgentEvent} (hevents : ∀ event ∈ events, event.Receives)
    (h : agent.Listening)
    (hrun : run (Agent.step config udpSockfd) agent events = .next agent') : agent'.Listening :=
  Lib.run_keeps (fun _ _ _ hevent hagent hnext => hagent.step hevent hnext) hevents h hrun

/-- The datagram that a round sends, if one has arrived and is answered. -/
def reply (config : Config) (udpSockfd : Int) (agent : Agent demo) (input : Round) :
    Option (List UInt8) :=
  match agent.prepare input, input.io.udp with
  | .next prepared, some udp =>
      (handleUdpClient config udpSockfd prepared.server.udpClient
        { udp with mib := prepared.table.mib }).sent
  | _, _ => none

/-- A request with NULL values arrives in a round. -/
def Asks (input : Round) (request : Request) : Prop :=
  ∃ udp datagram, input.io.udp = some udp ∧ udp.datagram = some datagram ∧
    datagram.bytes = messageBytes request (nullBindings request.oidList)

/-- **One question.** Every GET and every GETNEXT is answered in the round in which it arrives,
    from the MIB of that round. -/
theorem reply_of_asks (h : agent.Listening) {input : Round} {request : Request}
    (hasks : Asks input request) (hwire : WireRequest request) (hlookup : IsLookup request)
    (hround : agent.round config udpSockfd input = .next agent') :
    ∃ bytes, agent.reply config udpSockfd input = some bytes ∧
      ∀ received : Mem, received.HoldsAt 0 bytes → (readResponse bytes.length).eval received =
        .ok (replyOf request (fullAnswer config agent'.table.val request)) := by
  obtain ⟨udp, datagram, hudp, hdatagram, hbytes⟩ := hasks
  obtain ⟨prepared, server, hprepare, -, rfl⟩ := round_eq_next hround
  have hserved := prepared.table.property.served config hwire hlookup
  -- the datagram meets the MIB after the update of this round
  have hdelivers : Delivers (prepared.table.property.message request)
      { udp with mib := prepared.table.mib } := ⟨⟨datagram, hdatagram, hbytes⟩, rfl⟩
  have hlistening : prepared.server.udpClient.size ≤ maxPacketSize := by
    rw [server_of_prepare hprepare]
    exact h
  obtain ⟨hsent, -⟩ := handleUdpClient_of_message udpSockfd hserved hdelivers hlistening
  refine ⟨_, ?_, fun received hreceived => ManagerMessage.read_replyBytes hserved hreceived⟩
  simp only [reply, hprepare, hudp, hsent]

end Agent

/-! ## Reading the words -/

theorem SdkField.wireOid (field : SdkField) : WireOid field.oid :=
  wireOid_oid (show 2 ≤ mSdkOid.subidList.length by decide)
    (show mSdkOid.subidList.length ≤ 14 by decide) (show SharesStart mSdkOid.subidList by decide)

/-- A version 2 GET for words, with the community of the agent. -/
structure WordsRequest (config : Config) (request : Request) (fields : List SdkField) : Prop where
  type : request.type = berTypeSnmpGet
  version : request.version = snmpVersion2c
  community : request.community = config.community
  proper : 1 ≤ config.community.strlen ∧ config.community.strlen < maxStringSize
  oids : request.oidList = fields.map SdkField.oid
  room : fields.length ≤ maxNrOids

namespace WordsRequest

variable {config : Config} {request : Request} {fields : List SdkField}

theorem wireRequest (h : WordsRequest config request fields) : WireRequest request where
  version := .inr h.version
  community := by
    rw [h.community]
    exact h.proper
  room := by
    rw [h.oids, List.length_map]
    exact h.room
  oids := by
    intro oid hoid
    rw [h.oids] at hoid
    obtain ⟨field, -, rfl⟩ := List.mem_map.mp hoid
    exact field.wireOid

/-- The answer is what the MIB shows under the OIDs of the words. -/
theorem fullAnswer_eq (h : WordsRequest config request fields) (values : List Value) :
    fullAnswer config values request = ⟨snmpStatusOk, 0,
      fields.map fun field => answerOf (lookupGet values) field.oid⟩ := by
  have hauth := (authError_eq_none_iff h.version).mpr (congrArg CString.bytes h.community)
  unfold fullAnswer lookupOf
  rw [hauth, if_neg (by rw [h.type]; decide), if_neg (by rw [h.type]; decide),
    if_neg (by rw [h.version]; decide), if_pos h.type, h.oids, List.map_map]
  rfl

end WordsRequest

/-- An entry that shows a word is found under its OID. -/
theorem Refreshed.answerOf_lookupGet {demo : Bool} {values : List Value} (h : Refreshed demo values)
    {entry : Value} (hentry : entry ∈ values) {oid : Oid} (hoid : entry.oid = oid) :
    answerOf (lookupGet values) oid = entry :=
  (isMissing_of_found (lookupGet_of_mem h.ascending_names hentry
    (congrArg Oid.subidList hoid))).2

/-- **Monitoring.** Let the agent run, in any order of the steps of its two threads, without an error
    of `recvfrom`. A GET for any of its words is answered in the round in which it arrives, and the
    manager reads for each word its number in a sample that the sensor thread has begun to store,
    and that the last full update has met. -/
theorem agent_monitors {demo : Bool} (config : Config) (udpSockfd : Int) (answer : Mem)
    (stack : Clock) (between : SdkField → List SensorMove) (demoinfo : Demoinfo)
    (udpClient : Client) (hclient : udpClient.size ≤ maxPacketSize) (reading : Option Timeval)
    (events : List AgentEvent) (hevents : ∀ event ∈ events, event.Receives)
    {agent agent' : Agent demo}
    (hrun : run (Agent.step config udpSockfd)
        (.start demo (.start answer noSdkParam) reading stack between demoinfo udpClient) events =
      .next agent)
    {request : Request} {fields : List SdkField} (hwords : WordsRequest config request fields)
    {input : Round} (hasks : Agent.Asks input request)
    (hround : agent.round config udpSockfd input = .next agent') :
    ∃ bytes, agent.reply config udpSockfd input = some bytes ∧
      ∃ sample : SdkField → SdkParam,
        (∀ field, sample field ∈ agent'.window ∧ sample field ∈ agent'.sensor.samples) ∧
        ∀ received : Mem, received.HoldsAt 0 bytes → (readResponse bytes.length).eval received =
          .ok ⟨snmpVersion2c, config.community, berTypeSnmpResponse, request.id, snmpStatusOk, 0,
            fields.map fun field =>
              (field.oid, integerBytes (field.number ((sample field).word field)))⟩ := by
  have hsampled := Agent.sampled_run config udpSockfd answer stack between demoinfo udpClient hrun
  -- the round may update the MIB, so that the samples are those of its end
  have hsampled' := hsampled.step (.round input) hround
  have hstart : (Agent.start demo (.start answer noSdkParam) reading stack between demoinfo
      udpClient).Listening := hclient
  have hlistening := Agent.listening_run hevents hstart hrun
  obtain ⟨bytes, hreply, hread⟩ := Agent.reply_of_asks hlistening hasks hwords.wireRequest
    (.inl hwords.type) hround
  obtain ⟨read, hshows, hwindow⟩ := hsampled'.shown
  choose sample hsample hvalue using hwindow
  refine ⟨bytes, hreply, sample, fun field => ?_, fun received hreceived => ?_⟩
  · exact ⟨hsample field, hsampled'.known (hsample field)⟩
  · rw [hread received hreceived, hwords.fullAnswer_eq]
    -- each word is found, and stands for its number
    have hword : ∀ field : SdkField,
        (fun value : Value => (value.oid, value.data.bytes))
            (answerOf (lookupGet agent'.table.val) field.oid) =
          (field.oid, integerBytes (field.number ((sample field).word field))) := by
      intro field
      obtain ⟨entry, hentry, hoid, hdata⟩ := hshows field
      dsimp only
      rw [agent'.table.property.answerOf_lookupGet hentry hoid, hoid, hdata.bytes, hvalue field]
    simp only [replyOf, hwords.version, hwords.community, if_true, List.map_map]
    refine congrArg (fun varbinds => Except.ok (Reply.mk _ _ _ _ _ _ varbinds)) ?_
    exact List.map_congr_left fun field _ => hword field

/-- A GET for the temperature and the relays. -/
def twoWords : Request :=
  ⟨communityP, berTypeSnmpGet, snmpVersion2c, 5, 0, 0,
    [(SdkField.parsed .selfTemp).oid, (SdkField.parsed .relay).oid]⟩

/-- A second after the start, a datagram arrives. -/
def askingRound (datagram : Datagram) : Round :=
  { idleRound (some ⟨8, 0⟩) with
    io := { (idleRound none).io with udp := some ⟨some datagram, 1, 161, 8, emptyMib⟩ } }

theorem agent_monitors_firstWord :
    ∃ agent agent' : Agent false, ∃ datagram,
      run (Agent.step ⟨communityP, false⟩ 3) startedAgent firstWord = .next agent ∧
      agent.round ⟨communityP, false⟩ 3 (askingRound datagram) = .next agent' ∧
      ∃ bytes, agent.reply ⟨communityP, false⟩ 3 (askingRound datagram) = some bytes ∧
        ∃ sample : SdkField → SdkParam,
          (∀ field, sample field ∈ agent'.window ∧ sample field ∈ agent'.sensor.samples) ∧
          ∀ received : Mem, received.HoldsAt 0 bytes → (readResponse bytes.length).eval received =
            .ok ⟨snmpVersion2c, communityP, berTypeSnmpResponse, 5, snmpStatusOk, 0,
              [SdkField.parsed .selfTemp, .parsed .relay].map fun field =>
                (field.oid, integerBytes (field.number ((sample field).word field)))⟩ := by
  have hwords : WordsRequest ⟨communityP, false⟩ twoWords
      [.parsed .selfTemp, .parsed .relay] :=
    ⟨rfl, rfl, rfl, by decide, rfl, by decide⟩
  have hfits : (messageBytes twoWords (nullBindings twoWords.oidList)).length ≤ maxPacketSize := by
    decide
  obtain ⟨agent, hrun⟩ : ∃ agent : Agent false,
      run (Agent.step ⟨communityP, false⟩ 3) startedAgent firstWord = .next agent := ⟨_, rfl⟩
  have hagent : agent.server.clients = [] ∧ agent.clock.last = ⟨7, 0⟩ := by
    cases hrun
    exact ⟨rfl, rfl⟩
  -- one second has passed since the start, and the round takes place
  obtain ⟨agent', hround, -⟩ : ∃ agent', agent.round ⟨communityP, false⟩ 3
      (askingRound ⟨_, hfits⟩) = .next agent' ∧ agent'.server.clients = [] :=
    Agent.exists_round ⟨communityP, false⟩ 3 hagent.1 rfl rfl rfl (hagent.2 ▸ valid_second 7)
      (valid_second 8) (by rw [hagent.2]; decide)
  refine ⟨agent, agent', ⟨_, hfits⟩, hrun, hround, ?_⟩
  refine agent_monitors ⟨communityP, false⟩ 3 (fun _ => 0) stillClock (fun _ => []) ⟨0, 0⟩ .empty
    (by decide) (some ⟨7, 0⟩) firstWord ?_ hrun hwords ⟨_, _, rfl, rfl, rfl⟩ hround
  intro event hevent input hinput
  simp only [firstWord, List.mem_cons, List.not_mem_nil, or_false] at hevent
  rcases hevent with rfl | rfl <;> cases hinput

/-! ## Walking the MIB of a running agent -/

/-- One request of a walk: what the agent does before, and the round in which the request
    arrives. -/
structure Leg where
  events : List AgentEvent
  input : Round
  udp : UdpInput

def Leg.asking (leg : Leg) (bytes : List UInt8) : Round :=
  { leg.input with
    io := { leg.input.io with udp := some { leg.udp with datagram := some (.cut bytes) } } }

/-- The version 2 GETNEXT for an OID, with the community of the agent. -/
def followRequest (config : Config) (id : Int32) (oid : Oid) : Request :=
  ⟨config.community, berTypeSnmpGetnext, snmpVersion2c, id, 0, 0, [oid]⟩

/-- The variable that a manager reads from the reply to a single question. -/
def readVariable (bytes : List UInt8) : Option (Oid × List UInt8) :=
  match (readResponse bytes.length).eval (Mem.ofList bytes) with
  | .error _ => none
  | .ok reply => if reply.errorStatus = snmpStatusOk then reply.varbinds.head? else none

/-- A variable that a manager has read, and the agent after the round in which it was sent. The
    manager knows nothing of the agent. -/
structure Seen (demo : Bool) where
  agent : Agent demo
  oid : Oid
  data : List UInt8

/-- The variables that a manager meets who asks for what follows an OID, then for what follows
    the OID in the reply, and so on, until the end of the MIB is reported. -/
def Agent.walk {demo : Bool} (config : Config) (udpSockfd : Int) (id : Int32) :
    List Leg → Agent demo → Oid → Outcome (List (Seen demo))
  | [], _, _ => .next []
  | leg :: legs, agent, oid =>
      (run (Agent.step config udpSockfd) agent leg.events).bind fun agent =>
        let request := followRequest config id oid
        let input := leg.asking (messageBytes request (nullBindings request.oidList))
        (agent.round config udpSockfd input).bind fun agent' =>
          match (agent.reply config udpSockfd input).bind readVariable with
          | none => .next []
          | some (next, data) =>
              if data = mEndOfMibView.bytes then .next [⟨agent', next, data⟩]
              else (agent'.walk config udpSockfd id legs next).bind fun rest =>
                .next (⟨agent', next, data⟩ :: rest)

/-- The OIDs of the MIB that `oid_cmp` puts after an OID. -/
def oidsAfter (demo : Bool) (oid : Oid) : List Oid :=
  ((defaults demo).map MibVariable.oid).filter fun after => decide (oidCmp after oid > 0)

/-- A variable of a walk: a number, under the OID that was due. If the OID belongs to a word, the
    number is that of the word in a sample that the sensor thread has begun to store, and that the
    last full update before the reply has met. -/
structure Met {demo : Bool} (due : Oid) (seen : Seen demo) : Prop where
  oid : seen.oid = due
  number : ∃ v, seen.data = integerBytes v ∧
    ∀ field : SdkField, field.oid = due →
      ∃ sample ∈ seen.agent.window, sample ∈ seen.agent.sensor.samples ∧
        v = field.number (sample.word field)

namespace Refreshed

variable {demo : Bool} {values : List Value}

theorem oids_isAfter (h : Refreshed demo values) (oid : Oid) :
    (values.filter (isAfter oid)).map Value.oid = oidsAfter demo oid := by
  rw [oidsAfter, ← h.oids, List.filter_map]
  rfl

/-- What is answered to a GETNEXT, from the OIDs that are left. -/
theorem nextAnswer_of_oidsAfter (h : Refreshed demo values) (oid : Oid) :
    match oidsAfter demo oid with
    | [] => nextAnswer values oid = ⟨oid, mEndOfMibView⟩
    | after :: rest => nextAnswer values oid ∈ values ∧ (nextAnswer values oid).oid = after ∧
        oidsAfter demo after = rest := by
  -- the MIB ascends, so that the filter keeps its end
  have hasc : Lib.Ascending (fun value => oidKey value.oid) values :=
    h.ascending.imp (oidCmp_neg_iff _ _).mp
  have hnext := nextAnswer_beyond hasc oid
  rw [← h.oids_isAfter oid]
  cases hbeyond : values.filter (isAfter oid) with
  | nil =>
    rw [hbeyond] at hnext
    exact hnext
  | cons value rest =>
    rw [hbeyond] at hnext
    obtain ⟨hvalue, -, hrest⟩ := hnext
    have hmem : value ∈ values.filter (isAfter oid) := hbeyond ▸ List.mem_cons_self
    rw [List.map_cons]
    dsimp only
    rw [hvalue, ← hrest, h.oids_isAfter]
    exact ⟨List.mem_of_mem_filter hmem, rfl, rfl⟩

end Refreshed

theorem fullAnswer_followRequest (config : Config) (id : Int32) (values : List Value) (oid : Oid) :
    fullAnswer config values (followRequest config id oid) =
      ⟨snmpStatusOk, 0, [nextAnswer values oid]⟩ := by
  have hauth : authError config (followRequest config id oid) = none :=
    (authError_eq_none_iff rfl).mpr rfl
  unfold fullAnswer
  rw [hauth]
  rfl

theorem wireRequest_followRequest {config : Config}
    (hproper : 1 ≤ config.community.strlen ∧ config.community.strlen < maxStringSize) (id : Int32)
    {oid : Oid} (hoid : WireOid oid) : WireRequest (followRequest config id oid) where
  version := .inr rfl
  community := hproper
  room := show 1 ≤ maxNrOids by decide
  oids := fun _ h => List.mem_singleton.mp h ▸ hoid

/-- The manager reads the variable of the answer. -/
theorem readVariable_of_read {bytes : List UInt8} {request : Request} {value : Value}
    (h : ∀ received : Mem, received.HoldsAt 0 bytes → (readResponse bytes.length).eval received =
      .ok (replyOf request ⟨snmpStatusOk, 0, [value]⟩)) :
    readVariable bytes = some (value.oid, value.data.bytes) := by
  have hmem : (Mem.ofList bytes).HoldsAt 0 bytes := by simpa using Mem.holdsAt_ofList bytes []
  unfold readVariable
  rw [h _ hmem]
  rfl

theorem integerBytes_ne_end (v : Int32) : integerBytes v ≠ mEndOfMibView.bytes := by
  intro h
  -- the tags differ
  have hhead := congrArg List.head? h
  rw [integerBytes, tlv, List.cons_append, List.head?_cons] at hhead
  cases hhead

/-- A number is known from its bytes. -/
theorem integerBytes_inj {v w : Int32} (h : integerBytes v = integerBytes w) : v = w := by
  rw [← integerValue_integerContent v, Lib.Ber.tlv_inj h, integerValue_integerContent]

/-- A value of the MIB as a manager meets it. -/
theorem Agent.Sampled.met {demo : Bool} {agent : Agent demo} (h : agent.Sampled) {value : Value}
    (hvalue : value ∈ agent.table.val) : Met value.oid ⟨agent, value.oid, value.data.bytes⟩ := by
  obtain ⟨v, hdata⟩ := agent.table.property.integers value hvalue
  obtain ⟨read, hshows, hwindow⟩ := h.shown
  refine ⟨rfl, v, hdata.bytes, fun field hfield => ?_⟩
  obtain ⟨sample, hsample, hread⟩ := hwindow field
  refine ⟨sample, hsample, h.known hsample, ?_⟩
  -- the entry that shows the word is this one
  obtain ⟨entry, hentry, hoid, hnumber⟩ := hshows field
  obtain rfl : value = entry :=
    (agent.table.property.answerOf_lookupGet hvalue hfield.symm).symm.trans
      (agent.table.property.answerOf_lookupGet hentry hoid)
  rw [← hread]
  exact integerBytes_inj (hdata.bytes.symm.trans hnumber.bytes)

/-- The request of a leg arrives as it was sent. -/
theorem Leg.asks_asking (leg : Leg) {request : Request} (hwire : WireRequest request)
    (hlookup : IsLookup request) :
    Agent.Asks (leg.asking (messageBytes request (nullBindings request.oidList))) request := by
  have hfits := (Table.built false).property.served ⟨request.community, false⟩ hwire hlookup
  refine ⟨_, _, rfl, rfl, ?_⟩
  exact Datagram.bytes_cut hfits.fits

theorem Leg.receives_asking (leg : Leg) (bytes : List UInt8) :
    (AgentEvent.round (leg.asking bytes)).Receives := by
  intro input hinput udp hudp
  cases hinput
  cases hudp
  exact nofun

section

variable {demo : Bool} {config : Config} (udpSockfd : Int) (id : Int32)

/-- A walk from any agent. The induction is on its requests: each takes one of the OIDs that are
    left, whatever the agent has done before it. -/
theorem Agent.walk_met
    (hproper : 1 ≤ config.community.strlen ∧ config.community.strlen < maxStringSize)
    (legs : List Leg) (hlegs : ∀ leg ∈ legs, ∀ event ∈ leg.events, event.Receives)
    {agent : Agent demo} (hsampled : agent.Sampled) (hlistening : agent.Listening) {oid : Oid}
    (hoid : WireOid oid) (hlen : (oidsAfter demo oid).length < legs.length)
    {seen : List (Seen demo)}
    (hwalk : agent.walk config udpSockfd id legs oid = .next seen) :
    ∃ found last, seen = found ++ [last] ∧ last.data = mEndOfMibView.bytes ∧
      List.Forall₂ Met (oidsAfter demo oid) found := by
  induction legs generalizing agent oid seen with
  | nil => exact absurd hlen (Nat.not_lt_zero _)
  | cons leg legs ih =>
    obtain ⟨hleg, hlegs⟩ := List.forall_mem_cons.mp hlegs
    rw [Agent.walk] at hwalk
    obtain ⟨middle, hrun, hwalk⟩ := Outcome.bind_eq_next.mp hwalk
    obtain ⟨agent', hround, hwalk⟩ := Outcome.bind_eq_next.mp hwalk
    -- what the agent does before the request leaves it a MIB of samples
    have hmiddle : middle.Sampled := hsampled.steps hrun
    have hready := Agent.listening_run hleg hlistening hrun
    have hsampled' := hmiddle.step (.round _) hround
    -- the reply is the answer to this request
    have hwire := wireRequest_followRequest hproper id hoid
    obtain ⟨bytes, hreply, hread⟩ := Agent.reply_of_asks hready
      (leg.asks_asking hwire (.inr rfl)) hwire (.inr rfl) hround
    have hanswer := agent'.table.property.nextAnswer_of_oidsAfter oid
    rw [fullAnswer_followRequest] at hread
    rw [hreply, Option.bind_some, readVariable_of_read hread] at hwalk
    dsimp only at hwalk
    -- with no OID left, the reply names the end of the MIB
    cases hleft : oidsAfter demo oid with
    | nil =>
      rw [hleft] at hanswer
      rw [hanswer, if_pos rfl] at hwalk
      cases hwalk
      exact ⟨[], _, rfl, rfl, .nil⟩
    | cons after rest =>
      rw [hleft] at hanswer hlen
      obtain ⟨hentry, rfl, hrest⟩ := hanswer
      have hmet := hsampled'.met hentry
      -- a number is not taken for the end of the MIB
      have hnotEnd : (nextAnswer agent'.table.val oid).data.bytes ≠ mEndOfMibView.bytes := by
        obtain ⟨v, hbytes, -⟩ := hmet.number
        exact fun hend => integerBytes_ne_end v (hbytes.symm.trans hend)
      rw [if_neg hnotEnd] at hwalk
      obtain ⟨later, hlater, hwalk⟩ := Outcome.bind_eq_next.mp hwalk
      cases hwalk
      -- the OID of the reply can be sent in the next request
      have hnext : WireOid (nextAnswer agent'.table.val oid).oid :=
        (agent'.table.property.wireValue _ hentry).oid
      have hlistening' := hready.step (leg.receives_asking _) hround
      obtain ⟨found, last, rfl, hend, hfound⟩ := ih hlegs hsampled' hlistening' hnext
        (by rw [hrest]; exact Nat.lt_of_succ_lt_succ hlen) hlater
      rw [hrest] at hfound
      exact ⟨_ :: found, last, rfl, hend, .cons hmet hfound⟩

end

/-- **Walking a running agent.** A manager walks over the MIB, from any OID that the wire
    represents, while the agent does whatever it does before and between the requests, but for an
    error of `recvfrom`. It meets the OIDs of the MIB after its start, in their order and each once,
    then the end of the MIB. Each OID comes with a number; that of a word stands in a sample that
    the sensor thread has begun to store, and that the last full update before the reply has met. -/
theorem agent_walk {demo : Bool} (config : Config)
    (hproper : 1 ≤ config.community.strlen ∧ config.community.strlen < maxStringSize)
    (udpSockfd : Int) (answer : Mem) (stack : Clock) (between : SdkField → List SensorMove)
    (demoinfo : Demoinfo) (udpClient : Client) (hclient : udpClient.size ≤ maxPacketSize)
    (reading : Option Timeval) (id : Int32) (legs : List Leg)
    (hlegs : ∀ leg ∈ legs, ∀ event ∈ leg.events, event.Receives) (start : Oid)
    (hstart : WireOid start) (hlen : (oidsAfter demo start).length < legs.length)
    {seen : List (Seen demo)}
    (hwalk : Agent.walk config udpSockfd id legs
        (.start demo (.start answer noSdkParam) reading stack between demoinfo udpClient) start =
      .next seen) :
    ∃ found last, seen = found ++ [last] ∧ last.data = mEndOfMibView.bytes ∧
      List.Forall₂ Met (oidsAfter demo start) found :=
  Agent.walk_met udpSockfd id hproper legs hlegs (Agent.sampled_start ..) hclient hstart hlen hwalk

/-- A request that arrives a second after the start, while nothing else happens. -/
def quietLeg : Leg := ⟨[], idleRound (some ⟨8, 0⟩), ⟨none, 1, 161, 8, emptyMib⟩⟩

/-- Such requests can be repeated. -/
theorem exists_walk_quietLeg {demo : Bool} (config : Config) (udpSockfd : Int) (id : Int32)
    (n : Nat) {agent : Agent demo} (hclients : agent.server.clients = [])
    (hlast : agent.clock.last.Valid) (hrecent : 7 ≤ agent.clock.last.sec) (oid : Oid) :
    ∃ seen, agent.walk config udpSockfd id (List.replicate n quietLeg) oid = .next seen := by
  induction n generalizing agent oid with
  | zero => exact ⟨[], rfl⟩
  | succ n ih =>
    set input := quietLeg.asking (messageBytes (followRequest config id oid)
      (nullBindings (followRequest config id oid).oidList)) with hinput
    obtain ⟨agent', hround, hclients'⟩ : ∃ agent', agent.round config udpSockfd input =
        .next agent' ∧ agent'.server.clients = [] :=
      Agent.exists_round config udpSockfd hclients rfl rfl rfl hlast (valid_second 8) (by
        change (8 : Int) - 1 - agent.clock.last.sec ≤ 2 ^ 24
        omega)
    -- the last update was at second 8, or it is the one before
    have hlast' : agent'.clock.last.Valid ∧ 7 ≤ agent'.clock.last.sec := by
      obtain ⟨prepared, server, hprepare, -, rfl⟩ := Agent.round_eq_next hround
      have hupdated := (Agent.prepared_of_next hlast rfl (valid_second 8) hprepare).updated
      change prepared.clock.last.Valid ∧ 7 ≤ prepared.clock.last.sec
      split at hupdated
      · rw [hupdated.1]
        exact ⟨valid_second 8, show (7 : Int) ≤ 8 by decide⟩
      · rw [hupdated.1]
        exact ⟨hlast, hrecent⟩
    have hrun : run (Agent.step config udpSockfd) agent quietLeg.events = .next agent := rfl
    rw [List.replicate_succ, Agent.walk, hrun]
    simp only [Outcome.bind, ← hinput, hround]
    split
    · exact ⟨_, rfl⟩
    · split
      · exact ⟨_, rfl⟩
      · rename_i next _ _ _
        obtain ⟨seen, hrest⟩ := ih hclients' hlast'.1 hlast'.2 next
        rw [hrest]
        exact ⟨_, rfl⟩

theorem agent_walk_quietLeg :
    ∃ seen,
      startedAgent.walk ⟨communityP, false⟩ 3 5 (List.replicate 29 quietLeg) ⟨[1, 3, 6], 4⟩ =
        .next seen ∧
      ∃ found last, seen = found ++ [last] ∧ last.data = mEndOfMibView.bytes ∧
        List.Forall₂ Met (oidsAfter false ⟨[1, 3, 6], 4⟩) found := by
  have hstart : WireOid ⟨[1, 3, 6], 4⟩ := ⟨by decide, by decide, by decide, by decide, by decide⟩
  obtain ⟨seen, hwalk⟩ := exists_walk_quietLeg ⟨communityP, false⟩ 3 5 29
    (show startedAgent.server.clients = [] from rfl) (valid_second 7)
    (show (7 : Int) ≤ 7 by decide) ⟨[1, 3, 6], 4⟩
  refine ⟨seen, hwalk, ?_⟩
  refine agent_walk ⟨communityP, false⟩ (by decide) 3 (fun _ => 0) stillClock (fun _ => []) ⟨0, 0⟩
    .empty (by decide) (some ⟨7, 0⟩) 5 (List.replicate 29 quietLeg) ?_ ⟨[1, 3, 6], 4⟩ hstart
    (by decide) hwalk
  intro leg hleg event hevent
  obtain rfl := List.eq_of_mem_replicate hleg
  exact absurd hevent List.not_mem_nil

/-! ## TCP clients -/

/-- A MIB that the agent has had after some of the events of a run. It showed for each word its
    number in a sample that the sensor thread had begun to store, and that the last full update had
    met. -/
def MibOfRun {demo : Bool} (config : Config) (udpSockfd : Int) (start : Agent demo)
    (events : List AgentEvent) (mib : Mib) : Prop :=
  ∃ past agent, past <+: events ∧ run (Agent.step config udpSockfd) start past = .next agent ∧
    agent.table.mib = mib ∧ ∀ field : SdkField,
      ∃ sample ∈ agent.window, sample ∈ agent.sensor.samples ∧
        ∃ value ∈ mib.values, value.oid = field.oid ∧
          HoldsInteger value.data (field.number (sample.word field))

namespace Agent

variable {demo : Bool} {config : Config} {udpSockfd : Int} {start agent agent' : Agent demo}
  {past : List AgentEvent}

/-- The MIB at the end of a run -/
theorem Sampled.mibOfRun (h : agent.Sampled)
    (hrun : run (Agent.step config udpSockfd) start past = .next agent) :
    MibOfRun config udpSockfd start past agent.table.mib := by
  obtain ⟨read, hshows, hwindow⟩ := h.shown
  refine ⟨past, agent, List.prefix_rfl, hrun, rfl, fun field => ?_⟩
  obtain ⟨sample, hsample, hread⟩ := hwindow field
  obtain ⟨value, hvalue, hoid, hdata⟩ := hshows field
  exact ⟨sample, hsample, h.known hsample, value, hvalue, hoid, hread ▸ hdata⟩

/-- What holds of the TCP clients at all times. -/
structure Attended (config : Config) (udpSockfd : Int) (start : Agent demo)
    (past : List AgentEvent) (agent : Agent demo) : Prop where
  sampled : agent.Sampled
  intact : Intact agent.server
  clients : ∀ r ∈ agent.server.clients,
    Proper config (MibOfRun config udpSockfd start past) r.client

theorem Attended.step (h : Attended config udpSockfd start past agent) {event : AgentEvent}
    (hrun : run (Agent.step config udpSockfd) start past = .next agent)
    (hnext : agent.step config udpSockfd event = .next agent') :
    Attended config udpSockfd start (past ++ [event]) agent' := by
  have hsampled := h.sampled.step event hnext
  have hmib := hsampled.mibOfRun (Lib.run_concat hrun hnext)
  -- an earlier MIB stays one of the run
  have hclients : ∀ r ∈ agent.server.clients,
      Proper config (MibOfRun config udpSockfd start (past ++ [event])) r.client := by
    refine fun r hr => (h.clients r hr).mono ?_
    rintro mib ⟨before, earlier, hbefore, hmib⟩
    exact ⟨before, earlier, hbefore.trans (List.prefix_append _ _), hmib⟩
  cases event with
  | sensor m =>
    cases hnext
    exact ⟨hsampled, h.intact, hclients⟩
  | round input =>
    obtain ⟨prepared, server, hprepare, hserver, rfl⟩ := round_eq_next hnext
    refine ⟨hsampled, h.intact.iterate hserver, proper_iterate ?_ h.intact hclients hserver⟩
    rintro mib ⟨⟩
    exact hmib

end Agent

/-- **Replies over TCP.** Let the agent run, in any order of the steps of its two threads. At all
    times, an open TCP client that is to be written to has the reply to a complete message, from the
    MIB that the agent has had at some moment of the run. For each word, that MIB showed a sample
    that the sensor thread had begun to store. -/
theorem agent_tcp_replies {demo : Bool} (config : Config) (udpSockfd : Int) (answer : Mem)
    (stack : Clock) (between : SdkField → List SensorMove) (demoinfo : Demoinfo)
    (udpClient : Client) (reading : Option Timeval) (events : List AgentEvent)
    {agent : Agent demo}
    (hrun : run (Agent.step config udpSockfd)
        (.start demo (.start answer noSdkParam) reading stack between demoinfo udpClient) events =
      .next agent)
    {r : Record} (hr : r ∈ agent.server.clients) (hopen : r.client.sockfd ≠ -1)
    (hout : r.client.outgoing = true) :
    Replying config (MibOfRun config udpSockfd
      (.start demo (.start answer noSdkParam) reading stack between demoinfo udpClient) events)
        r.client := by
  set start : Agent demo :=
    .start demo (.start answer noSdkParam) reading stack between demoinfo udpClient with hstart
  have hattended : Agent.Attended config udpSockfd start events agent := by
    refine Lib.run_keeps_past ?_ (fun _ _ _ _ hpast h hnext => h.step hpast hnext) hrun
    exact ⟨Agent.sampled_start .., intact_start udpClient, fun _ h => absurd h List.not_mem_nil⟩
  exact (hattended.clients r hr).replying hopen hout

/-- A client connects and sends a GET. -/
def connectAndGet : List AgentEvent :=
  [.round { idleRound (some ⟨7, 0⟩) with io := connectRound 5 },
    .round { idleRound (some ⟨7, 0⟩) with io := getRound }]

theorem agent_tcp_replies_connectAndGet :
    ∃ agent r, run (Agent.step ⟨communityP, false⟩ 3) startedAgent connectAndGet = .next agent ∧
      r ∈ agent.server.clients ∧ r.client.sockfd ≠ -1 ∧ r.client.outgoing = true ∧
      Replying ⟨communityP, false⟩ (MibOfRun ⟨communityP, false⟩ 3 startedAgent connectAndGet)
        r.client := by
  have hreaches : (run (Agent.step ⟨communityP, false⟩ 3) startedAgent connectAndGet).reaches
      (fun agent => agent.server.clients.any fun r =>
        decide (r.client.sockfd ≠ -1) && r.client.outgoing) = true := by
    decide +kernel
  obtain ⟨agent, hrun, hany⟩ := Outcome.reaches_eq_true.mp hreaches
  obtain ⟨r, hr, hclient⟩ := List.any_eq_true.mp hany
  obtain ⟨hopen, hout⟩ := Bool.and_eq_true_iff.mp hclient
  have hopen := of_decide_eq_true hopen
  exact ⟨agent, r, hrun, hr, hopen, hout,
    agent_tcp_replies ⟨communityP, false⟩ 3 (fun _ => 0) stillClock (fun _ => []) ⟨0, 0⟩ .empty
      (some ⟨7, 0⟩) connectAndGet hrun hr hopen hout⟩

end SdkSnmpd
