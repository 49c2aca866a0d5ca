import SdkSnmpd.Conversation

/-!
# Two Agents

A datagram carries no proof of its sender. Where the reply of one agent is sent to the port of
another, the second takes it for a request.

## Contents

- `exchange`: two agents that reply to each other.
- `refusal`: the reply to a message that does not pass the community check, read as a request.
- `exchange_endless_iff`: a refused message is passed on for ever if no agent accepts it, and is
  dropped by the first that does.
-/

namespace SdkSnmpd

open Lib (Mem)

/-! ## The exchange -/

/-- An agent on a UDP port. -/
structure Party where
  config : Config
  udpSockfd : Int
  client : Client

/-- A datagram reaches an agent. What it finds otherwise is given by `env`. -/
def Party.receive (party : Party) (bytes : List UInt8) (env : UdpInput) :
    Party × Option (List UInt8) :=
  let call := handleUdpClient party.config party.udpSockfd party.client
    { env with datagram := some (.cut bytes) }
  ({ party with client := call.client }, call.sent)

/-- The replies to a datagram: each is delivered to the party that has not sent it, as long as
    there is one and there is time. -/
def exchange : Party → Party → List UInt8 → List UdpInput → List (List UInt8)
  | _, _, _, [] => []
  | party, other, bytes, env :: envs =>
      match party.receive bytes env with
      | (_, none) => []
      | (party, some reply) => reply :: exchange other party reply envs

/-! ## Refusals -/

/-- The reply to a refused request, as a request. -/
def refusal (errorStatus : Int32) (request : Request) : Request :=
  { request with type := berTypeSnmpResponse, nonRepeaters := errorStatus, maxRepetitions := 0 }

/-- The message for a request, with NULL values. -/
def nullMessage (request : Request) : List UInt8 :=
  messageBytes request (nullBindings request.oidList)

section

variable {config : Config} {request : Request} {errorStatus : Int32}

/-- The error state of a refusal depends on the version only. -/
def refusalStatus (version : Int32) : Int32 :=
  if version = snmpVersion2c then snmpStatusNoAccess else snmpStatusGenErr

theorem authError_eq_some (h : authError config request = some errorStatus) :
    errorStatus = refusalStatus request.version := by
  unfold authError refusalStatus at *
  -- one case for each version and each outcome of the check
  split_ifs at h ⊢ <;> simp_all

theorem refusalStatus_ne_ok (version : Int32) : refusalStatus version ≠ snmpStatusOk := by
  unfold refusalStatus
  split <;> decide

theorem responseBytes_refused (request : Request) :
    responseBytes request ⟨refusalStatus request.version, 0, []⟩ =
      nullMessage (refusal (refusalStatus request.version) request) := by
  have hvalues : valuesToEncode request ⟨refusalStatus request.version, 0, []⟩ =
      nullBindings request.oidList := if_pos (refusalStatus_ne_ok request.version)
  -- a response is a message of its own, with the error state in the place of the non-repeaters
  rw [responseBytes_eq, hvalues, responseRequest, hvalues, nullMessage, refusal, nullBindings,
    List.map_map, Function.comp_def, List.map_id']

theorem WireRequest.refusal (h : WireRequest request) (errorStatus : Int32) :
    WireRequest (SdkSnmpd.refusal errorStatus request) :=
  ⟨h.version, h.community, h.room, h.oids⟩

/-- Messages with NULL values fit into a packet. -/
theorem WireRequest.length_nullMessage_le (h : WireRequest request) :
    (nullMessage request).length ≤ maxPacketSize := by
  refine length_messageBytes_le h.community.2 ?_ ?_
  · rw [nullBindings, List.length_map]
    exact h.room
  · intro value hvalue
    obtain ⟨oid, hoid, rfl⟩ := List.mem_map.mp hvalue
    exact compact_null (h.oids oid hoid)

end

/-! ## One delivery -/

namespace Party

/-- The UDP client is ready for the next datagram. -/
def Listening (party : Party) : Prop := party.client.size ≤ maxPacketSize

variable (party : Party) {request : Request}

/-- An agent that refuses a message replies with the refusal. -/
theorem receive_refused (h : party.Listening) (hwire : WireRequest request)
    (htype : request.type ∈ supportedTypes) (hrefused : authError party.config request ≠ none)
    (env : UdpInput) :
    ∃ party', party.receive (nullMessage request) env =
        (party', some (nullMessage (refusal (refusalStatus request.version) request))) ∧
      party'.config = party.config ∧ party'.Listening := by
  obtain ⟨errorStatus, hauth⟩ := Option.ne_none_iff_exists'.mp hrefused
  obtain rfl := authError_eq_some hauth
  have hresponse : WireResponse ⟨refusalStatus request.version, 0, []⟩ :=
    ⟨Nat.zero_le _, fun _ h => absurd h List.not_mem_nil⟩
  -- the reply is no longer than the message, which fits
  have hreply : (responseBytes request ⟨refusalStatus request.version, 0, []⟩).length ≤
      maxPacketSize := by
    rw [responseBytes_refused]
    exact (hwire.refusal _).length_nullMessage_le
  have hanswer : answer party.config env.mib.values request =
      .reply ⟨refusalStatus request.version, 0, []⟩ := answer_of_authError hauth
  -- the rest is what a UDP round makes of an answer
  have hcall := @handleUdpClient_of_answer party.config request _ _ party.udpSockfd
    (wireMessage_nullBindings hwire htype)
    { env with datagram := some (.cut (nullMessage request)) } _ rfl
    (Datagram.bytes_cut hwire.length_nullMessage_le) hanswer hresponse hreply party.client h
  rw [responseBytes_refused] at hcall
  exact ⟨_, Prod.ext rfl hcall.1, rfl, hcall.2⟩

/-- An agent that accepts the community of a message which is no request drops it. -/
theorem receive_accepted (h : party.Listening) (hwire : WireRequest request)
    (htype : request.type ∈ supportedTypes) (hother : ¬ IsRequestType request.type)
    (haccepted : authError party.config request = none) (env : UdpInput) :
    (party.receive (nullMessage request) env).2 = none := by
  have hfits := hwire.length_nullMessage_le
  have hmessage := wireMessage_nullBindings hwire htype
  set input : UdpInput := { env with datagram := some (.cut (nullMessage request)) } with hinput
  -- the datagram is received as a whole
  obtain ⟨hsize, hpacket⟩ := @fill_of_datagram party.udpSockfd party.client input _ rfl
  rw [Datagram.bytes_cut hfits] at hsize hpacket
  have hdec := eval_decodeSnmpRequest hmessage hfits hpacket
  change (decodeSnmpRequest (nullMessage request).length).eval _ = _ at hdec
  rw [← hsize] at hdec
  -- behind the community check, no handler takes the message
  have hignore : answer party.config input.mib.values request = .ignore := by
    rw [answer_of_authorized haccepted]
    exact dispatch_ignore hother
  change (handleUdpClient party.config party.udpSockfd party.client input).sent = none
  -- the size is no -1, so that the message is looked at
  rw [handleUdpClient, if_neg (ne_toSizeT_neg_one h)]
  simp only [snmp_of_ignore hdec hignore, udpReply, if_true]

end Party

/-! ## Runs of the exchange -/

section

variable {party other : Party} {request : Request}

/-- Two agents that refuse a message pass the refusal on. The induction is on the deliveries: the
    refusal is refused as the message was. -/
theorem exchange_of_refused (h : party.Listening) (h' : other.Listening)
    (hwire : WireRequest request) (htype : request.type ∈ supportedTypes)
    (hrefused : authError party.config request ≠ none)
    (hrefused' : authError other.config request ≠ none) (envs : List UdpInput) :
    exchange party other (nullMessage request) envs =
      List.replicate envs.length
        (nullMessage (refusal (refusalStatus request.version) request)) := by
  induction envs generalizing party other request with
  | nil => rfl
  | cons env envs ih =>
    obtain ⟨party', hreceive, hconfig, hlistening⟩ := party.receive_refused h hwire htype hrefused env
    -- the other agent now takes its turn with the refusal
    have hlater := ih h' hlistening (hwire.refusal (refusalStatus request.version))
      (show berTypeSnmpResponse ∈ supportedTypes by decide) hrefused' (by
        rw [hconfig]
        exact hrefused)
    rw [exchange, hreceive]
    simp only [hlater, List.length_cons, List.replicate_succ]
    rfl

/-- An exchange that an agent has ended. -/
theorem exchange_of_none {bytes : List UInt8} {env : UdpInput}
    (h : (party.receive bytes env).2 = none) (envs : List UdpInput) :
    exchange party other bytes (env :: envs) = [] := by
  obtain ⟨party', hreceive⟩ : ∃ party', party.receive bytes env = (party', none) :=
    ⟨_, Prod.ext rfl h⟩
  rw [exchange, hreceive]

/-- An agent that refuses a message, and one that accepts it: the first reply is the last. -/
theorem exchange_of_accepted (h : party.Listening) (h' : other.Listening)
    (hwire : WireRequest request) (htype : request.type ∈ supportedTypes)
    (hrefused : authError party.config request ≠ none)
    (haccepted : authError other.config request = none) (env : UdpInput) (envs : List UdpInput) :
    exchange party other (nullMessage request) (env :: envs) =
      [nullMessage (refusal (refusalStatus request.version) request)] := by
  obtain ⟨party', hreceive, -, -⟩ := party.receive_refused h hwire htype hrefused env
  rw [exchange, hreceive]
  cases envs with
  | nil => rfl
  | cons env' envs =>
    -- the refusal is a response, which is no request
    have hdropped := other.receive_accepted h' (hwire.refusal (refusalStatus request.version))
      (show berTypeSnmpResponse ∈ supportedTypes by decide)
      not_isRequestType_response haccepted env'
    simp only [exchange_of_none hdropped]

end

/-- **Replies to replies.** A message with NULL values reaches an agent that does not serve it: it
    is no request, or does not pass the community check. All replies that follow are one and the
    same refusal, and they follow each other without end exactly if both agents refuse the
    message. -/
theorem exchange_endless_iff (a b : Party) (ha : a.Listening) (hb : b.Listening) {request : Request}
    (hwire : WireRequest request) (htype : request.type ∈ supportedTypes)
    (hother : ¬ IsRequestType request.type ∨ authError a.config request ≠ none) :
    ((∀ envs, (exchange a b (nullMessage request) envs).length = envs.length) ↔
        authError a.config request ≠ none ∧ authError b.config request ≠ none) ∧
      ∀ envs, ∀ reply ∈ exchange a b (nullMessage request) envs,
        reply = nullMessage (refusal (refusalStatus request.version) request) := by
  by_cases hrefused : authError a.config request = none
  · -- the message is dropped
    have hdropped := a.receive_accepted ha hwire htype
      (hother.resolve_right fun hne => hne hrefused) hrefused
    have hnil : ∀ envs, exchange a b (nullMessage request) envs = [] := by
      intro envs
      cases envs with
      | nil => rfl
      | cons env envs => exact exchange_of_none (hdropped env) envs
    refine ⟨iff_of_false (fun hall => ?_) (fun h => h.1 hrefused), fun envs reply hreply => ?_⟩
    · -- already the first delivery has no reply
      have hone := hall [failedReceive]
      rw [hnil] at hone
      cases hone
    · rw [hnil] at hreply
      exact absurd hreply List.not_mem_nil
  · by_cases hrefused' : authError b.config request = none
    · -- the refusal is dropped
      have hone := exchange_of_accepted ha hb hwire htype hrefused hrefused'
      refine ⟨iff_of_false (fun hall => ?_) (fun h => h.2 hrefused'), fun envs reply hreply => ?_⟩
      · -- the second delivery has no reply
        have htwo := hall [failedReceive, failedReceive]
        rw [hone] at htwo
        cases htwo
      · cases envs with
        | nil => exact absurd hreply List.not_mem_nil
        | cons env envs =>
          rw [hone] at hreply
          exact List.mem_singleton.mp hreply
    · have hall := exchange_of_refused ha hb hwire htype hrefused hrefused'
      refine ⟨iff_of_true (fun envs => ?_) ⟨hrefused, hrefused'⟩, fun envs reply hreply => ?_⟩
      · rw [hall, List.length_replicate]
      · rw [hall] at hreply
        exact List.eq_of_mem_replicate hreply

/-- An agent with the community `q`. -/
def partyQ : Party := ⟨⟨.ofList [0x71], false⟩, 3, .empty⟩

/-- A GET with the community `p` goes back and forth between two agents with the community
    `q`. -/
theorem exchange_endless_iff_partyQ :
    ((∀ envs, (exchange partyQ partyQ (nullMessage plainMessage.request) envs).length =
          envs.length) ↔
        authError partyQ.config plainMessage.request ≠ none ∧
          authError partyQ.config plainMessage.request ≠ none) ∧
      ∀ envs, ∀ reply ∈ exchange partyQ partyQ (nullMessage plainMessage.request) envs,
        reply = nullMessage (refusal (refusalStatus plainMessage.request.version)
          plainMessage.request) :=
  exchange_endless_iff partyQ partyQ (Nat.zero_le _) (Nat.zero_le _) served_plainMessage.wire.wire
    (by decide) (.inr (by decide))

end SdkSnmpd
