import SdkSnmpd.Conversation
import SdkSnmpd.Isolation

/-!
# A Session among Others

A manager that talks to the agent over one of its TCP connections, round by round of the event loop.
What the other clients do in the same rounds is arbitrary.

## Contents

- `written`: what the loop writes to a client over a run.
- `Session`: the rounds of a run, as they concern one connection.
- `tcp_session`: every message is answered once and in its turn.
-/

namespace SdkSnmpd

open Lib

/-! ## What is written -/

/-- What a round writes to a client. -/
def Client.written (client : Client) (input : LoopInput) : List (List UInt8) :=
  if client.outgoing && input.writable client.sockfd then
    (input.sent client.sockfd).toList.map fun n => client.packet.slice 0 n
  else []

/-- What the rounds of a run write to the client at an address. -/
def written (config : Config) (udpSockfd : Int) (address : Nat) :
    Server → List LoopInput → List (List UInt8)
  | _, [] => []
  | s, input :: inputs =>
      (s.clients.filter fun r => r.address = address).flatMap (fun r => r.client.written input) ++
        match iterate config udpSockfd s input with
        | .next s' => written config udpSockfd address s' inputs
        | _ => []

/-! ## The rounds of a session -/

/-- The rounds of a run as they concern one descriptor, the messages that are answered in them, and
    the message whose reply is under way before and after them. The manager waits for each reply,
    and receives it as a whole. -/
inductive Session (config : Config) (fd : Int) :
    Option ManagerMessage → List LoopInput → List ManagerMessage → Option ManagerMessage → Prop
  | done (pending : Option ManagerMessage) : Session config fd pending [] [] pending
  /-- Nothing arrives. -/
  | quiet {input inputs messages last} (hquiet : input.readable fd = false)
      (hrest : Session config fd none inputs messages last) :
      Session config fd none (input :: inputs) messages last
  /-- A message arrives. -/
  | sends {input inputs messages last} (message : ManagerMessage)
      (hserved : message.Served config) (hlong : 25 ≤ message.bytes.length)
      (hmib : input.mib = some message.mib) (hready : input.readable fd = true)
      (harrived : input.arrived fd = some message.bytes)
      (hrest : Session config fd (some message) inputs messages last) :
      Session config fd none (input :: inputs) messages last
  /-- The connection does not take the reply yet. -/
  | waits {input inputs messages last message} (hquiet : input.writable fd = false)
      (hrest : Session config fd (some message) inputs messages last) :
      Session config fd (some message) (input :: inputs) messages last
  /-- The reply is sent. -/
  | takes {input inputs messages last message} (hready : input.writable fd = true)
      (hsent : input.sent fd = some (message.replyBytes config).length)
      (hrest : Session config fd none inputs messages last) :
      Session config fd (some message) (input :: inputs) (message :: messages) last

/-- A client that waits for a message, or has the reply to one. -/
def Client.Awaits (config : Config) (fd : Int) (pending : Option ManagerMessage)
    (client : Client) : Prop :=
  client.sockfd = fd ∧
    match pending with
    | none => client.Idle
    | some message => client.Answering config message ∧ message.Served config

section

variable {config : Config} {fd : Int} {client : Client} {input : LoopInput} {mib : Mib}

theorem Client.Awaits.isOpen {pending : Option ManagerMessage}
    (h : client.Awaits config fd pending) : client.sockfd ≠ -1 := by
  obtain ⟨-, h⟩ := h
  cases pending with
  | none => exact h.isOpen
  | some message => exact h.1.isOpen

/-! ## One round -/

/-- Nothing arrives. -/
theorem alone_quiet (hmib : input.mib = some mib) (h : client.Awaits config fd none)
    (hquiet : input.readable fd = false) :
    client.alone config input = client ∧ client.written input = [] := by
  obtain ⟨rfl, hidle⟩ := h
  -- an idle client is only looked at for reading
  simp [Client.alone, Client.written, hmib, hidle.listening, hquiet]

/-- A message arrives. -/
theorem alone_sends (h : client.Awaits config fd none) {message : ManagerMessage}
    (hserved : message.Served config) (hlong : 25 ≤ message.bytes.length)
    (hmib : input.mib = some message.mib) (hready : input.readable fd = true)
    (harrived : input.arrived fd = some message.bytes) :
    (client.alone config input).Awaits config fd (some message) ∧ client.written input = [] := by
  obtain ⟨rfl, hidle⟩ := h
  -- the read completes the message, so that it is answered at once
  have hanswering := answering_of_message hserved hlong hidle input.now
  have halone : client.alone config input = (handleTcpClientRead config message.mib.values client
      (some message.bytes) input.now).1 := by
    simp [Client.alone, hmib, hidle.listening, hready, harrived]
  rw [halone]
  refine ⟨⟨?_, hanswering, hserved⟩, by simp [Client.written, hidle.listening]⟩
  -- a read keeps the descriptor or closes it, and this client is open
  exact (handleTcpClientRead_sockfd config message.mib.values client (some message.bytes)
    input.now).resolve_left hanswering.isOpen

/-- The connection does not take the reply yet. -/
theorem alone_waits (hmib : input.mib = some mib) {message : ManagerMessage}
    (h : client.Awaits config fd (some message)) (hquiet : input.writable fd = false) :
    client.alone config input = client ∧ client.written input = [] := by
  obtain ⟨rfl, hanswering, -⟩ := h
  -- a client with a reply is only looked at for writing
  simp [Client.alone, Client.written, hmib, hanswering.outgoing, hquiet]

/-- The reply is sent. -/
theorem alone_takes (hmib : input.mib = some mib) {message : ManagerMessage}
    (h : client.Awaits config fd (some message)) (hready : input.writable fd = true)
    (hsent : input.sent fd = some (message.replyBytes config).length) :
    (client.alone config input).Awaits config fd none ∧
      client.written input = [message.replyBytes config] := by
  obtain ⟨rfl, hanswering, -⟩ := h
  rw [← hanswering.size] at hsent
  have halone : client.alone config input = handleTcpClientWrite client (some client.size) := by
    simp [Client.alone, hmib, hanswering.outgoing, hready, hsent]
  have hwritten : client.written input = [client.packet.slice 0 client.size] := by
    simp [Client.written, hanswering.outgoing, hready, hsent]
  rw [halone, hwritten, hanswering.size, hanswering.packet]
  refine ⟨⟨?_, hanswering.size ▸ hanswering.idle⟩, rfl⟩
  -- `send` takes the whole packet, which leaves the record idle
  simp [handleTcpClientWrite, hanswering.size]

end

/-! ## The run -/

/-- An address belongs to one record. -/
theorem filter_address {s : Server} (h : Intact s) {r : Record} (hr : r ∈ s.clients) :
    (s.clients.filter fun other => other.address = r.address) = [r] := by
  classical
  have hdistinct : (s.clients.map Record.address).Nodup := h.distinct
  -- records with one address are one record
  have hsame : (s.clients.filter fun other => other.address = r.address) =
      s.clients.filter (· == r) := by
    refine List.filter_congr fun other hother => Bool.eq_iff_iff.mpr ?_
    rw [decide_eq_true_iff, beq_iff_eq]
    exact ⟨List.inj_on_of_nodup_map hdistinct hother hr, congrArg Record.address⟩
  rw [hsame, List.filter_beq, List.count_eq_one_of_mem (hdistinct.of_map _) hr]
  rfl

section

variable {config : Config} {udpSockfd : Int}

/-- What a run writes, from its first round on. -/
theorem written_cons {s middle : Server} {input : LoopInput} (hintact : Intact s) {r : Record}
    (hr : r ∈ s.clients) (hround : iterate config udpSockfd s input = .next middle)
    (inputs : List LoopInput) :
    written config udpSockfd r.address s (input :: inputs) =
      r.client.written input ++ written config udpSockfd r.address middle inputs := by
  rw [written, filter_address hintact hr, hround, List.flatMap_singleton]

/-- A round takes place with a MIB. -/
theorem exists_mib_of_iterate {s s' : Server} {input : LoopInput}
    (h : iterate config udpSockfd s input = .next s') : ∃ mib, input.mib = some mib := by
  obtain ⟨served, hserved, -⟩ := Outcome.bind_eq_next.mp h
  obtain ⟨mib, new, hmib, -⟩ := handleEvents_clients hserved
  exact ⟨mib, hmib⟩

/-- A run from any state of the session. The induction is on the session: each of its rounds leaves
    the client listed. -/
theorem written_of_session {fd : Int} {pending last : Option ManagerMessage}
    {inputs : List LoopInput} {messages : List ManagerMessage}
    (hsession : Session config fd pending inputs messages last) {s s' : Server}
    (hintact : Intact s) {r : Record} (hr : r ∈ s.clients)
    (hclient : r.client.Awaits config fd pending)
    (hrun : run (iterate config udpSockfd) s inputs = .next s') :
    List.Forall₂ (fun message sent => AnsweredBy config message (some sent)) messages
        (written config udpSockfd r.address s inputs) ∧
      ∃ r' ∈ s'.clients, r'.address = r.address ∧ r'.client.Awaits config fd last := by
  induction hsession generalizing s r with
  | done pending =>
    cases hrun
    exact ⟨.nil, r, hr, rfl, hclient⟩
  | @quiet input inputs messages last hquiet hrest ih =>
    obtain ⟨middle, hround, hrun⟩ := Outcome.bind_eq_next.mp hrun
    obtain ⟨mib, hmib⟩ := exists_mib_of_iterate hround
    -- the record is as it was
    obtain ⟨halone, hwritten⟩ := alone_quiet hmib hclient hquiet
    have hclient' : (r.client.alone config input).Awaits config fd none := by
      rw [halone]
      exact hclient
    have hlisted := (roundTo_of_iterate hround).stays r hr hclient'.isOpen
    rw [written_cons hintact hr hround, hwritten, List.nil_append]
    exact ih (r := r.alone config input) (hintact.iterate hround) hlisted hclient' hrun
  | @sends input inputs messages last message hserved hlong hmib hready harrived hrest ih =>
    obtain ⟨middle, hround, hrun⟩ := Outcome.bind_eq_next.mp hrun
    -- nothing is written in the round in which the message is read
    obtain ⟨hclient', hwritten⟩ := alone_sends hclient hserved hlong hmib hready harrived
    have hlisted := (roundTo_of_iterate hround).stays r hr hclient'.isOpen
    rw [written_cons hintact hr hround, hwritten, List.nil_append]
    exact ih (r := r.alone config input) (hintact.iterate hround) hlisted hclient' hrun
  | @waits input inputs messages last message hquiet hrest ih =>
    obtain ⟨middle, hround, hrun⟩ := Outcome.bind_eq_next.mp hrun
    obtain ⟨mib, hmib⟩ := exists_mib_of_iterate hround
    -- the reply stays where it is
    obtain ⟨halone, hwritten⟩ := alone_waits hmib hclient hquiet
    have hclient' : (r.client.alone config input).Awaits config fd (some message) := by
      rw [halone]
      exact hclient
    have hlisted := (roundTo_of_iterate hround).stays r hr hclient'.isOpen
    rw [written_cons hintact hr hround, hwritten, List.nil_append]
    exact ih (r := r.alone config input) (hintact.iterate hround) hlisted hclient' hrun
  | @takes input inputs messages last message hready hsent hrest ih =>
    obtain ⟨middle, hround, hrun⟩ := Outcome.bind_eq_next.mp hrun
    obtain ⟨mib, hmib⟩ := exists_mib_of_iterate hround
    have hserved : message.Served config := hclient.2.2
    obtain ⟨hclient', hwritten⟩ := alone_takes hmib hclient hready hsent
    have hlisted := (roundTo_of_iterate hround).stays r hr hclient'.isOpen
    -- the reply is written in this round, before all those of the later rounds
    obtain ⟨hreplies, hlast⟩ := ih (r := r.alone config input) (hintact.iterate hround) hlisted
      hclient' hrun
    rw [written_cons hintact hr hround, hwritten, List.singleton_append]
    exact ⟨.cons hserved.answeredBy hreplies, hlast⟩

end

/-- **A session among others.** In a run of the loop, let a manager use an idle connection, message
    by message, while the other clients do whatever they do. What the loop writes to the connection
    is one answer to each message, in their order, and the connection stays listed. -/
theorem tcp_session (config : Config) (udpSockfd : Int) (udpClient : Client)
    (before : List LoopInput) {s s' : Server}
    (hbefore : run (iterate config udpSockfd) (Server.start udpClient) before = .next s)
    {r : Record} (hr : r ∈ s.clients) (hidle : r.client.Idle) {inputs : List LoopInput}
    {messages : List ManagerMessage} {last : Option ManagerMessage}
    (hsession : Session config r.client.sockfd none inputs messages last)
    (hrun : run (iterate config udpSockfd) s inputs = .next s') :
    List.Forall₂ (fun message sent => AnsweredBy config message (some sent)) messages
        (written config udpSockfd r.address s inputs) ∧
      ∃ r' ∈ s'.clients, r'.address = r.address ∧
        r'.client.Awaits config r.client.sockfd last := by
  -- the addresses of the records are distinct in every state that is reached
  have hintact : Intact s := run_keeps (fun _ _ _ _ h hnext => h.iterate hnext)
    (fun _ _ => trivial) (intact_start udpClient) hbefore
  exact written_of_session hsession hintact hr ⟨rfl, hidle⟩ hrun

/-- Every client sends a message. -/
def askRound : LoopInput :=
  { connectRound 0 with
    readable := fun _ => true, connection := none, arrived := fun _ => some plainMessage.bytes }

/-- Every client receives its reply. -/
def takeRound : LoopInput :=
  { connectRound 0 with
    writable := fun _ => true, connection := none
    sent := fun _ => some (plainMessage.replyBytes ⟨communityP, false⟩).length }

/-- A message is answered, and another one is received. -/
theorem tcp_session_askRound :
    ∃ s s' r, run (iterate ⟨communityP, false⟩ 3) (Server.start Client.empty)
        [connectRound 5, connectRound 6] = .next s ∧ r ∈ s.clients ∧ r.client.Idle ∧
      run (iterate ⟨communityP, false⟩ 3) s [askRound, takeRound, askRound] = .next s' ∧
      List.Forall₂ (fun message sent => AnsweredBy ⟨communityP, false⟩ message (some sent))
          [plainMessage] (written ⟨communityP, false⟩ 3 r.address s
            [askRound, takeRound, askRound]) ∧
        ∃ r' ∈ s'.clients, r'.address = r.address ∧
          r'.client.Awaits ⟨communityP, false⟩ r.client.sockfd (some plainMessage) := by
  have hreaches : (run (iterate ⟨communityP, false⟩ 3) (Server.start Client.empty)
      [connectRound 5, connectRound 6]).reaches (fun s =>
        (s.clients.any fun r => decide (r.client.sockfd ≠ -1) && decide (r.client.size = 0) &&
          !r.client.outgoing) &&
        (run (iterate ⟨communityP, false⟩ 3) s [askRound, takeRound, askRound]).reaches
          fun _ => true) = true := by
    decide +kernel
  obtain ⟨s, hbefore, hboth⟩ := Outcome.reaches_eq_true.mp hreaches
  obtain ⟨hany, hlater⟩ := Bool.and_eq_true_iff.mp hboth
  obtain ⟨r, hr, hclient⟩ := List.any_eq_true.mp hany
  simp only [Bool.and_eq_true, decide_eq_true_eq, Bool.not_eq_true'] at hclient
  have hidle : r.client.Idle := ⟨hclient.1.1, hclient.1.2, hclient.2⟩
  obtain ⟨s', hrun, -⟩ := Outcome.reaches_eq_true.mp hlater
  -- both messages are the same, and meet the client in the same way
  have hasks : ∀ {inputs messages last},
      Session ⟨communityP, false⟩ r.client.sockfd (some plainMessage) inputs messages last →
      Session ⟨communityP, false⟩ r.client.sockfd none (askRound :: inputs) messages last :=
    fun hrest => .sends plainMessage served_plainMessage (by decide) rfl rfl rfl hrest
  exact ⟨s, s', r, hbefore, hr, hidle, hrun, tcp_session ⟨communityP, false⟩ 3 Client.empty
    [connectRound 5, connectRound 6] hbefore hr hidle
    (hasks (.takes rfl rfl (hasks (.done _)))) hrun⟩

end SdkSnmpd
