import SdkSnmpd.ClientTable

/-!
# One Client among Many

What the event loop does for a TCP client, and what the other clients have to do with it.

## Contents

- `Client.alone`: a round for a client that is served by itself.
- `tcp_isolated`: over a whole run, a record is what the rounds make of it alone, and it is listed
  as long as its connection is open.
- `tcp_replies`: a client that is to be written to has the reply to a complete message.
-/

namespace SdkSnmpd

open Lib

/-! ## A client by itself -/

/-- What a round does for a client. `select` has watched its descriptor. -/
def Client.alone (config : Config) (client : Client) (input : LoopInput) : Client :=
  match input.mib with
  | none => client
  | some mib =>
      if client.outgoing then
        if input.writable client.sockfd then
          handleTcpClientWrite client (input.sent client.sockfd)
        else client
      else
        if input.readable client.sockfd then
          (handleTcpClientRead config mib.values client (input.arrived client.sockfd) input.now).1
        else client

/-- A record after such a round. -/
def Record.alone (config : Config) (r : Record) (input : LoopInput) : Record :=
  ⟨r.address, r.client.alone config input⟩

section

variable {config : Config} {udpSockfd : Int} {s s' : Server} {input : LoopInput}

/-- A listed client is watched for what it waits for. -/
theorem watched_self {clients : List Record} {r : Record} (hr : r ∈ clients) :
    watched clients r.client.outgoing r.client.sockfd = true :=
  List.any_eq_true.mpr ⟨r, hr, by simp⟩

/-- Served together with others, a client is served as if alone. -/
theorem serveClient_eq_alone {mib : Mib} (hmib : input.mib = some mib) {r : Record}
    (hr : r ∈ s.clients) :
    serveClient config mib.values input
        (fun fd => watched s.clients false fd && input.readable fd)
        (fun fd => watched s.clients true fd && input.writable fd) r = r.alone config input := by
  have hwatched := watched_self hr
  unfold serveClient Record.alone Client.alone
  rw [hmib]
  cases hout : r.client.outgoing with
  | true =>
    rw [hout] at hwatched
    simp [hwatched]
  | false =>
    rw [hout] at hwatched
    simp [hwatched]

/-- The connect handler, where the list stays inside its array: nothing happens, or a record is
    filled out. -/
theorem handleTcpConnect_next {clients clients' : List Record} {heap heap' : Heap}
    {connection : Connection} {now : Int}
    (h : handleTcpConnect clients heap connection now = .next (clients', heap')) :
    ∃ new, clients' = clients ++ new ∧ heap.next ≤ heap'.next ∧
      ∀ r ∈ new, r.address = heap.next ∧ r.client.size = 0 ∧ r.client.outgoing = false := by
  unfold handleTcpConnect at h
  cases hfd : connection.fd with
  | none =>
    rw [hfd] at h
    cases h
    exact ⟨[], (List.append_nil _).symm, Nat.le_refl _, fun _ h => absurd h List.not_mem_nil⟩
  | some fd =>
    simp only [hfd] at h
    split at h
    · cases h
      exact ⟨[], (List.append_nil _).symm, Nat.le_refl _, fun _ h => absurd h List.not_mem_nil⟩
    · split at h
      · -- what the search returns for an oldest client is never an entry of the list
        rw [findOldestClient_eq] at h
        split_ifs at h
        simp at h
      · split at h
        · cases h
        · cases h
          refine ⟨_, rfl, Nat.le_succ _, fun r hr => ?_⟩
          -- a record that is filled out has the next address, and nothing to send
          obtain rfl := List.mem_singleton.mp hr
          exact ⟨rfl, rfl, rfl⟩

/-- The clients before the clean-up: those that were there, and new ones, all of them served. -/
theorem handleEvents_clients (h : handleEvents config udpSockfd s input = .next s') :
    ∃ mib new, input.mib = some mib ∧ s.heap.next ≤ s'.heap.next ∧
      (∀ r ∈ new, r.address = s.heap.next ∧ r.client.size = 0 ∧ r.client.outgoing = false) ∧
      s'.clients = (s.clients ++ new).map (serveClient config mib.values input
        (fun fd => watched s.clients false fd && input.readable fd)
        (fun fd => watched s.clients true fd && input.writable fd)) := by
  unfold handleEvents at h
  split_ifs at h
  cases hmib : input.mib with
  | none => rw [hmib] at h; cases h
  | some mib =>
    rw [hmib] at h
    obtain ⟨⟨clients, heap⟩, hconnected, h⟩ := Outcome.bind_eq_next.mp h
    cases h
    -- only a connection adds to the list
    obtain ⟨new, rfl, hnext, hnew⟩ : ∃ new, clients = s.clients ++ new ∧
        s.heap.next ≤ heap.next ∧ ∀ r ∈ new,
          r.address = s.heap.next ∧ r.client.size = 0 ∧ r.client.outgoing = false := by
      cases hconnection : input.connection with
      | none =>
        rw [hconnection] at hconnected
        cases hconnected
        exact ⟨[], (List.append_nil _).symm, Nat.le_refl _, fun _ h => absurd h List.not_mem_nil⟩
      | some connection =>
        rw [hconnection] at hconnected
        exact handleTcpConnect_next hconnected
    exact ⟨mib, new, rfl, hnext, hnew, rfl⟩

/-! ## One round -/

theorem next_freeAll (heap : Heap) (addresses : List Nat) :
    (heap.freeAll addresses).next = heap.next := by
  induction addresses generalizing heap with
  | nil => rfl
  | cons address addresses ih => exact ih (heap.free address)

theorem next_cleaned (s : Server) : (cleaned s).heap.next = s.heap.next := by
  simp only [cleaned, cleanUp_eq]
  exact next_freeAll _ _

/-- What a round does to the records, up to those that it removes: each is served by itself. -/
structure RoundTo (config : Config) (input : LoopInput) (s s' : Server) : Prop where
  /-- A client that is still open stays listed. -/
  stays : ∀ r ∈ s.clients, (r.alone config input).client.sockfd ≠ -1 →
    r.alone config input ∈ s'.clients
  /-- A record of the list was there before, or is new. -/
  origin : ∀ r' ∈ s'.clients, (∃ r ∈ s.clients, r' = r.alone config input) ∨
    s.heap.next ≤ r'.address
  next : s.heap.next ≤ s'.heap.next

theorem roundTo_of_iterate (h : iterate config udpSockfd s input = .next s') :
    RoundTo config input s s' := by
  obtain ⟨served, hserved, -⟩ := Outcome.bind_eq_next.mp h
  rw [iterate_of_next hserved] at h
  cases h
  obtain ⟨mib, new, hmib, hnext, hnew, hclients⟩ := handleEvents_clients hserved
  have hserve := fun r hr => @serveClient_eq_alone config s input mib hmib r hr
  constructor
  · intro r hr hopen
    -- an open client is not dead, and is kept
    have hmem : r.alone config input ∈ served.clients.filter fun r => !isDead r := by
      rw [← hserve r hr] at hopen ⊢
      rw [hclients]
      refine List.mem_filter.mpr ⟨List.mem_map_of_mem (List.mem_append_left _ hr), ?_⟩
      rw [(isDead_eq_false _).mpr hopen]
      rfl
    rw [← Sweep.filter_kept] at hmem
    rw [cleaned_clients]
    exact List.mem_of_mem_filter hmem
  · intro r' hr'
    rw [cleaned_clients] at hr'
    -- the clean-up only reorders and removes
    have hmem : r' ∈ served.clients :=
      (Sweep.perm isDead served.clients).mem_iff.mp (List.mem_append_left _ hr')
    rw [hclients] at hmem
    obtain ⟨r, hr, rfl⟩ := List.mem_map.mp hmem
    rcases List.mem_append.mp hr with hold | hlater
    · exact .inl ⟨r, hold, hserve r hold⟩
    · exact .inr (hnew r hlater).1.ge
  · rw [next_cleaned]
    exact hnext

/-- A record that is not listed does not come back. -/
theorem RoundTo.gone (h : RoundTo config input s s') {a : Nat} (hbound : a < s.heap.next)
    (hgone : a ∉ addresses s.clients) : a ∉ addresses s'.clients := by
  intro hmem
  obtain ⟨r', hr', rfl⟩ := List.mem_map.mp hmem
  -- a new record has an address that was not given out before
  rcases h.origin r' hr' with ⟨r, hr, rfl⟩ | hnew
  · exact hgone (show r.address ∈ addresses s.clients from List.mem_map_of_mem hr)
  · omega

/-- A listed record is what the round makes of it alone. -/
theorem RoundTo.eq_alone (h : RoundTo config input s s') (hintact : Intact s) {r r' : Record}
    (hr : r ∈ s.clients) (hr' : r' ∈ s'.clients) (haddress : r'.address = r.address) :
    r' = r.alone config input := by
  have hbound : r.address < s.heap.next :=
    hintact.heap.bound _ (.inl (hintact.listed _ (List.mem_map_of_mem hr)))
  rcases h.origin r' hr' with ⟨r₀, hr₀, rfl⟩ | hnew
  · -- no two records have one address
    have hsame : r₀ = r := List.inj_on_of_nodup_map hintact.distinct hr₀ hr haddress
    rw [hsame]
  · omega

/-! ## Runs -/

/-- A record that is not listed does not come back in any run. -/
theorem gone_of_run {inputs : List LoopInput}
    (hrun : run (iterate config udpSockfd) s inputs = .next s') {a : Nat}
    (hbound : a < s.heap.next) (hgone : a ∉ addresses s.clients) : a ∉ addresses s'.clients := by
  have hall : ∀ input ∈ inputs, True := fun _ _ => trivial
  have hkeeps : a < s'.heap.next ∧ a ∉ addresses s'.clients := by
    refine run_keeps (P := fun s => a < s.heap.next ∧ a ∉ addresses s.clients) ?_ hall
      ⟨hbound, hgone⟩ hrun
    intro s input s' _ h hnext
    have hround := roundTo_of_iterate hnext
    -- addresses are only given out upwards
    exact ⟨h.1.trans_le hround.next, hround.gone h.1 h.2⟩
  exact hkeeps.2

end

/-- **Isolation.** Over a whole run, a record is what the rounds make of it alone, whoever else is
    connected: if it is listed at the end, it is so with that client, and if the client is open
    after every round, it is listed. The induction is on the run. -/
theorem tcp_isolated (config : Config) (udpSockfd : Int) {s s' : Server} (hintact : Intact s)
    (inputs : List LoopInput) (hrun : run (iterate config udpSockfd) s inputs = .next s')
    {r : Record} (hr : r ∈ s.clients) :
    (∀ r' ∈ s'.clients, r'.address = r.address →
        r'.client = inputs.foldl (Client.alone config) r.client) ∧
      ((∀ k ≤ inputs.length,
          ((inputs.take k).foldl (Client.alone config) r.client).sockfd ≠ -1) →
        ∃ r' ∈ s'.clients, r'.address = r.address) := by
  induction inputs generalizing s r with
  | nil =>
    cases hrun
    refine ⟨fun r' hr' haddress => ?_, fun _ => ⟨r, hr, rfl⟩⟩
    rw [List.inj_on_of_nodup_map hintact.distinct hr' hr haddress]
    rfl
  | cons input inputs ih =>
    obtain ⟨middle, hround, hrun⟩ := Outcome.bind_eq_next.mp hrun
    have hto := roundTo_of_iterate hround
    by_cases hlisted : r.alone config input ∈ middle.clients
    · -- the rest of the run goes on with what the round has made of the record
      obtain ⟨hclient, hopen⟩ := ih (hintact.iterate hround) hrun hlisted
      refine ⟨hclient, fun hall => hopen fun k hk => ?_⟩
      exact hall (k + 1) (Nat.succ_le_succ hk)
    · -- the record is removed, and does not come back
      have hgone : r.address ∉ addresses middle.clients := by
        intro hmem
        obtain ⟨r', hr', haddress⟩ := List.mem_map.mp hmem
        exact hlisted (hto.eq_alone hintact hr hr' haddress ▸ hr')
      have hbound : r.address < s.heap.next :=
        hintact.heap.bound _ (.inl (hintact.listed _ (List.mem_map_of_mem hr)))
      have hnever := gone_of_run hrun (hbound.trans_le hto.next) hgone
      refine ⟨fun r' hr' haddress => ?_, fun hall => ?_⟩
      · exact absurd (haddress ▸ List.mem_map_of_mem hr') hnever
      · exact absurd (hto.stays r hr (hall 1 (Nat.succ_le_succ (Nat.zero_le _)))) hlisted

/-- A round in which every client sends a GET. -/
def getRound : LoopInput :=
  { connectRound 0 with
    readable := fun _ => true, connection := none, arrived := fun _ => some paddedGet }

/-- A client sends a GET after another has come. -/
theorem tcp_isolated_getRound :
    ∃ s s' r, run (iterate ⟨communityP, false⟩ 3) (Server.start Client.empty) [connectRound 5] =
        .next s ∧
      run (iterate ⟨communityP, false⟩ 3) s [connectRound 6, getRound] = .next s' ∧ r ∈ s.clients ∧
      (∀ r' ∈ s'.clients, r'.address = r.address →
          r'.client =
            [connectRound 6, getRound].foldl (Client.alone ⟨communityP, false⟩) r.client) ∧
        ((∀ k ≤ 2, (([connectRound 6, getRound].take k).foldl
            (Client.alone ⟨communityP, false⟩) r.client).sockfd ≠ -1) →
          ∃ r' ∈ s'.clients, r'.address = r.address) := by
  have hreaches : (run (iterate ⟨communityP, false⟩ 3) (Server.start Client.empty)
      [connectRound 5]).reaches (fun s => s.clients.any (fun _ => true) &&
        (run (iterate ⟨communityP, false⟩ 3) s [connectRound 6, getRound]).reaches
          fun _ => true) = true := by
    decide +kernel
  obtain ⟨s, hfirst, hboth⟩ := Outcome.reaches_eq_true.mp hreaches
  obtain ⟨hlisted, hlater⟩ := Bool.and_eq_true_iff.mp hboth
  obtain ⟨r, hr, -⟩ := List.any_eq_true.mp hlisted
  obtain ⟨s', hrun, -⟩ := Outcome.reaches_eq_true.mp hlater
  have hall : ∀ input ∈ [connectRound 5], True := fun _ _ => trivial
  have hintact : Intact s := run_keeps (fun _ _ _ _ h hnext => h.iterate hnext) hall
    (intact_start Client.empty) hfirst
  exact ⟨s, s', r, hfirst, hrun, hr,
    tcp_isolated ⟨communityP, false⟩ 3 hintact [connectRound 6, getRound] hrun hr⟩

/-! ## What clients are sent -/

/-- The client has the reply to a complete message, from one of certain MIBs. -/
def Replying (config : Config) (source : Mib → Prop) (client : Client) : Prop :=
  ∃ (mib : Mib) (received : Client) (request : Request) (pos : Nat) (response : Response),
    source mib ∧ received.size ≤ maxPacketSize ∧ snmpPacketComplete received = .ok true ∧
      (decodeSnmpRequest received.size).eval received.packet = .ok (request, pos) ∧
      answer config mib.values request = .reply response ∧
      client.Carries (responseContent request response)

section

variable {config : Config} {source : Mib → Prop}

/-- A packet is answered with the reply to it, or the connection is closed. -/
theorem replying_of_handle {mib : Mib} (hmib : source mib) {client : Client}
    (hsize : client.size ≤ maxPacketSize) (hcomplete : snmpPacketComplete client = .ok true) :
    (handleTcpPacket config mib.values client).1.sockfd = -1 ∨
      Replying config source (handleTcpPacket config mib.values client).1 := by
  unfold handleTcpPacket
  set muted : Client := { client with outgoing := false }
  cases hdec : (decodeSnmpRequest muted.size).eval muted.packet with
  | error e =>
    rw [snmp_of_rejected hdec]
    exact .inl rfl
  | ok result =>
    obtain ⟨request, pos⟩ := result
    cases hanswer : answer config mib.values request with
    | fail e =>
      rw [snmp_of_fail hdec hanswer]
      exact .inl rfl
    | ignore =>
      rw [snmp_of_ignore hdec hanswer]
      exact .inl rfl
    | reply response =>
      rw [snmp_of_reply hdec hanswer]
      have hin := answer_encoderInput hsize (decodeSnmpRequest_accepted hsize hdec) hanswer
      have hcarries := encodeSnmpResponse_carries hin muted
      rcases hencode : encodeSnmpResponse request response muted with ⟨e | u, client'⟩
      · exact .inl rfl
      · rw [hencode] at hcarries
        obtain ⟨hlength, hbytes⟩ := hcarries rfl
        -- a response is never empty
        have hne : client'.size ≠ 0 := by
          rw [hlength, responseContent, length_element]
          omega
        dsimp only
        rw [if_neg hne]
        exact .inr ⟨mib, client, request, pos, response, hmib, hsize, hcomplete, hdec, hanswer,
          hlength, hbytes⟩

/-- What a client may be in the course of a run. -/
def Proper (config : Config) (source : Mib → Prop) (client : Client) : Prop :=
  client.sockfd = -1 ∨ client.outgoing = false ∨ Replying config source client

/-- The MIBs may be more. -/
theorem Proper.mono {source' : Mib → Prop} (hsource : ∀ mib, source mib → source' mib)
    {client : Client} (h : Proper config source client) : Proper config source' client := by
  refine h.imp_right (Or.imp_right ?_)
  rintro ⟨mib, received, request, pos, response, hmib, hreply⟩
  exact ⟨mib, received, request, pos, response, hsource mib hmib, hreply⟩

/-- A client that is read from. -/
theorem proper_of_read {mib : Mib} (hmib : source mib) {client : Client}
    (hsize : client.size ≤ maxPacketSize) (hlistening : client.outgoing = false)
    (arrived : Option (List UInt8)) (now : Int) :
    Proper config source (handleTcpClientRead config mib.values client arrived now).1 := by
  unfold handleTcpClientRead
  cases arrived with
  | none => exact .inl rfl
  | some bytes =>
    simp only
    split_ifs
    · exact .inl rfl
    · have htake := List.length_take_le (maxPacketSize - client.size) bytes
      have hreceived : (client.receive (bytes.take (maxPacketSize - client.size)) now).size ≤
          maxPacketSize := by
        simp only [Client.receive]
        omega
      split
      · exact .inl rfl
      · -- more is waited for
        exact .inr (.inl hlistening)
      · rename_i hcomplete
        rcases @replying_of_handle config source mib hmib _ hreceived hcomplete with
          hclosed | hreplying
        · exact .inl hclosed
        · exact .inr (.inr hreplying)

/-- Serving a client, whatever `select` has found. -/
theorem proper_serveClient {mib : Mib} (hmib : source mib) (input : LoopInput)
    (rfds wfds : Int → Bool) {r : Record} (hsize : r.client.size ≤ maxPacketSize)
    (h : Proper config source r.client) :
    Proper config source (serveClient config mib.values input rfds wfds r).client := by
  unfold serveClient
  dsimp only
  cases hout : r.client.outgoing with
  | true =>
    rw [if_pos rfl]
    split
    · unfold handleTcpClientWrite
      split
      · exact .inl rfl
      · split
        · exact .inl rfl
        · exact .inr (.inl rfl)
    · exact h
  | false =>
    rw [if_neg Bool.false_ne_true]
    split
    · exact proper_of_read hmib hsize hout _ _
    · exact h

/-- **One round** keeps all clients proper. -/
theorem proper_iterate {udpSockfd : Int} {s s' : Server} {input : LoopInput}
    (hmib : ∀ mib, input.mib = some mib → source mib) (hintact : Intact s)
    (h : ∀ r ∈ s.clients, Proper config source r.client)
    (hnext : iterate config udpSockfd s input = .next s') :
    ∀ r ∈ s'.clients, Proper config source r.client := by
  intro r' hr'
  obtain ⟨served, hserved, -⟩ := Outcome.bind_eq_next.mp hnext
  rw [iterate_of_next hserved] at hnext
  cases hnext
  obtain ⟨mib, new, hinput, -, hnew, hclients⟩ := handleEvents_clients hserved
  rw [cleaned_clients] at hr'
  have hmem : r' ∈ served.clients :=
    (Sweep.perm isDead served.clients).mem_iff.mp (List.mem_append_left _ hr')
  rw [hclients] at hmem
  -- every record was served, a new one with nothing to send
  obtain ⟨r, hr, rfl⟩ := List.mem_map.mp hmem
  rcases List.mem_append.mp hr with hold | hlater
  · exact proper_serveClient (hmib mib hinput) input _ _ (hintact.sizes r hold) (h r hold)
  · obtain ⟨-, hsize, hlistening⟩ := hnew r hlater
    exact proper_serveClient (hmib mib hinput) input _ _ (hsize.trans_le (Nat.zero_le _))
      (.inr (.inl hlistening))

/-- An open client that is to be written to has its reply. -/
theorem Proper.replying {client : Client} (h : Proper config source client)
    (hopen : client.sockfd ≠ -1) (hout : client.outgoing = true) :
    Replying config source client := by
  rcases h with hclosed | hlistening | hreplying
  · exact absurd hclosed hopen
  · rw [hlistening] at hout
    cases hout
  · exact hreplying

end

/-- **Replies over TCP.** At all times, an open client that is to be written to has the reply to a
    complete message, from the MIB of one of the rounds so far. -/
theorem tcp_replies (config : Config) (udpSockfd : Int) (udpClient : Client)
    (inputs : List LoopInput) {s : Server}
    (hrun : run (iterate config udpSockfd) (Server.start udpClient) inputs = .next s)
    {r : Record} (hr : r ∈ s.clients) (hopen : r.client.sockfd ≠ -1)
    (hout : r.client.outgoing = true) :
    Replying config (fun mib => ∃ input ∈ inputs, input.mib = some mib) r.client := by
  set source := fun mib => ∃ input ∈ inputs, input.mib = some mib
  have hstart : Intact (Server.start udpClient) ∧
      ∀ r ∈ (Server.start udpClient).clients, Proper config source r.client :=
    ⟨intact_start udpClient, fun _ h => absurd h List.not_mem_nil⟩
  have hkeeps : ∀ s input s', input ∈ inputs →
      (Intact s ∧ ∀ r ∈ s.clients, Proper config source r.client) →
      iterate config udpSockfd s input = .next s' →
      Intact s' ∧ ∀ r ∈ s'.clients, Proper config source r.client :=
    fun s input s' hinput h hnext => ⟨h.1.iterate hnext,
      proper_iterate (fun mib hmib => ⟨input, hinput, hmib⟩) h.1 h.2 hnext⟩
  -- every MIB of a round is one of the run
  have hproper := run_keeps hkeeps (fun _ hinput => hinput) hstart hrun
  exact (hproper.2 r hr).replying hopen hout

theorem tcp_replies_getRound :
    ∃ s r, run (iterate ⟨communityP, false⟩ 3) (Server.start Client.empty)
        [connectRound 5, getRound] = .next s ∧
      r ∈ s.clients ∧ r.client.sockfd ≠ -1 ∧ r.client.outgoing = true ∧
      Replying ⟨communityP, false⟩
        (fun mib => ∃ input ∈ [connectRound 5, getRound], input.mib = some mib) r.client := by
  have hreaches : (run (iterate ⟨communityP, false⟩ 3) (Server.start Client.empty)
      [connectRound 5, getRound]).reaches (fun s =>
        s.clients.any fun r => decide (r.client.sockfd ≠ -1) && r.client.outgoing) = true := by
    decide +kernel
  obtain ⟨s, hrun, hany⟩ := Outcome.reaches_eq_true.mp hreaches
  obtain ⟨r, hr, hclient⟩ := List.any_eq_true.mp hany
  obtain ⟨hopen, hout⟩ := Bool.and_eq_true_iff.mp hclient
  have hopen := of_decide_eq_true hopen
  exact ⟨s, r, hrun, hr, hopen, hout,
    tcp_replies ⟨communityP, false⟩ 3 Client.empty [connectRound 5, getRound] hrun hr hopen hout⟩

end SdkSnmpd
