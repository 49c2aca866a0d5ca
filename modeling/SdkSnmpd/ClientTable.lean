import SdkSnmpd.EventLoop

/-!
# The Client Table over Whole Runs

What holds of the client list and of the heap at the start of every round of the event loop.

## Contents

- `Intact`: the list never exceeds its array, every entry points to a live record of its own,
  and no record is freed twice. Every round keeps this (`Intact.iterate`).
- `handleEvents_undefined_iff`: when a round leaves the defined behaviour.
- `clientTable_iff`: when all listed clients are open at the start of every round.
- `clientRecords_iff`: when the live records are the listed ones at the start of every round.
-/

namespace SdkSnmpd

open Lib

/-! ## The heap -/

/-- No record is live twice, freed twice, or live after it was freed. -/
structure Heap.Ordered (heap : Heap) : Prop where
  live : heap.live.Nodup
  freed : heap.freed.Nodup
  apart : ∀ a ∈ heap.live, a ∉ heap.freed
  bound : ∀ a, a ∈ heap.live ∨ a ∈ heap.freed → a < heap.next

theorem Heap.ordered_empty : Heap.empty.Ordered where
  live := List.nodup_nil
  freed := List.nodup_nil
  apart := fun _ h => absurd h List.not_mem_nil
  bound := fun _ h => h.elim (absurd · List.not_mem_nil) (absurd · List.not_mem_nil)

namespace Heap.Ordered

variable {heap : Heap}

theorem malloc (h : heap.Ordered) : heap.malloc.Ordered where
  live := by
    have hfresh : heap.next ∉ heap.live := fun hmem => (h.bound _ (.inl hmem)).false
    exact List.nodup_cons.mpr ⟨hfresh, h.live⟩
  freed := h.freed
  apart := by
    intro a ha
    rcases List.mem_cons.mp ha with rfl | hold
    · exact fun hmem => (h.bound _ (.inr hmem)).false
    · exact h.apart a hold
  bound := by
    rintro a (hlive | hfreed)
    · rcases List.mem_cons.mp hlive with rfl | hold
      · exact Nat.lt_succ_self _
      · exact Nat.lt_succ_of_lt (h.bound a (.inl hold))
    · exact Nat.lt_succ_of_lt (h.bound a (.inr hfreed))

/-- A live record may be freed. -/
theorem free (h : heap.Ordered) {address : Nat} (hlive : address ∈ heap.live) :
    (heap.free address).Ordered where
  live := h.live.erase address
  freed := List.nodup_cons.mpr ⟨h.apart address hlive, h.freed⟩
  apart := by
    intro a ha hfreed
    have hmem := h.live.mem_erase_iff.mp ha
    rcases List.mem_cons.mp hfreed with rfl | hold
    · exact hmem.1 rfl
    · exact h.apart a hmem.2 hold
  bound := by
    rintro a (ha | hfreed)
    · exact h.bound a (.inl (List.mem_of_mem_erase ha))
    · rcases List.mem_cons.mp hfreed with rfl | hold
      · exact h.bound a (.inl hlive)
      · exact h.bound a (.inr hold)

/-- Live records may be freed one after another. The induction is on the addresses. -/
theorem freeAll (h : heap.Ordered) {addresses : List Nat} (hdistinct : addresses.Nodup)
    (hlive : ∀ a ∈ addresses, a ∈ heap.live) :
    (heap.freeAll addresses).Ordered ∧
      ∀ a, a ∈ (heap.freeAll addresses).live ↔ a ∈ heap.live ∧ a ∉ addresses := by
  induction addresses generalizing heap with
  | nil => exact ⟨h, fun a => by simp [Heap.freeAll]⟩
  | cons address addresses ih =>
    obtain ⟨hnotMem, hrest⟩ := List.nodup_cons.mp hdistinct
    have hfree := h.free (hlive address List.mem_cons_self)
    have hmem : ∀ a, a ∈ (heap.free address).live ↔ a ≠ address ∧ a ∈ heap.live := fun a =>
      h.live.mem_erase_iff
    obtain ⟨hordered, hiff⟩ := ih hfree hrest (by
      intro a ha
      rw [hmem]
      exact ⟨fun heq => hnotMem (heq ▸ ha), hlive a (List.mem_cons_of_mem _ ha)⟩)
    refine ⟨hordered, fun a => ?_⟩
    change a ∈ ((heap.free address).freeAll addresses).live ↔ _
    rw [hiff, hmem, List.mem_cons]
    tauto

end Heap.Ordered

/-! ## The invariant -/

def addresses (clients : List Record) : List Nat := clients.map Record.address

/-- What every round keeps. -/
structure Intact (s : Server) : Prop where
  room : s.clients.length ≤ maxNrClients
  sockfds : ∀ r ∈ s.clients, r.client.sockfd = -1 ∨ Watchable r.client.sockfd
  /-- Every packet is inside its buffer. -/
  sizes : ∀ r ∈ s.clients, r.client.size ≤ maxPacketSize
  /-- No two entries point to one record. -/
  distinct : (addresses s.clients).Nodup
  /-- No entry dangles. -/
  listed : ∀ a ∈ addresses s.clients, a ∈ s.heap.live
  heap : s.heap.Ordered

theorem intact_start (udpClient : Client) : Intact (Server.start udpClient) where
  room := Nat.zero_le _
  sockfds := fun _ h => absurd h List.not_mem_nil
  sizes := fun _ h => absurd h List.not_mem_nil
  distinct := List.nodup_nil
  listed := fun _ h => absurd h List.not_mem_nil
  heap := Heap.ordered_empty

/-! ## What a round can do before its clean-up -/

/-- A connection is accepted while the list is full, and the oldest client is looked for
    with success. -/
def Evicts (clients : List Record) (connection : Connection) : Prop :=
  (∃ fd, connection.fd = some fd ∧ fd < fdSetsize) ∧ maxNrClients ≤ clients.length ∧
    ∃ r ∈ clients, r.client.timestamp < longMax

/-- The list after a connect request: as it was, or with a new record. -/
inductive Connects (clients : List Record) (heap : Heap) : List Record → Heap → Prop where
  | refused : Connects clients heap clients heap
  | accepted (client : Client) (hroom : clients.length < maxNrClients)
      (hsockfd : Watchable client.sockfd) (hsize : client.size ≤ maxPacketSize) :
      Connects clients heap (clients ++ [⟨heap.next, client⟩]) heap.malloc

/-- The cases of the connect handler. Where the list is full, it never gets to overwrite an
    entry. -/
theorem handleTcpConnect_cases (clients : List Record) (heap : Heap) (connection : Connection)
    (now : Int) :
    (∀ clients' heap', handleTcpConnect clients heap connection now = .next (clients', heap') →
        Connects clients heap clients' heap') ∧
      (handleTcpConnect clients heap connection now = .undefined ↔ Evicts clients connection) := by
  unfold handleTcpConnect Evicts
  cases hfd : connection.fd with
  | none =>
    simp only [Outcome.next.injEq, Prod.mk.injEq]
    exact ⟨by rintro _ _ ⟨rfl, rfl⟩; exact .refused, by simp⟩
  | some fd =>
    simp only
    by_cases hlarge : fd ≥ fdSetsize
    · -- the connection is closed again
      rw [if_pos hlarge]
      simp only [Outcome.next.injEq, Prod.mk.injEq]
      refine ⟨by rintro _ _ ⟨rfl, rfl⟩; exact .refused, iff_of_false (by simp) ?_⟩
      rintro ⟨⟨fd', heq, hlt⟩, -⟩
      obtain rfl : fd = fd' := by simpa using heq
      omega
    rw [if_neg hlarge]
    by_cases hfull : clients.length ≥ maxNrClients
    · -- what the search returns for an oldest client is never an entry of the list
      rw [if_pos hfull, findOldestClient_eq]
      by_cases hold : ∃ r ∈ clients, r.client.timestamp < longMax
      · simp only [if_pos hold, List.getElem?_length]
        exact ⟨fun _ _ h => (nomatch h), iff_of_true trivial ⟨⟨fd, rfl, by omega⟩, hfull, hold⟩⟩
      · simp only [if_neg hold]
        exact ⟨fun _ _ h => (nomatch h), iff_of_false (by simp) fun h => hold h.2.2⟩
    · rw [if_neg hfull]
      cases hmemory : connection.memory with
      | none =>
        exact ⟨fun _ _ h => (nomatch h), iff_of_false (by simp) fun h => hfull h.2.1⟩
      | some packet =>
        simp only [Outcome.next.injEq, Prod.mk.injEq]
        refine ⟨?_, iff_of_false (by simp) fun h => hfull h.2.1⟩
        rintro _ _ ⟨rfl, rfl⟩
        apply Connects.accepted _ (Nat.not_le.mp hfull)
        · simp only [Connection.fill, Watchable]
          omega
        · exact Nat.zero_le _

/-- Serving a client keeps its record, and its socket unless it is closed. -/
theorem serveClient_sockfd (config : Config) (values : List Value) (input : LoopInput)
    (rfds wfds : Int → Bool) (r : Record) :
    (serveClient config values input rfds wfds r).client.sockfd = -1 ∨
      (serveClient config values input rfds wfds r).client.sockfd = r.client.sockfd := by
  unfold serveClient
  simp only
  split_ifs
  · exact handleTcpClientWrite_sockfd _ _
  · exact .inr rfl
  · exact handleTcpClientRead_sockfd _ _ _ _ _
  · exact .inr rfl

theorem serveClient_size_le (config : Config) (mib : Mib) (input : LoopInput)
    (rfds wfds : Int → Bool) {r : Record} (h : r.client.size ≤ maxPacketSize) :
    (serveClient config mib.values input rfds wfds r).client.size ≤ maxPacketSize := by
  unfold serveClient
  simp only
  split_ifs
  · exact handleTcpClientWrite_size_le h
  · exact h
  · exact handleTcpClientRead_size_le h
  · exact h

section

variable {config : Config} {udpSockfd : Int} {s s' : Server} {input : LoopInput}

/-- The round accepts a connection while the list is full. -/
def EvictsClient (s : Server) (input : LoopInput) : Prop :=
  input.interrupted = false ∧ input.mib ≠ none ∧
    ∃ connection, input.connection = some connection ∧ Evicts s.clients connection

/-- What serving a client does to its entry: the record is the same, the socket is the same or
    closed, and the packet stays inside its buffer. -/
structure ServedAs (r r' : Record) : Prop where
  address : r'.address = r.address
  sockfd : r'.client.sockfd = -1 ∨ r'.client.sockfd = r.client.sockfd
  size : r.client.size ≤ maxPacketSize → r'.client.size ≤ maxPacketSize

/-- A list after its clients were served. -/
def Served (clients clients' : List Record) : Prop :=
  ∃ serve : Record → Record, clients' = clients.map serve ∧ ∀ r, ServedAs r (serve r)

theorem servedAs_serveClient (config : Config) (mib : Mib) (input : LoopInput)
    (rfds wfds : Int → Bool) (r : Record) :
    ServedAs r (serveClient config mib.values input rfds wfds r) where
  address := rfl
  sockfd := serveClient_sockfd config mib.values input rfds wfds r
  size := serveClient_size_le config mib input rfds wfds

/-- The round up to its clean-up: a connect request, and the clients are served. -/
theorem handleEvents_next (h : handleEvents config udpSockfd s input = .next s') :
    (∀ r ∈ s.clients, Watchable r.client.sockfd) ∧
      ∃ clients, Connects s.clients s.heap clients s'.heap ∧ Served clients s'.clients := by
  unfold handleEvents at h
  split_ifs at h with hwatch hinterrupted
  have hwatchable : ∀ r ∈ s.clients, Watchable r.client.sockfd := fun r hr => by
    by_contra hbad
    exact hwatch ⟨r, hr, hbad⟩
  refine ⟨hwatchable, ?_⟩
  -- a MIB that cannot be updated ends the process
  cases hmib : input.mib with
  | none => rw [hmib] at h; cases h
  | some mib =>
    rw [hmib] at h
    cases hconnection : input.connection with
    | none =>
      rw [hconnection] at h
      cases h
      exact ⟨s.clients, .refused, _, rfl, servedAs_serveClient config mib input _ _⟩
    | some connection =>
      rw [hconnection] at h
      have hcases := (handleTcpConnect_cases s.clients s.heap connection input.now).1
      cases hconnect : handleTcpConnect s.clients s.heap connection input.now with
      | next result =>
        obtain ⟨clients, heap⟩ := result
        simp only [hconnect] at h
        cases h
        exact ⟨clients, hcases _ _ hconnect, _, rfl, servedAs_serveClient config mib input _ _⟩
      | exit => simp only [hconnect] at h; cases h
      | undefined => simp only [hconnect] at h; cases h

/-- **Undefined behaviour** in a round: a closed socket is put into a descriptor set, or the
    oldest client is read from behind the list. -/
theorem handleEvents_undefined_iff :
    handleEvents config udpSockfd s input = .undefined ↔
      (∃ r ∈ s.clients, ¬ Watchable r.client.sockfd) ∨ EvictsClient s input := by
  unfold handleEvents EvictsClient
  by_cases hwatch : ∃ r ∈ s.clients, ¬ Watchable r.client.sockfd
  · rw [if_pos hwatch]
    exact iff_of_true rfl (.inl hwatch)
  rw [if_neg hwatch, or_iff_right hwatch]
  cases hinterrupted : input.interrupted with
  | true => simp
  | false =>
    cases hmib : input.mib with
    | none => simp
    | some mib =>
      cases hconnection : input.connection with
      | none => simp [Outcome.bind]
      | some connection =>
        have hcases := (handleTcpConnect_cases s.clients s.heap connection input.now).2
        cases hconnect : handleTcpConnect s.clients s.heap connection input.now with
        | next result =>
          rw [hconnect] at hcases
          simpa [hconnect, Outcome.bind] using hcases
        | exit =>
          rw [hconnect] at hcases
          simpa [hconnect, Outcome.bind] using hcases
        | undefined =>
          rw [hconnect] at hcases
          simpa [hconnect, Outcome.bind] using hcases

/-! ## What every round keeps -/

theorem addresses_append (clients : List Record) (r : Record) :
    addresses (clients ++ [r]) = addresses clients ++ [r.address] := by
  simp [addresses]

theorem Served.addresses_eq {clients clients' : List Record} (h : Served clients clients') :
    addresses clients' = addresses clients := by
  obtain ⟨serve, rfl, hserve⟩ := h
  rw [addresses, List.map_map]
  exact List.map_congr_left fun r _ => (hserve r).address

theorem Connects.intact {clients : List Record} {heap : Heap} (h : Intact s)
    (hconnects : Connects s.clients s.heap clients heap) (udpClient : Client) :
    Intact ⟨clients, heap, udpClient⟩ := by
  cases hconnects with
  | refused => exact ⟨h.room, h.sockfds, h.sizes, h.distinct, h.listed, h.heap⟩
  | accepted client hroom hsockfd hsize =>
    -- a new address is not that of a record in the list
    have hfresh : s.heap.next ∉ addresses s.clients := fun hmem =>
      (h.heap.bound _ (.inl (h.listed _ hmem))).false
    constructor
    · rw [List.length_append]
      exact hroom
    · intro r hr
      rcases List.mem_append.mp hr with hold | hnew
      · exact h.sockfds r hold
      · rw [List.mem_singleton.mp hnew]
        exact .inr hsockfd
    · intro r hr
      rcases List.mem_append.mp hr with hold | hnew
      · exact h.sizes r hold
      · rw [List.mem_singleton.mp hnew]
        exact hsize
    · rw [addresses_append]
      -- malloc has not returned this address before
      apply List.Nodup.append h.distinct (List.nodup_singleton _)
      intro a ha ha'
      rw [List.mem_singleton.mp ha'] at ha
      exact hfresh ha
    · intro a ha
      rw [addresses_append] at ha
      rcases List.mem_append.mp ha with hold | hnew
      · exact List.mem_cons_of_mem _ (h.listed a hold)
      · rw [List.mem_singleton.mp hnew]
        exact List.mem_cons_self
    · exact h.heap.malloc

theorem Served.intact {clients clients' : List Record} {heap : Heap} {udpClient : Client}
    (h : Intact ⟨clients, heap, udpClient⟩) (hserved : Served clients clients')
    (udpClient' : Client) : Intact ⟨clients', heap, udpClient'⟩ where
  room := by
    obtain ⟨serve, rfl, -⟩ := hserved
    simpa using h.room
  sockfds := by
    obtain ⟨serve, rfl, hserve⟩ := hserved
    intro r' hr'
    obtain ⟨r, hr, rfl⟩ := List.mem_map.mp hr'
    rcases (hserve r).sockfd with hclosed | hsame
    · exact .inl hclosed
    · rw [hsame]
      exact h.sockfds r hr
  sizes := by
    obtain ⟨serve, rfl, hserve⟩ := hserved
    intro r' hr'
    obtain ⟨r, hr, rfl⟩ := List.mem_map.mp hr'
    exact (hserve r).size (h.sizes r hr)
  distinct := by
    rw [hserved.addresses_eq]
    exact h.distinct
  listed := by
    rw [hserved.addresses_eq]
    exact h.listed
  heap := h.heap

/-- The state after the clean-up. -/
def cleaned (s : Server) : Server :=
  { s with clients := (cleanUp s.clients s.heap).1, heap := (cleanUp s.clients s.heap).2 }

theorem cleaned_clients (s : Server) :
    (cleaned s).clients = Sweep.kept isDead s.clients := by
  simp only [cleaned, cleanUp_eq]

theorem iterate_of_next (h : handleEvents config udpSockfd s input = .next s') :
    iterate config udpSockfd s input = .next (cleaned s') := by
  rw [iterate, h]
  rfl

/-- The entries that stay, that are freed, and that are dropped are different records. -/
theorem Intact.sweep (h : Intact s) :
    (addresses (Sweep.kept isDead s.clients) ++
        (addresses (Sweep.released isDead s.clients) ++
          addresses (Sweep.dropped isDead s.clients))).Perm (addresses s.clients) ∧
      (addresses (Sweep.kept isDead s.clients) ++
        (addresses (Sweep.released isDead s.clients) ++
          addresses (Sweep.dropped isDead s.clients))).Nodup := by
  have hperm := (Sweep.perm isDead s.clients).map Record.address
  simp only [List.map_append] at hperm
  exact ⟨hperm, hperm.nodup_iff.mpr h.distinct⟩

theorem cleaned_live (h : Intact s) :
    (cleaned s).heap.Ordered ∧ ∀ a, a ∈ (cleaned s).heap.live ↔
      a ∈ s.heap.live ∧ a ∉ addresses (Sweep.released isDead s.clients) := by
  obtain ⟨hperm, hnodup⟩ := h.sweep
  have hreleased := (List.nodup_append.mp (List.nodup_append.mp hnodup).2.1).1
  simp only [cleaned, cleanUp_eq]
  apply h.heap.freeAll hreleased
  intro a ha
  apply h.listed
  exact hperm.mem_iff.mp (List.mem_append_right _ (List.mem_append_left _ ha))

theorem Intact.cleaned (h : Intact s) : Intact (cleaned s) := by
  obtain ⟨hperm, hnodup⟩ := h.sweep
  obtain ⟨hordered, hlive⟩ := cleaned_live h
  have hsweep := Sweep.perm isDead s.clients
  have hclients := cleaned_clients s
  constructor
  · rw [hclients]
    -- the clean-up only takes entries out
    have hlen := hsweep.length_eq
    have hroom := h.room
    simp only [List.length_append] at hlen
    omega
  · rw [hclients]
    intro r hr
    exact h.sockfds r (hsweep.mem_iff.mp (List.mem_append_left _ hr))
  · rw [hclients]
    intro r hr
    exact h.sizes r (hsweep.mem_iff.mp (List.mem_append_left _ hr))
  · rw [hclients]
    exact (List.nodup_append.mp hnodup).1
  · rw [hclients]
    intro a ha
    rw [hlive]
    -- a kept record is listed, and none of the released ones
    refine ⟨h.listed a (hperm.mem_iff.mp (List.mem_append_left _ ha)), fun hreleased => ?_⟩
    exact (List.nodup_append.mp hnodup).2.2 a ha a (List.mem_append_left _ hreleased) rfl
  · exact hordered

/-- The state before the clean-up is in order as well. -/
theorem Intact.handleEvents (h : Intact s)
    (hnext : handleEvents config udpSockfd s input = .next s') : Intact s' := by
  obtain ⟨-, clients, hconnects, hserved⟩ := handleEvents_next hnext
  exact hserved.intact (hconnects.intact h s.udpClient) s'.udpClient

/-- **Every round keeps the invariant.** -/
theorem Intact.iterate (h : Intact s) (hnext : iterate config udpSockfd s input = .next s') :
    Intact s' := by
  cases hevents : SdkSnmpd.handleEvents config udpSockfd s input with
  | next s₁ =>
    rw [iterate_of_next hevents] at hnext
    cases hnext
    exact (h.handleEvents hevents).cleaned
  | exit => rw [SdkSnmpd.iterate, hevents] at hnext; cases hnext
  | undefined => rw [SdkSnmpd.iterate, hevents] at hnext; cases hnext

/-! ## Open clients -/

/-- The list fits into its array, and every listed client is open. -/
def AllOpen (s : Server) : Prop :=
  s.clients.length ≤ maxNrClients ∧ ∀ r ∈ s.clients, r.client.sockfd ≠ -1

instance : DecidablePred AllOpen := fun _ => inferInstanceAs (Decidable (_ ∧ _))

/-- The round accepts no connection while the list is full, and no two neighbours of the list
    are disconnected when its clean-up starts. -/
def RemovesAll (config : Config) (udpSockfd : Int) (s : Server) (input : LoopInput) : Prop :=
  ¬ EvictsClient s input ∧
    ∀ s', handleEvents config udpSockfd s input = .next s' →
      Sweep.NoneAdjacent isDead s'.clients

theorem isDead_eq_false (r : Record) : isDead r = false ↔ r.client.sockfd ≠ -1 := by
  simp [isDead]

/-- Open sockets can be watched. -/
theorem Intact.watchable (h : Intact s) (hopen : ∀ r ∈ s.clients, r.client.sockfd ≠ -1) :
    ¬ ∃ r ∈ s.clients, ¬ Watchable r.client.sockfd := by
  rintro ⟨r, hr, hbad⟩
  rcases h.sockfds r hr with hclosed | hwatchable
  · exact hopen r hr hclosed
  · exact hbad hwatchable

/-- With open clients only, the eviction is all that leaves the defined behaviour. -/
theorem Intact.undefined_iff_evictsClient (h : Intact s)
    (hopen : ∀ r ∈ s.clients, r.client.sockfd ≠ -1) :
    SdkSnmpd.handleEvents config udpSockfd s input = .undefined ↔ EvictsClient s input := by
  rw [handleEvents_undefined_iff, or_iff_right (h.watchable hopen)]

/-- The clean-up leaves open clients only exactly when no two neighbours were disconnected. -/
theorem allOpen_cleaned_iff (h : Intact s) :
    AllOpen (cleaned s) ↔ Sweep.NoneAdjacent isDead s.clients := by
  have hclients := cleaned_clients s
  have hroom := h.cleaned.room
  rw [← Sweep.kept_alive_iff, AllOpen, and_iff_right hroom, hclients]
  simp only [isDead_eq_false]

/-- One round from a list of open clients. -/
theorem allOpen_iterate_iff (h : Intact s) (hopen : AllOpen s) :
    (iterate config udpSockfd s input).Holds AllOpen ↔ RemovesAll config udpSockfd s input := by
  have hundefined : handleEvents config udpSockfd s input = .undefined ↔ EvictsClient s input :=
    h.undefined_iff_evictsClient hopen.2
  -- the round either gets to its clean-up, or ends, or leaves the defined behaviour
  unfold RemovesAll
  rw [← hundefined]
  cases hevents : handleEvents config udpSockfd s input with
  | next s₁ =>
    rw [iterate_of_next hevents]
    simpa [Outcome.Holds] using allOpen_cleaned_iff (h.handleEvents hevents)
  | exit => simp [iterate, hevents, Outcome.bind, Outcome.Holds]
  | undefined => simp [iterate, hevents, Outcome.bind, Outcome.Holds]

end

/-- **The client table.** The clean-up leaves the open clients in their order exactly when no
    two neighbours are disconnected. Over a whole run every listed client is open at the start
    of every round exactly when no round accepts a connection while the list is full, or
    disconnects two neighbours. -/
theorem clientTable_iff (config : Config) (udpSockfd : Int) (udpClient : Client) :
    (∀ clients heap, (cleanUp clients heap).1 = clients.filter (fun r => !isDead r) ↔
        Sweep.NoneAdjacent isDead clients) ∧
      ∀ inputs, Throughout (iterate config udpSockfd) AllOpen (Server.start udpClient) inputs ↔
        EveryStep (iterate config udpSockfd) (RemovesAll config udpSockfd)
          (Server.start udpClient) inputs := by
  constructor
  · intro clients heap
    rw [cleanUp_eq]
    exact Sweep.kept_eq_filter_iff isDead clients
  · intro inputs
    have hopen : AllOpen (Server.start udpClient) :=
      ⟨Nat.zero_le _, fun _ h => absurd h List.not_mem_nil⟩
    apply throughout_iff_everyStep (fun s i s' h hnext => h.iterate hnext) _
      (intact_start udpClient) hopen inputs
    intro s i h hs
    exact allOpen_iterate_iff h hs

/-- A round in which a connection is accepted, and one in which all clients disconnect. -/
def connectRound (fd : Nat) : LoopInput where
  interrupted := false
  readable := fun _ => false
  writable := fun _ => false
  mib := some emptyMib
  udp := none
  connection := some ⟨some fd, 0, 0, some fun _ => 0⟩
  arrived := fun _ => none
  sent := fun _ => none
  now := 0

def disconnectRound : LoopInput :=
  { connectRound 0 with readable := fun _ => true, connection := none, arrived := fun _ => some [] }

/-- Two clients disconnect in the same round: the second stays listed. -/
theorem twoDisconnects_not_allOpen :
    ¬ Throughout (iterate ⟨communityP, false⟩ 3) AllOpen (Server.start Client.empty)
      [connectRound 5, connectRound 6, disconnectRound] := by
  intro h
  have hend := h 3 (by decide)
  revert hend
  decide +kernel

/-! ## Live records -/

/-- The live records are the listed ones, and no record was freed twice. -/
def NoLeak (s : Server) : Prop :=
  (∀ a ∈ s.heap.live, a ∈ addresses s.clients) ∧ (∀ a ∈ addresses s.clients, a ∈ s.heap.live) ∧
    s.heap.freed.Nodup

instance : DecidablePred NoLeak := fun _ => inferInstanceAs (Decidable (_ ∧ _ ∧ _))

/-- The round starts with open clients, accepts no connection while the list is full, and the
    disconnected clients at the end of the list are even in number when its clean-up
    starts. -/
def ReleasesAll (config : Config) (udpSockfd : Int) (s : Server) (input : LoopInput) : Prop :=
  (∀ r ∈ s.clients, r.client.sockfd ≠ -1) ∧ ¬ EvictsClient s input ∧
    ∀ s', handleEvents config udpSockfd s input = .next s' →
      Even (s'.clients.rtakeWhile isDead).length

section

variable {config : Config} {udpSockfd : Int} {s s' : Server} {input : LoopInput}

/-- Nothing leaks before the clean-up. -/
theorem listed_handleEvents (hs : ∀ a ∈ s.heap.live, a ∈ addresses s.clients)
    (hnext : handleEvents config udpSockfd s input = .next s') :
    ∀ a ∈ s'.heap.live, a ∈ addresses s'.clients := by
  obtain ⟨-, clients, hconnects, hserved⟩ := handleEvents_next hnext
  rw [hserved.addresses_eq]
  generalize s'.heap = heap at hconnects
  cases hconnects with
  | refused => exact hs
  | accepted client hroom hsockfd hsize =>
    intro a ha
    rw [addresses_append]
    rcases List.mem_cons.mp ha with rfl | hold
    · exact List.mem_append_right _ (List.mem_singleton_self _)
    · exact List.mem_append_left _ (hs a hold)

/-- The clean-up leaks exactly the records that it drops. -/
theorem noLeak_cleaned_iff (h : Intact s) (hs : ∀ a ∈ s.heap.live, a ∈ addresses s.clients) :
    NoLeak (cleaned s) ↔ Even (s.clients.rtakeWhile isDead).length := by
  obtain ⟨hperm, hnodup⟩ := h.sweep
  have hclients := cleaned_clients s
  have hlive := (cleaned_live h).2
  rw [← Sweep.dropped_eq_nil_iff]
  constructor
  · rintro ⟨hlisted, -⟩
    -- a dropped record is still live, but it is not among the kept ones
    apply List.eq_nil_iff_forall_not_mem.mpr
    intro r hr
    have hmem : r.address ∈ addresses (Sweep.dropped isDead s.clients) := List.mem_map_of_mem hr
    have hother := (List.nodup_append.mp hnodup).2
    have hkept : r.address ∈ addresses (cleaned s).clients := by
      apply hlisted
      rw [hlive]
      refine ⟨h.listed _ (hperm.mem_iff.mp ?_), fun hreleased => ?_⟩
      · exact List.mem_append_right _ (List.mem_append_right _ hmem)
      · exact (List.nodup_append.mp hother.1).2.2 _ hreleased _ hmem rfl
    rw [hclients] at hkept
    exact hother.2 _ hkept _ (List.mem_append_right _ hmem) rfl
  · intro hdropped
    refine ⟨fun a ha => ?_, h.cleaned.listed, (cleaned_live h).1.freed⟩
    obtain ⟨hold, hreleased⟩ := (hlive a).mp ha
    rw [hclients]
    -- what was live is listed, was not released, and nothing was dropped
    have hmem := hperm.mem_iff.mpr (hs a hold)
    rw [hdropped] at hmem
    rcases List.mem_append.mp hmem with hkept | hrest
    · exact hkept
    · rcases List.mem_append.mp hrest with hfreed | hnil
      · exact absurd hfreed hreleased
      · exact absurd hnil List.not_mem_nil

/-- One round from a heap without leaks. -/
theorem noLeak_iterate_iff (h : Intact s) (hs : NoLeak s) :
    (iterate config udpSockfd s input).Holds NoLeak ↔
      ReleasesAll config udpSockfd s input := by
  unfold ReleasesAll
  by_cases hopen : ∀ r ∈ s.clients, r.client.sockfd ≠ -1
  · have hundefined : handleEvents config udpSockfd s input = .undefined ↔
        EvictsClient s input := h.undefined_iff_evictsClient hopen
    rw [and_iff_right hopen, ← hundefined]
    cases hevents : handleEvents config udpSockfd s input with
    | next s₁ =>
      rw [iterate_of_next hevents]
      simpa [Outcome.Holds] using
        noLeak_cleaned_iff (h.handleEvents hevents) (listed_handleEvents hs.1 hevents)
    | exit => simp [iterate, hevents, Outcome.bind, Outcome.Holds]
    | undefined => simp [iterate, hevents, Outcome.bind, Outcome.Holds]
  · -- a closed socket is put into a descriptor set
    rw [not_forall₂] at hopen
    obtain ⟨r, hr, hclosed⟩ := hopen
    have hsockfd : r.client.sockfd = -1 := not_not.mp hclosed
    have hbad : ¬ Watchable r.client.sockfd := by
      rw [hsockfd]
      decide
    have hundefined : handleEvents config udpSockfd s input = .undefined :=
      handleEvents_undefined_iff.mpr (.inl ⟨r, hr, hbad⟩)
    refine iff_of_false ?_ fun hall => hall.1 r hr hsockfd
    rw [iterate, hundefined]
    exact id

end

/-- **The client records.** Over a whole run the live records are the listed ones at the start
    of every round, and no record is freed twice, exactly when every round starts with open
    clients, accepts no connection while the list is full, and finds an even number of
    disconnected clients at the end of the list. -/
theorem clientRecords_iff (config : Config) (udpSockfd : Int) (udpClient : Client)
    (inputs : List LoopInput) :
    Throughout (iterate config udpSockfd) NoLeak (Server.start udpClient) inputs ↔
      EveryStep (iterate config udpSockfd) (ReleasesAll config udpSockfd)
        (Server.start udpClient) inputs := by
  have hstart : NoLeak (Server.start udpClient) :=
    ⟨fun _ h => absurd h List.not_mem_nil, fun _ h => absurd h List.not_mem_nil, List.nodup_nil⟩
  apply throughout_iff_everyStep (fun s i s' h hnext => h.iterate hnext) _
    (intact_start udpClient) hstart inputs
  intro s i h hs
  exact noLeak_iterate_iff h hs

/-- The only client disconnects: its record is never freed. -/
theorem lastDisconnect_not_noLeak :
    ¬ Throughout (iterate ⟨communityP, false⟩ 3) NoLeak (Server.start Client.empty)
      [connectRound 5, disconnectRound] := by
  intro h
  have hend := h 2 (by decide)
  revert hend
  decide +kernel

end SdkSnmpd
