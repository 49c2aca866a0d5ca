import SdkSnmpd.Lib.Run
import SdkSnmpd.Lib.Sweep
import SdkSnmpd.Tcp
import SdkSnmpd.Udp

/-!
# The Event Loop

The loop of `run_snmpd`: watch the sockets, update the MIB, handle UDP packets, accept a TCP
connection, serve the TCP clients, and remove those that were disconnected.

An entry of `g_tcp_client_list` points to a record on the heap. A record is reached through
the list only, so that its contents stand in the entry, next to its address.

## Contents

- `findOldestClient`, `handleTcpConnect`, `serveClient`, `cleanUp`, `iterate`.
- `findOldestClient_eq`: the client that is found is never one of the list.
- `cleanUp_eq`: the clean-up is a sweep of the list.
-/

namespace SdkSnmpd

open Lib

/-! ## State -/

/-- `FD_SETSIZE` -/
def fdSetsize : Nat := 1024

/-- An entry of the client list: a pointer, and the record that it points to. -/
structure Record where
  address : Nat
  client : Client

/-- The records that `malloc` has returned and `free` has not taken back, and the log of the
    calls of `free`, the latest first. No address is handed out twice. -/
structure Heap where
  next : Nat
  live : List Nat
  freed : List Nat

def Heap.empty : Heap := ⟨0, [], []⟩

def Heap.malloc (heap : Heap) : Heap :=
  { heap with next := heap.next + 1, live := heap.next :: heap.live }

def Heap.free (heap : Heap) (address : Nat) : Heap :=
  { heap with live := heap.live.erase address, freed := address :: heap.freed }

/-- The global variables of the loop. The length of `clients` is `g_tcp_client_list_length`. -/
structure Server where
  clients : List Record
  heap : Heap
  udpClient : Client

/-- The start of the loop, without TCP clients. -/
def Server.start (udpClient : Client) : Server := ⟨[], .empty, udpClient⟩

/-! ## Connections -/

/-- The loop of `find_oldest_client` from index `i` on. Returns its variables `pos` and `i`. -/
def oldestFrom : (i : Nat) → (timestamp pos : Int) → List Record → Int × Nat
  | i, _, pos, [] => (pos, i)
  | i, timestamp, pos, r :: rest =>
      if timestamp > r.client.timestamp then oldestFrom (i + 1) r.client.timestamp i rest
      else oldestFrom (i + 1) timestamp pos rest

/-- The index of the list entry that is returned, or nothing for `NULL`. The entry is taken at
    the loop variable, not at the position found. -/
def findOldestClient (clients : List Record) : Option Nat :=
  let (pos, i) := oldestFrom 0 longMax (-1) clients
  if pos ≠ -1 then some i else none

/-- What `handle_tcp_connect` finds in its environment. -/
structure Connection where
  /-- What `accept` returns, or nothing for -1. -/
  fd : Option Nat
  addr : Nat
  port : Nat
  /-- What the memory from `malloc` holds, or nothing for `NULL`. -/
  memory : Option Mem

/-- Fill out the client control structure values. -/
def Connection.fill (connection : Connection) (fd : Nat) (packet : Mem) (now : Int) : Client where
  timestamp := now
  sockfd := fd
  addr := connection.addr
  port := connection.port
  packet := packet
  size := 0
  outgoing := false

/-- Accept the connection: create a new client control structure or overwrite the oldest
    one. -/
def handleTcpConnect (clients : List Record) (heap : Heap) (connection : Connection) (now : Int) :
    Outcome (List Record × Heap) :=
  match connection.fd with
  | none => .next (clients, heap)
  | some fd =>
      if fd ≥ fdSetsize then .next (clients, heap)
      else if clients.length ≥ maxNrClients then
        match findOldestClient clients with
        | none => .exit
        | some i =>
            match clients[i]? with
            -- the pointer is read from behind the list
            | none => .undefined
            | some r =>
                .next (clients.set i ⟨r.address, connection.fill fd r.client.packet now⟩, heap)
      else
        match connection.memory with
        | none => .exit
        | some packet =>
            .next (clients ++ [⟨heap.next, connection.fill fd packet now⟩], heap.malloc)

/-! ## One round of the loop -/

/-- What one round finds in its environment. -/
structure LoopInput where
  /-- `select` returns -1. -/
  interrupted : Bool
  /-- The descriptors that `select` finds ready. -/
  readable : Int → Bool
  writable : Int → Bool
  /-- The MIB after its update, or nothing where `mib_update` returns -1. -/
  mib : Option Mib
  /-- The UDP socket is ready, and the TCP socket. -/
  udp : Option UdpInput
  connection : Option Connection
  /-- What `read` yields on a descriptor, and what `send` returns. -/
  arrived : Int → Option (List UInt8)
  sent : Int → Option Nat
  now : Int

/-- The descriptors that `FD_SET` is defined for. -/
def Watchable (fd : Int) : Prop := 0 ≤ fd ∧ fd < fdSetsize

instance (fd : Int) : Decidable (Watchable fd) := inferInstanceAs (Decidable (_ ∧ _))

/-- The descriptors that are watched for the clients with or without a packet to send. -/
def watched (clients : List Record) (outgoing : Bool) (fd : Int) : Bool :=
  clients.any fun r => decide (r.client.outgoing = outgoing) && decide (r.client.sockfd = fd)

/-- Serve one client. The sets `rfds` and `wfds` are what `select` has left of the watched
    descriptors. -/
def serveClient (config : Config) (values : List Value) (input : LoopInput)
    (rfds wfds : Int → Bool) (r : Record) : Record where
  address := r.address
  client :=
    if r.client.outgoing then
      if wfds r.client.sockfd then
        handleTcpClientWrite r.client (input.sent r.client.sockfd)
      else r.client
    else
      if rfds r.client.sockfd then
        (handleTcpClientRead config values r.client (input.arrived r.client.sockfd) input.now).1
      else r.client

/-- The round up to its clean-up. -/
def handleEvents (config : Config) (udpSockfd : Int) (s : Server) (input : LoopInput) :
    Outcome Server :=
  -- fill the descriptor sets
  if ∃ r ∈ s.clients, ¬ Watchable r.client.sockfd then .undefined
  else if input.interrupted then .exit
  else
    match input.mib with
    | none => .exit
    | some mib =>
        let rfds := fun fd => watched s.clients false fd && input.readable fd
        let wfds := fun fd => watched s.clients true fd && input.writable fd
        let udpClient :=
          match input.udp with
          | none => s.udpClient
          | some udp => (handleUdpClient config udpSockfd s.udpClient { udp with mib }).client
        let connected : Outcome (List Record × Heap) :=
          match input.connection with
          | none => .next (s.clients, s.heap)
          | some connection => handleTcpConnect s.clients s.heap connection input.now
        connected.bind fun (clients, heap) =>
          .next ⟨clients.map (serveClient config mib.values input rfds wfds), heap, udpClient⟩

/-- The loop that removes disconnected clients, from index `i` on. Its index advances in every
    round, so that it ends after at most as many rounds as the list has entries. -/
def cleanUpFrom : (rounds i : Nat) → List Record → Heap → List Record × Heap
  | 0, _, clients, heap => (clients, heap)
  | rounds + 1, i, clients, heap =>
      match clients[i]? with
      | none => (clients, heap)
      | some r =>
          if r.client.sockfd = -1 then
            let length := clients.length - 1
            if i < length then
              cleanUpFrom rounds (i + 1) (clients.eraseIdx i) (heap.free r.address)
            else cleanUpFrom rounds (i + 1) (clients.take length) heap
          else cleanUpFrom rounds (i + 1) clients heap

/-- If there was a TCP disconnect, remove the client from the list. -/
def cleanUp (clients : List Record) (heap : Heap) : List Record × Heap :=
  cleanUpFrom clients.length 0 clients heap

/-- One round of the loop. -/
def iterate (config : Config) (udpSockfd : Int) (s : Server) (input : LoopInput) :
    Outcome Server :=
  (handleEvents config udpSockfd s input).bind fun s =>
    let (clients, heap) := cleanUp s.clients s.heap
    .next { s with clients, heap }

/-! ## The oldest client -/

theorem oldestFrom_snd (clients : List Record) (i : Nat) (timestamp pos : Int) :
    (oldestFrom i timestamp pos clients).2 = i + clients.length := by
  induction clients generalizing i timestamp pos with
  | nil => rfl
  | cons r rest ih =>
    rw [oldestFrom]
    split
    · rw [ih, List.length_cons]
      omega
    · rw [ih, List.length_cons]
      omega

theorem oldestFrom_fst (clients : List Record) (i : Nat) (timestamp pos : Int) :
    (oldestFrom i timestamp pos clients).1 ≠ -1 ↔
      pos ≠ -1 ∨ ∃ r ∈ clients, r.client.timestamp < timestamp := by
  induction clients generalizing i timestamp pos with
  | nil => simp [oldestFrom]
  | cons r rest ih =>
    rw [oldestFrom]
    split
    · -- an older client: its index is not -1
      rename_i hlt
      rw [ih]
      exact iff_of_true (.inl (by omega)) (.inr ⟨r, List.mem_cons_self, hlt⟩)
    · -- not older than the one found so far
      rename_i hge
      rw [ih]
      simp [hge]

/-- The client that is found is never one of the list: the entry is read from behind it. -/
theorem findOldestClient_eq (clients : List Record) :
    findOldestClient clients =
      if ∃ r ∈ clients, r.client.timestamp < longMax then some clients.length else none := by
  have hfst := oldestFrom_fst clients 0 longMax (-1)
  have hsnd := oldestFrom_snd clients 0 longMax (-1)
  unfold findOldestClient
  simp only [ne_eq, not_true_eq_false, false_or, Nat.zero_add] at hfst hsnd ⊢
  rw [hsnd]
  by_cases h : ∃ r ∈ clients, r.client.timestamp < longMax
  · rw [if_pos h, if_pos (hfst.mpr h)]
  · rw [if_neg h, if_neg (fun hpos => h (hfst.mp hpos))]

/-! ## The clean-up -/

/-- A client that was disconnected. -/
def isDead (r : Record) : Bool := decide (r.client.sockfd = -1)

/-- Free the records at the given addresses. -/
def Heap.freeAll (heap : Heap) (addresses : List Nat) : Heap := addresses.foldl Heap.free heap

/-- At the end of the list the loop stops. -/
theorem cleanUpFrom_of_le (rounds : Nat) {i : Nat} {clients : List Record} (heap : Heap)
    (h : clients.length ≤ i) : cleanUpFrom rounds i clients heap = (clients, heap) := by
  cases rounds with
  | zero => rfl
  | succ rounds => rw [cleanUpFrom, List.getElem?_eq_none h]

/-- The loop behind the entries that it has passed. The induction follows the sweep. -/
theorem cleanUpFrom_eq (before clients : List Record) (heap : Heap) {rounds : Nat}
    (h : clients.length ≤ rounds) :
    cleanUpFrom rounds before.length (before ++ clients) heap =
      (before ++ Sweep.kept isDead clients,
        heap.freeAll ((Sweep.released isDead clients).map Record.address)) := by
  have hat : ∀ (x : Record) (rest : List Record),
      (before ++ x :: rest)[before.length]? = some x := by simp
  fun_induction Sweep.kept isDead clients generalizing before heap rounds with
  | case1 =>
    rw [List.append_nil, cleanUpFrom_of_le _ _ le_rfl]
    rfl
  | case2 x hx =>
    -- a disconnected client in the last place is cut off, and not freed
    obtain ⟨k, rfl⟩ := Nat.exists_eq_add_of_le' h
    have hsockfd : x.client.sockfd = -1 := by simpa [isDead] using hx
    have hlast : (before ++ [x]).take ((before ++ [x]).length - 1) = before := by simp
    rw [show k + [x].length = k + 1 from rfl, cleanUpFrom, hat x []]
    simp only [hsockfd, if_true, hlast]
    rw [if_neg (by simp), cleanUpFrom_of_le _ _ (Nat.le_succ _), List.append_nil]
    rfl
  | case3 x hx =>
    -- an open client in the last place
    obtain ⟨k, rfl⟩ := Nat.exists_eq_add_of_le' h
    have hsockfd : x.client.sockfd ≠ -1 := by simpa [isDead] using hx
    rw [show k + [x].length = k + 1 from rfl, cleanUpFrom, hat x []]
    simp only [hsockfd, if_false]
    rw [cleanUpFrom_of_le _ _ (by simp)]
    rfl
  | case4 x y rest hx ih =>
    -- a disconnected client: the one after it moves up, and is passed over
    obtain ⟨k, rfl⟩ := Nat.exists_eq_add_of_le' h
    have hsockfd : x.client.sockfd = -1 := by simpa [isDead] using hx
    have herase : (before ++ x :: y :: rest).eraseIdx before.length = (before ++ [y]) ++ rest := by
      simp [List.eraseIdx_append_of_length_le]
    have hnext := ih (before ++ [y]) (heap.free x.address)
      (show rest.length ≤ k + rest.length + 1 by omega) (by simp)
    rw [show k + (x :: y :: rest).length = k + rest.length + 1 + 1 from rfl, cleanUpFrom, hat]
    simp only [hsockfd, if_true, herase]
    rw [if_pos (by simp), show before.length + 1 = (before ++ [y]).length by simp, hnext]
    simp [Sweep.released, hx, Heap.freeAll]
  | case5 x y rest hx ih =>
    -- an open client: on to the next
    obtain ⟨k, rfl⟩ := Nat.exists_eq_add_of_le' h
    have hsockfd : x.client.sockfd ≠ -1 := by simpa [isDead] using hx
    have hnext := ih (before ++ [x]) heap
      (show (y :: rest).length ≤ k + (y :: rest).length by omega) (by simp)
    rw [show k + (x :: y :: rest).length = k + (y :: rest).length + 1 from rfl, cleanUpFrom, hat]
    simp only [hsockfd, if_false]
    rw [show before.length + 1 = (before ++ [x]).length by simp,
      show before ++ x :: y :: rest = (before ++ [x]) ++ y :: rest by simp, hnext]
    simp [Sweep.released, hx]

/-- **The clean-up** is a sweep that frees the records it releases. -/
theorem cleanUp_eq (clients : List Record) (heap : Heap) :
    cleanUp clients heap =
      (Sweep.kept isDead clients,
        heap.freeAll ((Sweep.released isDead clients).map Record.address)) :=
  cleanUpFrom_eq [] clients heap le_rfl

end SdkSnmpd
