import SdkSnmpd.Replies

/-!
# TCP Clients

`snmp_packet_complete` of `protocol.c`, and the handlers of `mini_snmpd.c` for a TCP client
that can be read from or written to.

## Contents

- `snmpPacketComplete`, `handleTcpClientRead`, `handleTcpClientWrite`.
- `handleTcpClientRead_size_le`: the packet stays inside its buffer.
- `readings`: a message that arrives in segments. `readings_waiting_iff`: the client is open
  and waiting after every segment but the last exactly when fewer than 25 bytes have arrived
  before the last.
-/

namespace SdkSnmpd

open Lib (Mem Scan)
open Lib.Ber (HeaderAt)

/-! ## The handlers -/

/-- Whether the whole packet was received: an error, or 1 or 0. -/
def snmpPacketComplete (client : Client) : Except Failure Bool :=
  -- too short for a message: wait for more
  if client.size < 25 then .ok false
  else
    match (decodeSnmpElementTypeLength client.size 0).eval client.packet with
    | .error e => .error e
    | .ok header =>
        if header.type ≠ berTypeSequence ∨ header.length < 1 ∨
            header.length > client.size - header.pos then
          .error (einval "unexpected SNMP header type %02X length %d")
        else .ok (decide (client.size - header.pos = header.length))

/-- How `handle_tcp_client_read` returns. -/
inductive ReadEnd where
  /-- `read` returned -1. -/
  | failed
  /-- `read` returned 0. -/
  | disconnected
  /-- `snmp_packet_complete` returned -1. -/
  | malformed
  /-- The packet is not complete: the client waits for more. -/
  | incomplete
  /-- `snmp` was called and returned -1. -/
  | unhandled
  /-- `snmp` was called and left an empty packet. -/
  | ignored
  /-- `snmp` was called and the response waits to be sent. -/
  | answered
  deriving DecidableEq

/-- Close the socket of a client. -/
def Client.close (client : Client) : Client := { client with sockfd := -1 }

/-- Append what was read to the packet. -/
def Client.receive (client : Client) (received : List UInt8) (now : Int) : Client :=
  { client with
    timestamp := now
    packet := client.packet.write client.size received
    size := client.size + received.length }

/-- Handle a complete packet. -/
def handleTcpPacket (config : Config) (values : List Value) (client : Client) :
    Client × ReadEnd :=
  match snmp config values { client with outgoing := false } with
  | (.error _, client) => (client.close, .unhandled)
  | (.ok (), client) =>
      if client.size = 0 then (client.close, .ignored)
      else ({ client with outgoing := true }, .answered)

/-- `arrived` is what can be read from the socket, or nothing where `read` returns -1. -/
def handleTcpClientRead (config : Config) (values : List Value) (client : Client)
    (arrived : Option (List UInt8)) (now : Int) : Client × ReadEnd :=
  match arrived with
  | none => (client.close, .failed)
  | some bytes =>
      let received := bytes.take (maxPacketSize - client.size)
      if received = [] then (client.close, .disconnected)
      else
        let client := client.receive received now
        match snmpPacketComplete client with
        | .error _ => (client.close, .malformed)
        | .ok false => (client, .incomplete)
        | .ok true => handleTcpPacket config values client

/-- `sent` is the return value of `send`, or nothing for -1. -/
def handleTcpClientWrite (client : Client) (sent : Option Nat) : Client :=
  match sent with
  | none => client.close
  | some rv =>
      if rv ≠ client.size then client.close
      -- put the client into listening mode again
      else { client with size := 0, outgoing := false }

/-! ## The packet stays inside its buffer -/

theorem handleTcpPacket_size_le {config : Config} {mib : Mib} {client : Client}
    (h : client.size ≤ maxPacketSize) :
    (handleTcpPacket config mib.values client).1.size ≤ maxPacketSize := by
  have hle : (snmp config mib.values { client with outgoing := false }).2.size ≤ maxPacketSize :=
    snmp_size_le h
  unfold handleTcpPacket
  rcases hrun : snmp config mib.values { client with outgoing := false } with ⟨e | u, client'⟩
  · rw [hrun] at hle
    exact hle
  · rw [hrun] at hle
    by_cases hempty : client'.size = 0
    · simp only [hempty, if_true]
      exact hle
    · simp only [hempty, if_false]
      exact hle

theorem handleTcpClientRead_size_le {config : Config} {mib : Mib} {client : Client}
    {arrived : Option (List UInt8)} {now : Int} (h : client.size ≤ maxPacketSize) :
    (handleTcpClientRead config mib.values client arrived now).1.size ≤ maxPacketSize := by
  cases arrived with
  | none => exact h
  | some bytes =>
    -- `read` stores no more than there is room for
    have hreceive : (client.receive (bytes.take (maxPacketSize - client.size)) now).size ≤
        maxPacketSize := by
      have htake := List.length_take_le (maxPacketSize - client.size) bytes
      simp only [Client.receive]
      omega
    unfold handleTcpClientRead
    simp only
    split_ifs
    · exact h
    · split
      · exact hreceive
      · exact hreceive
      · exact handleTcpPacket_size_le hreceive

theorem handleTcpClientWrite_size_le {client : Client} {sent : Option Nat}
    (h : client.size ≤ maxPacketSize) :
    (handleTcpClientWrite client sent).size ≤ maxPacketSize := by
  cases sent with
  | none => exact h
  | some rv =>
    unfold handleTcpClientWrite
    simp only
    split_ifs
    · exact h
    · exact Nat.zero_le _

/-! ## The socket stays, or is closed -/

theorem handleTcpPacket_sockfd (config : Config) (values : List Value) (client : Client) :
    (handleTcpPacket config values client).1.sockfd = -1 ∨
      (handleTcpPacket config values client).1.sockfd = client.sockfd := by
  have hsockfd := snmp_sockfd config values { client with outgoing := false }
  unfold handleTcpPacket
  rcases hrun : snmp config values { client with outgoing := false } with ⟨e | u, client'⟩
  · exact .inl rfl
  · rw [hrun] at hsockfd
    by_cases hempty : client'.size = 0
    · simp only [hempty, if_true]
      exact .inl rfl
    · simp only [hempty, if_false]
      exact .inr hsockfd

theorem handleTcpClientRead_sockfd (config : Config) (values : List Value) (client : Client)
    (arrived : Option (List UInt8)) (now : Int) :
    (handleTcpClientRead config values client arrived now).1.sockfd = -1 ∨
      (handleTcpClientRead config values client arrived now).1.sockfd = client.sockfd := by
  cases arrived with
  | none => exact .inl rfl
  | some bytes =>
    unfold handleTcpClientRead
    simp only
    split_ifs
    · exact .inl rfl
    · split
      · exact .inl rfl
      · exact .inr rfl
      · exact handleTcpPacket_sockfd config values _

theorem handleTcpClientWrite_sockfd (client : Client) (sent : Option Nat) :
    (handleTcpClientWrite client sent).sockfd = -1 ∨
      (handleTcpClientWrite client sent).sockfd = client.sockfd := by
  cases sent with
  | none => exact .inl rfl
  | some rv =>
    unfold handleTcpClientWrite
    simp only
    split_ifs
    · exact .inl rfl
    · exact .inr rfl

/-! ## Messages that arrive in segments -/

/-- A part of a message, with the time and the MIB at its arrival. -/
structure Segment where
  bytes : List UInt8
  now : Int
  mib : Mib

/-- The segments put together. -/
def joined (segments : List Segment) : List UInt8 := segments.flatMap Segment.bytes

/-- Read the segments one after another. -/
def readings (config : Config) : Client → List Segment → List (Client × ReadEnd)
  | _, [] => []
  | client, segment :: segments =>
      let reading :=
        handleTcpClientRead config segment.mib.values client (some segment.bytes) segment.now
      reading :: readings config reading.1 segments

/-- The client is open and waits for the rest of a packet; the handler was not called. -/
def Waiting (reading : Client × ReadEnd) : Prop :=
  reading.1.sockfd ≠ -1 ∧ snmpPacketComplete reading.1 = .ok false ∧ reading.2 = .incomplete

/-- An open client that has received the first `t` bytes of a message. -/
structure HasReceived (client : Client) (message : Mem) (t : Nat) : Prop where
  isOpen : client.sockfd ≠ -1
  size : client.size = t
  packet : Mem.AgreeBelow t message client.packet

section

variable (config : Config) (values : List Value) {client : Client} {message : Mem} {t n : Nat}
  {bytes : List UInt8} (now : Int)

theorem HasReceived.receive (h : HasReceived client message t) (hbytes : message.HoldsAt t bytes) :
    HasReceived (client.receive bytes now) message (t + bytes.length) where
  isOpen := h.isOpen
  size := by simp only [Client.receive, h.size]
  packet := by
    intro i hi
    simp only [Client.receive, h.size]
    by_cases hold : i < t
    · rw [Mem.write_of_lt _ _ hold]
      exact h.packet i hold
    · -- a byte of the segment
      obtain ⟨k, rfl⟩ := Nat.exists_eq_add_of_le (Nat.not_lt.mp hold)
      have hk : k < bytes.length := by omega
      rw [Mem.write_add _ _ _ hk]
      have hk' : k < (message.slice t bytes.length).length := by simpa using hk
      exact (Mem.getElem_slice message t bytes.length hk').symm.trans
        (List.getElem_of_eq hbytes hk')

theorem snmpPacketComplete_of_short (h : client.size < 25) :
    snmpPacketComplete client = .ok false := by
  unfold snmpPacketComplete
  rw [if_pos h]

/-- A packet of which a part is missing is taken for a malformed one: its header declares
    more than has arrived. -/
theorem snmpPacketComplete_of_part (h : HasReceived client message t) {q : Nat}
    (hheader : PacketHeader message n 0 berTypeSequence (n - q) q) (hlong : 25 ≤ t)
    (hpart : t < n) :
    ∃ e, snmpPacketComplete client = .error e := by
  have hb := hheader.bounds
  -- the header has arrived: it is shorter than 25 bytes
  have hshift : HeaderAt supportedTypes client.packet client.size 0 berTypeSequence (n - q) q := by
    have hmem : ∀ i < q, client.packet (0 + i) = message i := by
      intro i hi
      rw [Nat.zero_add]
      exact (h.packet i (by omega)).symm
    have hsize : 0 + q ≤ client.size := by
      rw [h.size]
      omega
    simpa using hheader.shift hmem hsize
  have hdec := (eval_typeLength_eq_ok client.packet (h := ⟨berTypeSequence, n - q, q⟩)).mpr hshift
  have hsize := h.size
  -- the length that it declares is larger than what is left of the bytes
  refine ⟨einval "unexpected SNMP header type %02X length %d", ?_⟩
  unfold snmpPacketComplete
  rw [if_neg (by omega), hdec]
  exact if_pos (.inr (.inr (show n - q > client.size - q by omega)))

theorem handleTcpClientRead_of_fits (hne : bytes ≠ [])
    (hfit : client.size + bytes.length ≤ maxPacketSize) :
    handleTcpClientRead config values client (some bytes) now =
      match snmpPacketComplete (client.receive bytes now) with
      | .error _ => ((client.receive bytes now).close, .malformed)
      | .ok false => (client.receive bytes now, .incomplete)
      | .ok true => handleTcpPacket config values (client.receive bytes now) := by
  have hall : bytes.take (maxPacketSize - client.size) = bytes :=
    List.take_of_length_le (by omega)
  simp only [handleTcpClientRead, hall, hne, if_false]

/-- The client after the first segments of a message, while it waits. -/
theorem waiting_iff_of_hasReceived (hn : n ≤ maxPacketSize) {q : Nat}
    (hheader : PacketHeader message n 0 berTypeSequence (n - q) q)
    (h : HasReceived client message t) (hbytes : message.HoldsAt t bytes) (hne : bytes ≠ [])
    (hpart : t + bytes.length < n) :
    (Waiting (handleTcpClientRead config values client (some bytes) now) ↔
        t + bytes.length < 25) ∧
      (t + bytes.length < 25 →
        HasReceived (handleTcpClientRead config values client (some bytes) now).1 message
          (t + bytes.length)) := by
  have hsize := h.size
  have hnext := h.receive now hbytes
  rw [handleTcpClientRead_of_fits config values now hne (by omega)]
  by_cases hshort : t + bytes.length < 25
  · -- less than a message can be
    have hcomplete : snmpPacketComplete (client.receive bytes now) = .ok false := by
      apply snmpPacketComplete_of_short
      rw [hnext.size]
      exact hshort
    simp only [hcomplete]
    exact ⟨iff_of_true ⟨hnext.isOpen, hcomplete, rfl⟩ hshort, fun _ => hnext⟩
  · -- the rest of the message is missing: the client is closed
    obtain ⟨e, hcomplete⟩ :=
      snmpPacketComplete_of_part hnext hheader (Nat.not_lt.mp hshort) hpart
    simp only [hcomplete]
    exact ⟨iff_of_false (fun hwaiting => nomatch hwaiting.2.2) hshort,
      fun hlt => absurd hlt hshort⟩

end

/-- The segments of a part of the message. The induction is on the segments; the client has
    waited so far. -/
theorem readings_waiting (config : Config) {message : Mem} {n q : Nat} (hn : n ≤ maxPacketSize)
    (hheader : PacketHeader message n 0 berTypeSequence (n - q) q) (segments : List Segment)
    {client : Client} {t : Nat} (h : HasReceived client message t) (hwait : t < 25)
    (hne : ∀ segment ∈ segments, segment.bytes ≠ [])
    (hbytes : message.HoldsAt t (joined segments)) (hpart : t + (joined segments).length < n) :
    (∀ reading ∈ readings config client segments, Waiting reading) ↔
      t + (joined segments).length < 25 := by
  induction segments generalizing client t with
  | nil => simpa [readings, joined] using hwait
  | cons segment segments ih =>
    have hjoined : joined (segment :: segments) = segment.bytes ++ joined segments := rfl
    rw [hjoined, Mem.holdsAt_append] at hbytes
    rw [hjoined, List.length_append] at hpart ⊢
    obtain ⟨hiff, hnext⟩ := waiting_iff_of_hasReceived config segment.mib.values segment.now
      hn hheader h hbytes.1 (hne segment List.mem_cons_self) (by omega)
    rw [readings, List.forall_mem_cons, hiff]
    -- once a reading has failed, no other bound is needed
    by_cases hshort : t + segment.bytes.length < 25
    · rw [and_iff_right hshort, ih (hnext hshort) hshort
        (fun s hs => hne s (List.mem_cons_of_mem _ hs)) hbytes.2 (by omega), Nat.add_assoc]
    · exact iff_of_false (fun hboth => hshort hboth.1) (by omega)

/-- **TCP fragmentation.** A message that the decoder accepts arrives in segments. The client
    is open and waiting after every segment but the last exactly when fewer than 25 bytes have
    arrived before the last. -/
theorem readings_waiting_iff (config : Config) (message : Mem) (n : Nat) (hn : n ≤ maxPacketSize)
    (haccepted : ∃ r, (decodeSnmpRequest n).eval message = .ok r) (client : Client)
    (hopen : client.sockfd ≠ -1) (hsize : client.size = 0) (segments : List Segment)
    (hne : ∀ segment ∈ segments, segment.bytes ≠ [])
    (hmessage : joined segments = message.slice 0 n) :
    (∀ reading ∈ readings config client segments.dropLast, Waiting reading) ↔
      (joined segments.dropLast).length < 25 := by
  obtain ⟨⟨request, pos⟩, hdec⟩ := haccepted
  obtain ⟨q, hheader⟩ := (decodeSnmpRequest_accepted hn hdec).header
  have hstart : HasReceived client message 0 :=
    ⟨hopen, hsize, fun i hi => absurd hi (Nat.not_lt_zero i)⟩
  rcases List.eq_nil_or_concat segments with rfl | ⟨init, last, rfl⟩
  · simp [readings, joined]
  · rw [List.concat_eq_append] at hne hmessage ⊢
    rw [List.dropLast_concat]
    have hjoined : joined (init ++ [last]) = joined init ++ last.bytes := by simp [joined]
    have hlen : (joined init).length + last.bytes.length = n := by
      rw [← List.length_append, ← hjoined, hmessage, Mem.length_slice]
    have hlast : 0 < last.bytes.length :=
      List.length_pos_iff.mpr (hne last (by simp))
    -- the first segments make up the start of the message
    have hholds : message.HoldsAt 0 (joined init ++ last.bytes) := by
      rw [← hjoined, hmessage]
      exact Mem.holdsAt_slice _ _ _
    have hinit := (Mem.holdsAt_append.mp hholds).1
    have hiff := readings_waiting config hn hheader init hstart (by omega)
      (fun s hs => hne s (List.mem_append_left _ hs)) hinit (by omega)
    rwa [Nat.zero_add] at hiff

/-- A v2c GET request for `.1.3.1`, and its first 26 bytes. -/
def plainGet : List UInt8 :=
  [0x30, 0x1B, 0x02, 0x01, 0x01, 0x04, 0x01, 0x70, 0xA0, 0x13, 0x02, 0x01, 0x01, 0x02, 0x01,
    0x00, 0x02, 0x01, 0x00, 0x30, 0x08, 0x30, 0x06, 0x06, 0x02, 0x2B, 0x01, 0x05, 0x00]

def plainSegments : List Segment :=
  [⟨plainGet.take 26, 0, emptyMib⟩, ⟨plainGet.drop 26, 1, emptyMib⟩]

theorem accepted_plainGet : ∃ r, (decodeSnmpRequest 29).eval (Mem.ofList plainGet) = .ok r := by
  have hpos : ((decodeSnmpRequest 29).eval (Mem.ofList plainGet)).toOption.map Prod.snd =
      some 29 := by decide +kernel
  obtain ⟨r, hdec, -⟩ := Lib.exists_ok_of_toOption hpos
  exact ⟨r, hdec⟩

/-- A client with a connected socket. -/
def connectedClient : Client := { Client.empty with sockfd := 5 }

/-- The connection is closed after the first segment. -/
theorem plainSegments_not_waiting :
    (∃ r, (decodeSnmpRequest 29).eval (Mem.ofList plainGet) = .ok r) ∧
      joined plainSegments = (Mem.ofList plainGet).slice 0 29 ∧
      ¬ ∀ reading ∈ readings ⟨communityP, false⟩ connectedClient plainSegments.dropLast,
        Waiting reading := by
  refine ⟨accepted_plainGet, by decide, fun h => ?_⟩
  have hend := (h _ List.mem_cons_self).2.2
  revert hend
  decide +kernel

theorem readings_waiting_iff_plainSegments :
    (∀ reading ∈ readings ⟨communityP, false⟩ connectedClient plainSegments.dropLast,
        Waiting reading) ↔
      (joined plainSegments.dropLast).length < 25 :=
  readings_waiting_iff ⟨communityP, false⟩ (Mem.ofList plainGet) 29 (by decide) accepted_plainGet
    connectedClient (by decide) rfl plainSegments (by decide) (by decide)

/-! ## Messages that UDP accepts -/

/-- A packet that the decoder accepts starts with a header that declares the rest of it. -/
theorem snmpPacketComplete_of_accepted {client : Client} (hlong : 25 ≤ client.size) {q : Nat}
    (hheader : PacketHeader client.packet client.size 0 berTypeSequence (client.size - q) q) :
    snmpPacketComplete client = .ok true := by
  have hb := hheader.bounds
  have hdec := (eval_typeLength_eq_ok client.packet
    (h := ⟨berTypeSequence, client.size - q, q⟩)).mpr hheader
  unfold snmpPacketComplete
  rw [if_neg (by omega), hdec]
  simp only [ne_eq, not_true_eq_false, false_or, gt_iff_lt, Nat.lt_irrefl, or_false, decide_true]
  rw [if_neg (by omega)]

/-- **TCP and UDP.** A packet that the decoder accepts is complete for a TCP client exactly when
    it has at least 25 bytes. -/
theorem snmpPacketComplete_iff (client : Client) (hsize : client.size ≤ maxPacketSize)
    (haccepted : ∃ r, (decodeSnmpRequest client.size).eval client.packet = .ok r) :
    snmpPacketComplete client = .ok true ↔ 25 ≤ client.size := by
  obtain ⟨⟨request, pos⟩, hdec⟩ := haccepted
  obtain ⟨q, hheader⟩ := (decodeSnmpRequest_accepted hsize hdec).header
  constructor
  · intro hcomplete
    by_contra hshort
    rw [snmpPacketComplete_of_short (Nat.not_le.mp hshort)] at hcomplete
    cases hcomplete
  · intro hlong
    exact snmpPacketComplete_of_accepted hlong hheader

/-- A v2c GET without bindings. -/
def bareGet : List UInt8 :=
  [0x30, 0x13, 0x02, 0x01, 0x01, 0x04, 0x01, 0x70, 0xA0, 0x0B, 0x02, 0x01, 0x01, 0x02, 0x01,
    0x00, 0x02, 0x01, 0x00, 0x30, 0x00]

/-- A TCP client that has received it. -/
def bareClient : Client := .holding (Mem.ofList bareGet) 21

theorem accepted_bareGet :
    ∃ r, (decodeSnmpRequest bareClient.size).eval bareClient.packet = .ok r := by
  have hdec : (decodeSnmpRequest 21).eval (Mem.ofList bareGet) =
      .ok (⟨communityP, berTypeSnmpGet, snmpVersion2c, 1, 0, 0, []⟩, 21) :=
    Lib.ok_of_toOption (by decide +kernel)
  exact ⟨_, hdec⟩

/-- The decoder accepts the packet, but a TCP client waits for the rest of it. -/
theorem bareGet_not_complete :
    (∃ r, (decodeSnmpRequest bareClient.size).eval bareClient.packet = .ok r) ∧
      snmpPacketComplete bareClient = .ok false :=
  ⟨accepted_bareGet, snmpPacketComplete_of_short (by decide)⟩

theorem snmpPacketComplete_iff_bareGet :
    snmpPacketComplete bareClient = .ok true ↔ 25 ≤ bareClient.size :=
  snmpPacketComplete_iff bareClient (by decide) accepted_bareGet

end SdkSnmpd
