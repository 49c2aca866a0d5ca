import SdkSnmpd.Replies

/-!
# The UDP Service

`handle_udp_client` of `mini_snmpd.c`: receive a datagram into the one record that all UDP
peers share, pass it to the protocol handler, and send the reply.

## Contents

- `handleUdpClient`: one call. What the environment contributes to it is a `UdpInput`.
- `handleUdpClient_received`, `handleUdpClient_failed`: its two ways, and
  `handleUdpClient_dead`: after a failed receive the service no longer handles anything.
- `serveUdp`: the calls one after another.
- `survivesErrors_iff`: a run meets the contract exactly when no receive fails in it.
-/

namespace SdkSnmpd

open Lib (Mem Scan)

/-! ## One call -/

/-- A datagram as `recvfrom` stores it: a buffer full at most. -/
structure Datagram where
  bytes : List UInt8
  fits : bytes.length ≤ maxPacketSize

/-- What one call finds in its environment. -/
structure UdpInput where
  /-- What `recvfrom` stores in the packet buffer, or nothing when it returns -1. -/
  datagram : Option Datagram
  /-- The socket address after `recvfrom`: the sender's, or what the stack held. -/
  addr : Nat
  port : Nat
  now : Int
  mib : Mib

/-- What one call does. -/
structure UdpCall where
  /-- `g_udp_client` when the call returns. -/
  client : Client
  /-- The record as it is passed to `snmp`. -/
  passed : Option Client
  /-- The bytes given to `sendto`. -/
  sent : Option (List UInt8)

/-- The value of an `int` after its conversion to `size_t`. -/
def toSizeT (x : Int) : Nat := (x % sizeTModulus).toNat

/-- The return value of `recvfrom`. -/
def UdpInput.rv (input : UdpInput) : Int :=
  match input.datagram with
  | none => -1
  | some datagram => datagram.bytes.length

/-- The packet buffer after `recvfrom`. -/
def UdpInput.store (input : UdpInput) (packet : Mem) : Mem :=
  match input.datagram with
  | none => packet
  | some datagram => packet.write 0 datagram.bytes

/-- The record once it is filled out. -/
def UdpInput.fill (input : UdpInput) (udpSockfd : Int) (client : Client) : Client where
  timestamp := input.now
  sockfd := udpSockfd
  addr := input.addr
  port := input.port
  packet := input.store client.packet
  size := toSizeT input.rv
  outgoing := false

/-- What follows the call of `snmp`: a reply that is not empty is sent. -/
def udpReply (filled : Client) : Except Failure Unit × Client → UdpCall
  | (.error _, client) => { client, passed := some filled, sent := none }
  | (.ok (), client) =>
      if client.size = 0 then { client, passed := some filled, sent := none }
      else
        { client := { client with outgoing := true }
          passed := some filled
          sent := some (client.packet.slice 0 client.size) }

def handleUdpClient (config : Config) (udpSockfd : Int) (client : Client) (input : UdpInput) :
    UdpCall :=
  -- the size that is tested is the one that an earlier call has left
  if client.size = toSizeT (-1) then
    { client := { client with packet := input.store client.packet }, passed := none, sent := none }
  else
    let filled := input.fill udpSockfd client
    udpReply filled (snmp config input.mib.values filled)

/-! ## What one call does -/

section

variable (config : Config) (udpSockfd : Int) {client : Client} {input : UdpInput}

theorem toSizeT_natCast {n : Nat} (h : n ≤ maxPacketSize) : toSizeT n = n := by
  unfold maxPacketSize at h
  unfold toSizeT sizeTModulus
  omega

theorem toSizeT_neg_one_gt : maxPacketSize + 65540 < toSizeT (-1) := by decide

/-- A packet that fits into the buffer does not look like a failed receive. -/
theorem ne_toSizeT_neg_one {size : Nat} (h : size ≤ maxPacketSize) : size ≠ toSizeT (-1) := by
  have hgt := toSizeT_neg_one_gt
  omega

theorem udpReply_passed (filled : Client) (r : Except Failure Unit × Client) :
    (udpReply filled r).passed = some filled ∧ (udpReply filled r).client.size = r.2.size := by
  obtain ⟨e | u, client⟩ := r
  · exact ⟨rfl, rfl⟩
  · by_cases hempty : client.size = 0
    · simp [udpReply, hempty]
    · simp [udpReply, hempty]

/-- A call that gets to the protocol handler passes the record filled out by it, and keeps
    the size that the handler leaves. -/
theorem handleUdpClient_of_ne (h : client.size ≠ toSizeT (-1)) :
    (handleUdpClient config udpSockfd client input).passed = some (input.fill udpSockfd client) ∧
      (handleUdpClient config udpSockfd client input).client.size =
        (snmp config input.mib.values (input.fill udpSockfd client)).2.size := by
  unfold handleUdpClient
  rw [if_neg h]
  exact udpReply_passed _ _

/-- A call that has received a datagram passes exactly its bytes, and leaves a packet that
    fits into the buffer. -/
theorem handleUdpClient_received {datagram : Datagram} (hdatagram : input.datagram = some datagram)
    (h : client.size ≤ maxPacketSize) :
    (∃ filled, (handleUdpClient config udpSockfd client input).passed = some filled ∧
        filled.size = datagram.bytes.length ∧ filled.packet.HoldsAt 0 datagram.bytes) ∧
      (handleUdpClient config udpSockfd client input).client.size ≤ maxPacketSize := by
  have hne := ne_toSizeT_neg_one h
  obtain ⟨hpassed, hclient⟩ := handleUdpClient_of_ne config udpSockfd hne
  have hsize : (input.fill udpSockfd client).size = datagram.bytes.length := by
    have hrv : input.rv = datagram.bytes.length := by simp only [UdpInput.rv, hdatagram]
    simp only [UdpInput.fill, hrv]
    exact toSizeT_natCast datagram.fits
  have hpacket : (input.fill udpSockfd client).packet = client.packet.write 0 datagram.bytes := by
    simp only [UdpInput.fill, UdpInput.store, hdatagram]
  refine ⟨⟨_, hpassed, hsize, ?_⟩, ?_⟩
  · rw [hpacket]
    exact Mem.slice_write_self _ _ _
  · rw [hclient]
    apply snmp_size_le
    rw [hsize]
    exact datagram.fits

/-- A failed receive hands the handler a record of `SIZE_MAX` bytes: the packet of an earlier
    call. -/
theorem handleUdpClient_failed (hfailed : input.datagram = none)
    (h : client.size ≤ maxPacketSize) :
    ∃ filled, (handleUdpClient config udpSockfd client input).passed = some filled ∧
      filled.size = toSizeT (-1) ∧ filled.packet = client.packet := by
  have hne := ne_toSizeT_neg_one h
  refine ⟨_, (handleUdpClient_of_ne config udpSockfd hne).1, ?_, ?_⟩
  · simp only [UdpInput.fill, UdpInput.rv, hfailed]
  · simp only [UdpInput.fill, UdpInput.store, hfailed]

/-- The header of a message cannot span `SIZE_MAX` bytes. -/
theorem decodeSnmpRequest_sizeMax (packet : Mem) {request : Request} {pos : Nat} :
    (decodeSnmpRequest (toSizeT (-1))).eval packet ≠ .ok (request, pos) := by
  intro h
  simp only [decodeSnmpRequest, Scan.eval_bind_eq_ok] at h
  obtain ⟨q, hmessage, -⟩ := h
  have hheader := decodeMessageHeader_ok hmessage
  -- the length in the header has 16 bits, and has to reach to the end
  have hlen := hheader.length_lt
  have hpos := hheader.bounds
  have hgt := toSizeT_neg_one_gt
  omega

/-- After a failed receive the size stays at `SIZE_MAX`. -/
theorem handleUdpClient_failed_size (hfailed : input.datagram = none)
    (h : client.size ≤ maxPacketSize) :
    (handleUdpClient config udpSockfd client input).client.size = toSizeT (-1) := by
  have hne := ne_toSizeT_neg_one h
  have hsize : (input.fill udpSockfd client).size = toSizeT (-1) := by
    simp only [UdpInput.fill, UdpInput.rv, hfailed]
  rw [(handleUdpClient_of_ne config udpSockfd hne).2]
  cases hdec : (decodeSnmpRequest (input.fill udpSockfd client).size).eval
      (input.fill udpSockfd client).packet with
  | error e =>
    -- the packet cannot be decoded, and its size stays as it is
    rw [snmp_of_rejected hdec, hsize]
  | ok result =>
    rw [hsize] at hdec
    exact absurd hdec (decodeSnmpRequest_sizeMax _)

/-- From then on no call passes anything on. -/
theorem handleUdpClient_dead (h : client.size = toSizeT (-1)) :
    (handleUdpClient config udpSockfd client input).passed = none ∧
      (handleUdpClient config udpSockfd client input).client.size = toSizeT (-1) := by
  unfold handleUdpClient
  rw [if_pos h]
  exact ⟨rfl, h⟩

end

/-! ## Runs -/

/-- The calls for the inputs, one after another. -/
def serveUdp (config : Config) (udpSockfd : Int) : Client → List UdpInput → List UdpCall
  | _, [] => []
  | client, input :: inputs =>
      let call := handleUdpClient config udpSockfd client input
      call :: serveUdp config udpSockfd call.client inputs

/-- The call passes the datagram it has received to the protocol handler, and nothing else. -/
def PassesReceived (input : UdpInput) (call : UdpCall) : Prop :=
  match input.datagram with
  | none => call.passed = none
  | some datagram => ∃ filled, call.passed = some filled ∧
      filled.size = datagram.bytes.length ∧ filled.packet.HoldsAt 0 datagram.bytes

/-- What others see of a call: the record passed on, and the bytes sent. -/
def UdpCall.seen (call : UdpCall) : Option Client × Option (List UInt8) :=
  (call.passed, call.sent)

/-- Failed receives do no harm in a run. -/
structure SurvivesErrors (config : Config) (udpSockfd : Int) (client : Client)
    (inputs : List UdpInput) : Prop where
  /-- Every call passes on what it has received, and only that. -/
  passes : List.Forall₂ PassesReceived inputs (serveUdp config udpSockfd client inputs)
  size : ∀ call ∈ serveUdp config udpSockfd client inputs, call.client.size ≤ maxPacketSize
  /-- The calls that receive something go as if the failed ones had not been made. -/
  unaffected :
    ((inputs.zip (serveUdp config udpSockfd client inputs)).filter
        fun step => step.1.datagram.isSome).map (fun step => step.2.seen) =
      (serveUdp config udpSockfd client
        (inputs.filter fun input => input.datagram.isSome)).map UdpCall.seen

section

variable (config : Config) (udpSockfd : Int) {client : Client} {inputs : List UdpInput}

theorem length_serveUdp : (serveUdp config udpSockfd client inputs).length = inputs.length := by
  induction inputs generalizing client with
  | nil => rfl
  | cons input inputs ih => simp [serveUdp, ih]

/-- A run in which every receive succeeds. -/
theorem serveUdp_received (hsize : client.size ≤ maxPacketSize)
    (h : ∀ input ∈ inputs, input.datagram ≠ none) :
    List.Forall₂ PassesReceived inputs (serveUdp config udpSockfd client inputs) ∧
      ∀ call ∈ serveUdp config udpSockfd client inputs, call.client.size ≤ maxPacketSize := by
  induction inputs generalizing client with
  | nil => exact ⟨.nil, fun _ h => absurd h List.not_mem_nil⟩
  | cons input inputs ih =>
    obtain ⟨datagram, hdatagram⟩ := Option.ne_none_iff_exists'.mp (h input List.mem_cons_self)
    obtain ⟨hpassed, hfits⟩ := handleUdpClient_received config udpSockfd hdatagram hsize
    obtain ⟨hrest, hsizes⟩ := ih hfits fun i hi => h i (List.mem_cons_of_mem _ hi)
    constructor
    · apply List.Forall₂.cons _ hrest
      simpa only [PassesReceived, hdatagram] using hpassed
    · intro call hcall
      rcases List.mem_cons.mp hcall with rfl | hmem
      · exact hfits
      · exact hsizes call hmem

/-- The first failed receive of a run passes on what it should not. -/
theorem received_of_passes (hsize : client.size ≤ maxPacketSize)
    (h : List.Forall₂ PassesReceived inputs (serveUdp config udpSockfd client inputs)) :
    ∀ input ∈ inputs, input.datagram ≠ none := by
  induction inputs generalizing client with
  | nil => exact fun _ h => absurd h List.not_mem_nil
  | cons input inputs ih =>
    obtain ⟨hpasses, hrest⟩ := List.forall₂_cons.mp h
    cases hdatagram : input.datagram with
    | none =>
      -- the call passes on the packet of an earlier one
      obtain ⟨filled, hpassed, -⟩ :=
        handleUdpClient_failed config udpSockfd hdatagram hsize
      simp only [PassesReceived, hdatagram, hpassed] at hpasses
      cases hpasses
    | some datagram =>
      have hfits := (handleUdpClient_received config udpSockfd hdatagram hsize).2
      intro i hi
      rcases List.mem_cons.mp hi with rfl | hmem
      · simp [hdatagram]
      · exact ih hfits hrest i hmem

/-- **A dead service.** Once the size is `SIZE_MAX`, no datagram gets through any more. -/
theorem serveUdp_dead (h : client.size = toSizeT (-1)) :
    ∀ call ∈ serveUdp config udpSockfd client inputs, call.passed = none := by
  induction inputs generalizing client with
  | nil => exact fun _ h => absurd h List.not_mem_nil
  | cons input inputs ih =>
    obtain ⟨hpassed, hsize⟩ := handleUdpClient_dead config udpSockfd h
    intro call hcall
    rcases List.mem_cons.mp hcall with rfl | hmem
    · exact hpassed
    · exact ih hsize call hmem

end

/-- **Receive errors.** A run meets the contract exactly when no receive fails in it. -/
theorem survivesErrors_iff (config : Config) (udpSockfd : Int) (client : Client)
    (inputs : List UdpInput) (hsize : client.size ≤ maxPacketSize) :
    SurvivesErrors config udpSockfd client inputs ↔
      ∀ input ∈ inputs, input.datagram ≠ none := by
  constructor
  · intro h
    exact received_of_passes config udpSockfd hsize h.passes
  · -- without failed receives there is nothing to filter out
    intro h
    obtain ⟨hpasses, hsizes⟩ := serveUdp_received config udpSockfd hsize h
    have hsome : ∀ input ∈ inputs, input.datagram.isSome = true := fun input hmem =>
      Option.isSome_iff_ne_none.mpr (h input hmem)
    have hinputs : inputs.filter (fun input => input.datagram.isSome) = inputs :=
      List.filter_eq_self.mpr hsome
    have hsteps : (inputs.zip (serveUdp config udpSockfd client inputs)).filter
        (fun step => step.1.datagram.isSome) =
          inputs.zip (serveUdp config udpSockfd client inputs) :=
      List.filter_eq_self.mpr fun step hstep => hsome step.1 (List.of_mem_zip hstep).1
    refine ⟨hpasses, hsizes, ?_⟩
    have hcalls : (inputs.zip (serveUdp config udpSockfd client inputs)).map Prod.snd =
        serveUdp config udpSockfd client inputs :=
      List.map_snd_zip (length_serveUdp config udpSockfd).le
    rw [hinputs, hsteps]
    calc (inputs.zip (serveUdp config udpSockfd client inputs)).map (fun step => step.2.seen)
        = ((inputs.zip (serveUdp config udpSockfd client inputs)).map Prod.snd).map
            UdpCall.seen := by rw [List.map_map]; rfl
      _ = (serveUdp config udpSockfd client inputs).map UdpCall.seen := by rw [hcalls]

/-- A receive that fails, and one that yields the padded request. -/
def failedReceive : UdpInput := ⟨none, 0, 0, 1, emptyMib⟩

def goodReceive : UdpInput := ⟨some ⟨paddedGet, by decide⟩, 1, 161, 2, emptyMib⟩

/-- The failed receive passes something on, and the request after it is lost. -/
theorem failedReceive_not_survived :
    ¬ SurvivesErrors ⟨communityP, false⟩ 3 Client.empty [failedReceive, goodReceive] := by
  intro h
  obtain ⟨-, hrest⟩ := List.forall₂_cons.mp h.passes
  obtain ⟨hgood, -⟩ := List.forall₂_cons.mp hrest
  have hdead : (handleUdpClient ⟨communityP, false⟩ 3 Client.empty failedReceive).client.size =
      toSizeT (-1) := handleUdpClient_failed_size ⟨communityP, false⟩ 3 rfl (by decide)
  obtain ⟨filled, hpassed, -⟩ := hgood
  rw [(handleUdpClient_dead ⟨communityP, false⟩ 3 hdead).1] at hpassed
  cases hpassed

theorem survivesErrors_iff_failedReceive :
    SurvivesErrors ⟨communityP, false⟩ 3 Client.empty [failedReceive, goodReceive] ↔
      ∀ input ∈ [failedReceive, goodReceive], input.datagram ≠ none :=
  survivesErrors_iff ⟨communityP, false⟩ 3 Client.empty [failedReceive, goodReceive] (by decide)

end SdkSnmpd
