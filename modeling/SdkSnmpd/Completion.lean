import SdkSnmpd.Tcp

/-!
# Packets that Can Still Be Completed

`snmp_packet_complete` tells a TCP client to wait for more. This module compares that with the
continuations that a packet has.

## Contents

- `Client.Continues`, `Completable`: a continuation of the packet is complete or rejected.
- `DeclaresLess`: the packet holds more than the message that it declares, or will do so before
  it is looked at.
- `completable_iff`: a packet has such a continuation exactly when it does not declare less.
- `readings_of_declaresLess`: a client whose packet declares less waits, whatever arrives.
-/

namespace SdkSnmpd

open Lib (Mem)
open Lib.Ber (HeaderAt beNat)

/-- The packet of `client'` starts with the one of `client`, and fits into its buffer. -/
structure Client.Continues (client client' : Client) : Prop where
  size : client.size ≤ client'.size
  fits : client'.size ≤ maxPacketSize
  packet : Mem.AgreeBelow client.size client.packet client'.packet

/-- Some continuation of the packet is complete, or is rejected. -/
def Completable (client : Client) : Prop :=
  ∃ client', client.Continues client' ∧ snmpPacketComplete client' ≠ .ok false

/-- The packet starts with the header of a message that ends before the packet does, or before
    the 25 bytes that are waited for. -/
def DeclaresLess (client : Client) : Prop :=
  ∃ length q, PacketHeader client.packet client.size 0 berTypeSequence length q ∧ 1 ≤ length ∧
    q + length < max client.size 25

section

variable {client client' : Client}

/-- The client waits exactly while there are less than 25 bytes, or more than are declared. -/
theorem snmpPacketComplete_eq_false_iff :
    snmpPacketComplete client = .ok false ↔ client.size < 25 ∨
      ∃ length q, PacketHeader client.packet client.size 0 berTypeSequence length q ∧
        1 ≤ length ∧ q + length < client.size := by
  by_cases hshort : client.size < 25
  · exact iff_of_true (snmpPacketComplete_of_short hshort) (.inl hshort)
  rw [or_iff_right hshort]
  constructor
  · intro hcomplete
    rw [snmpPacketComplete, if_neg hshort] at hcomplete
    split at hcomplete
    · cases hcomplete
    · -- the header is accepted, and the rest differs from the length it declares
      rename_i header hheader
      have hdr := (eval_typeLength_eq_ok client.packet).mp hheader
      have hb := hdr.bounds
      split_ifs at hcomplete with hbad
      simp only [not_or, not_not, Nat.not_lt] at hbad
      obtain ⟨htype, hlength, hfit⟩ := hbad
      rw [htype] at hdr
      refine ⟨header.length, header.pos, hdr, hlength, ?_⟩
      have hne : client.size - header.pos ≠ header.length := by simpa using hcomplete
      omega
  · rintro ⟨length, q, hdr, hlength, hless⟩
    have hdec := (eval_typeLength_eq_ok client.packet (h := ⟨berTypeSequence, length, q⟩)).mpr hdr
    have hne : client.size - q ≠ length := by omega
    rw [snmpPacketComplete, if_neg hshort, hdec]
    simp only [ne_eq, not_true_eq_false, false_or, hne, decide_false]
    rw [if_neg (by omega)]

/-- The header of a packet is the header of its continuations. -/
theorem Client.Continues.header (h : client.Continues client') {tag : UInt8} {length q : Nat}
    (hdr : PacketHeader client.packet client.size 0 tag length q) :
    PacketHeader client'.packet client'.size 0 tag length q := by
  have hb := hdr.bounds
  have hsize := h.size
  have hmem : ∀ i < q, client'.packet (0 + i) = client.packet i := by
    intro i hi
    rw [Nat.zero_add]
    exact (h.packet i (by omega)).symm
  simpa using hdr.shift hmem (show 0 + q ≤ client'.size by omega)

/-- More bytes do not help a packet that declares less. -/
theorem DeclaresLess.continues (hless : DeclaresLess client) (h : client.Continues client') :
    DeclaresLess client' := by
  obtain ⟨length, q, hdr, hlength, hend⟩ := hless
  have hsize := h.size
  exact ⟨length, q, h.header hdr, hlength, by omega⟩

theorem DeclaresLess.waits (hless : DeclaresLess client) :
    snmpPacketComplete client = .ok false := by
  obtain ⟨length, q, hdr, hlength, hend⟩ := hless
  rw [snmpPacketComplete_eq_false_iff]
  by_cases hshort : client.size < 25
  · exact .inl hshort
  · exact .inr ⟨length, q, hdr, hlength, by omega⟩

/-- The packet, continued with zeros up to 25 bytes. -/
def Client.padded (client : Client) : Client :=
  { client with packet := fun i => if i < client.size then client.packet i else 0, size := 25 }

theorem Client.continues_padded (hshort : client.size < 25) : client.Continues client.padded where
  size := Nat.le_of_lt hshort
  fits := show 25 ≤ maxPacketSize by decide
  packet := fun _ hi => (if_pos hi).symm

/-- A header that reaches into the zeros declares nothing, or more than 25 bytes. -/
theorem Client.padded_header {tag : UInt8} {length q : Nat}
    (hdr : PacketHeader client.padded.packet client.padded.size 0 tag length q)
    (hlength : 1 ≤ length) (hend : q + length < 25) : q ≤ client.size := by
  have hzero : ∀ i, client.size ≤ i → client.padded.packet i = 0 := fun i hi =>
    if_neg (Nat.not_lt.mpr hi)
  by_contra hover
  cases hdr with
  | short htag hlow hfit =>
    -- the length octet is a zero
    rw [hzero (0 + 1) (by omega)] at hlength
    exact absurd hlength (by decide)
  | long k hk htag hhigh hfit =>
    have hsize : 2 ≤ client.size := by
      by_contra hsmall
      rw [hzero (0 + 1) (by omega), show (0 : UInt8).toNat = 0 from rfl] at hhigh
      omega
    match k, hk with
    | 0, _ => omega
    | 1, _ =>
      simp only [Mem.slice_succ, Mem.slice_zero, hzero (0 + 2) (by omega)] at hlength
      exact absurd hlength (by decide)
    | 2, _ =>
      -- only the last length octet can be missing without the other one
      have hlast : client.padded.packet (0 + 2 + 1) = 0 := hzero _ (by omega)
      simp only [Mem.slice_succ, Mem.slice_zero, hlast, beNat, List.foldl_cons, List.foldl_nil,
        show (0 : UInt8).toNat = 0 from rfl] at hlength hend
      omega

end

/-- **Completion.** A packet has a continuation that is complete or rejected exactly when it does
    not start with the header of a message that ends before the packet does, or before 25
    bytes. -/
theorem completable_iff (client : Client) (hsize : client.size ≤ maxPacketSize) :
    Completable client ↔ ¬ DeclaresLess client := by
  constructor
  · rintro ⟨client', hcontinues, hcomplete⟩ hless
    exact hcomplete (hless.continues hcontinues).waits
  · intro hmore
    by_cases hshort : client.size < 25
    · -- the zeros make up a header that is rejected, or there is one already
      refine ⟨client.padded, Client.continues_padded hshort, fun hwaits => hmore ?_⟩
      rw [snmpPacketComplete_eq_false_iff] at hwaits
      obtain hlt | ⟨length, q, hdr, hlength, hend⟩ := hwaits
      · exact absurd hlt (Nat.lt_irrefl 25)
      · have hinside := Client.padded_header hdr hlength hend
        have hmem : ∀ i < q, client.packet (0 + i) = client.padded.packet i := by
          intro i hi
          rw [Nat.zero_add]
          exact (if_pos (show i < client.size by omega)).symm
        have hown := hdr.shift hmem (show 0 + q ≤ client.size by omega)
        rw [Nat.zero_add, Nat.zero_add] at hown
        exact ⟨length, q, hown, hlength, by
          have hlt : q + length < 25 := hend
          omega⟩
    · -- with 25 bytes or more the packet itself is judged
      refine ⟨client, ⟨le_rfl, hsize, fun _ _ => rfl⟩, fun hwaits => hmore ?_⟩
      rw [snmpPacketComplete_eq_false_iff, or_iff_right hshort] at hwaits
      obtain ⟨length, q, hdr, hlength, hend⟩ := hwaits
      exact ⟨length, q, hdr, hlength, by omega⟩

/-- The request of `plainGet` and the first byte of the next one. -/
def coalescedClient : Client := .holding (Mem.ofList (plainGet ++ [0x30])) 30

/-- A complete message with the start of the next one: the client waits, and nothing that
    arrives changes this. -/
theorem coalesced_not_completable :
    (∃ r, (decodeSnmpRequest 29).eval coalescedClient.packet = .ok r) ∧
      snmpPacketComplete coalescedClient = .ok false ∧ ¬ Completable coalescedClient := by
  have hless : DeclaresLess coalescedClient :=
    ⟨27, 2, .short (by decide) (by decide) (by decide), by decide, by decide⟩
  have hpos : ((decodeSnmpRequest 29).eval coalescedClient.packet).toOption.map Prod.snd =
      some 29 := by decide +kernel
  obtain ⟨r, hdec, -⟩ := Lib.exists_ok_of_toOption hpos
  refine ⟨⟨r, hdec⟩, hless.waits, ?_⟩
  rintro ⟨client', hcontinues, hcomplete⟩
  exact hcomplete (hless.continues hcontinues).waits

theorem completable_iff_coalesced :
    Completable coalescedClient ↔ ¬ DeclaresLess coalescedClient :=
  completable_iff coalescedClient (by decide)

/-! ## Clients that wait for good -/

/-- What a client reads continues its packet. -/
theorem Client.continues_receive {client : Client} {bytes : List UInt8}
    (hfit : client.size + bytes.length ≤ maxPacketSize) (now : Int) :
    client.Continues (client.receive bytes now) where
  size := Nat.le_add_right _ _
  fits := hfit
  packet := fun _ hi => (Mem.write_of_lt _ _ hi).symm

/-- **Waiting for good.** An open client whose packet declares less is left waiting by every
    segment that still fits into its buffer. The induction is on the segments. -/
theorem readings_of_declaresLess (config : Config) (segments : List Segment) {client : Client}
    (hopen : client.sockfd ≠ -1) (hless : DeclaresLess client)
    (hne : ∀ segment ∈ segments, segment.bytes ≠ [])
    (hfit : client.size + (joined segments).length ≤ maxPacketSize) :
    ∀ reading ∈ readings config client segments, Waiting reading := by
  induction segments generalizing client with
  | nil => exact fun _ h => absurd h List.not_mem_nil
  | cons segment segments ih =>
    have hjoined : (joined (segment :: segments)).length =
        segment.bytes.length + (joined segments).length := by
      rw [joined, List.flatMap_cons, List.length_append]
      rfl
    have hcontinues : client.Continues (client.receive segment.bytes segment.now) :=
      Client.continues_receive (by omega) segment.now
    -- the segment is judged together with what the client has sent before
    have hnext := hless.continues hcontinues
    have hreading : handleTcpClientRead config segment.mib.values client (some segment.bytes)
        segment.now = (client.receive segment.bytes segment.now, .incomplete) := by
      rw [handleTcpClientRead_of_fits config _ _ (hne segment List.mem_cons_self) (by omega),
        hnext.waits]
    rw [readings, hreading, List.forall_mem_cons]
    refine ⟨⟨hopen, hnext.waits, rfl⟩, ih hopen hnext
      (fun s hs => hne s (List.mem_cons_of_mem _ hs)) ?_⟩
    change client.size + segment.bytes.length + (joined segments).length ≤ maxPacketSize
    omega

end SdkSnmpd
