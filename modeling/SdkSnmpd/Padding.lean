import SdkSnmpd.RoundTrip
import SdkSnmpd.Snmp

/-!
# Padded OIDs

A packet may spell a subid with leading zero groups. The encoder writes such an OID in its shortest
form, but into a slot of the length that it came with, so that the response has a gap behind it.

## Contents

- `Unpadded`: no OID of a request came with more octets than it needs.
- `exactOid_of_answer`: then no answer of the agent has a gap.
- `ShowsAt`: content with gaps in memory, and how it is read.
- `exact_of_readVarbinds`: a reader never gets over a gap.
-/

namespace SdkSnmpd

open Lib (Mem Scan Content)
open Lib.Ber (tlv)

/-! ## OIDs of exact length -/

/-- No OID of the request came with more octets than it needs. -/
def Unpadded (request : Request) : Prop :=
  ∀ oid ∈ request.oidList, oid.encodedLength = (encodeSnmpOid oid).length

/-- Every closed row of octets has as many subids as it has stops. -/
theorem length_subidsOf (acc : UInt32) (bs : List UInt8) : (subidsOf acc bs).length = stops bs := by
  induction bs generalizing acc with
  | nil => rfl
  | cons b bs ih =>
    rw [subidsOf, stops_cons]
    split
    · rw [List.length_cons, ih]
    · rw [ih, Nat.add_zero]

section

variable {n : Nat}

theorem DecodedOid.length_subidList_le {oid : Oid} (h : DecodedOid n oid) :
    oid.subidList.length ≤ maxNrSubids := by
  obtain ⟨bs, -, -, hcontent, rfl⟩ := h
  have hroom := hcontent.room
  rw [oidValue, List.length_append, length_subidsOf]
  unfold maxNrSubids at *
  simp only [List.length_cons, List.length_nil]
  omega

/-- A decoded OID that was not padded goes over the wire unchanged. -/
theorem DecodedOid.wireOid {oid : Oid} (h : DecodedOid n oid)
    (hexact : oid.encodedLength = (encodeSnmpOid oid).length) : WireOid oid := by
  have hroom := h.length_subidList_le
  obtain ⟨bs, -, -, hcontent, rfl⟩ := h
  have hstart := hcontent.start
  have hfirst : ((oidValue bs).subidList.getD 0 0).toNat = (bs.headD 0).toNat / 40 := by
    simp [oidValue]
  have hsecond : ((oidValue bs).subidList.getD 1 0).toNat = (bs.headD 0).toNat % 40 := by
    simp [oidValue]
  have hle := oidContentLength_le hroom
  refine ⟨?_, hroom, ?_, ?_, ?_⟩
  · simp [oidValue]
  · rw [hsecond]
    exact Nat.mod_lt _ (by decide)
  · rw [hfirst, hsecond]
    omega
  · rw [hexact, encodeSnmpOid_eq_tlv (by omega)]

end

section

variable {packet : Mem} {n : Nat} {request : Request}

/-- A request without padding can be written down again. -/
theorem Accepted.wireRequest (hacc : Accepted packet n request) (hunpadded : Unpadded request) :
    WireRequest request where
  version := hacc.version
  community := hacc.community
  room := hacc.room
  oids := fun oid hoid => (hacc.oids oid hoid).wireOid (hunpadded oid hoid)

/-- Neither the MIB nor a request without padding has OIDs that leave a gap. -/
theorem KnownOid.exactOid {mib : Mib} (hacc : Accepted packet n request)
    (hunpadded : Unpadded request) {oid : Oid} (h : KnownOid mib.values request.oidList oid) :
    ExactOid oid := by
  rcases h with hdecoded | ⟨value, hvalue, rfl⟩
  · exact ⟨(hacc.oids oid hdecoded).length_subidList_le, hunpadded oid hdecoded⟩
  · exact ⟨(mib.entries value hvalue).subids, (mib.entries value hvalue).exact⟩

/-- The answers to such a request are written without gaps. -/
theorem exactOid_of_answer {config : Config} {mib : Mib} {response : Response}
    (hacc : Accepted packet n request) (hunpadded : Unpadded request)
    (h : answer config mib.values request = .reply response) {value : Value}
    (hvalue : value ∈ valuesToEncode request response) : ExactOid value.oid := by
  unfold valuesToEncode at hvalue
  split at hvalue
  · -- an error: the OIDs of the request
    obtain ⟨oid, hoid, rfl⟩ := List.mem_map.mp hvalue
    have hknown : KnownOid mib.values request.oidList oid := .inl hoid
    exact hknown.exactOid hacc hunpadded
  · cases answer_valuesFrom h value hvalue with
    | entry hentry =>
      have hknown : KnownOid mib.values request.oidList value.oid := .inr ⟨value, hentry, rfl⟩
      exact hknown.exactOid hacc hunpadded
    | exception type hknown => exact hknown.exactOid hacc hunpadded

end

/-! ## Content with gaps -/

/-- The content stands at `pos`, before `size`, whatever is in its gaps. -/
structure ShowsAt (mem : Mem) (size pos : Nat) (content : Content) : Prop where
  fits : pos + content.length ≤ size
  bytes : ∀ k b, content[k]? = some (some b) → mem (pos + k) = b

theorem Client.Carries.showsAt {client : Client} {c : Content} (h : client.Carries c) :
    ShowsAt client.packet client.size 0 c where
  fits := by rw [h.size, Nat.zero_add]
  bytes := fun k b hk => by rw [Nat.zero_add, h.bytes k b hk]

section

variable {mem : Mem} {size pos : Nat}

theorem ShowsAt.append {c c' : Content} (h : ShowsAt mem size pos (c ++ c')) :
    ShowsAt mem size pos c ∧ ShowsAt mem size (pos + c.length) c' := by
  have hfits := h.fits
  rw [List.length_append] at hfits
  refine ⟨⟨by omega, fun k b hk => ?_⟩, ⟨by omega, fun k b hk => ?_⟩⟩
  · obtain ⟨hlt, -⟩ := List.getElem?_eq_some_iff.mp hk
    apply h.bytes
    rwa [List.getElem?_append_left hlt]
  · rw [Nat.add_assoc]
    apply h.bytes
    rwa [List.getElem?_append_right (Nat.le_add_right _ _), Nat.add_sub_cancel_left]

/-- Content without gaps. -/
theorem ShowsAt.slice {bs : List UInt8} (h : ShowsAt mem size pos (bs.map some)) :
    mem.slice pos bs.length = bs := by
  apply List.ext_getElem (Mem.length_slice mem pos bs.length)
  intro k hk hk'
  rw [Mem.getElem_slice]
  apply h.bytes
  simp [hk']

/-- An element starts with its header, and the content follows. -/
theorem ShowsAt.element (hsize : size ≤ maxPacketSize) {type : UInt8} {c : Content}
    (htype : type ∈ supportedTypes) (h : ShowsAt mem size pos (element type c)) :
    ∃ q, PacketHeader mem size pos type c.length q ∧ ShowsAt mem size q c ∧
      q + c.length = pos + (SdkSnmpd.element type c).length := by
  have hfits := h.fits
  have hlen := length_element type c
  obtain ⟨hheader, hcontent⟩ := h.append
  unfold maxPacketSize at hsize
  rw [List.length_map, List.length_cons] at hcontent
  have hinside := hcontent.fits
  have hdr : PacketHeader mem size pos type c.length
      (pos + 1 + (Lib.Ber.lengthOctets c.length).length) :=
    Lib.Ber.headerAt_of_holdsAt htype (by omega) hheader.slice (by omega)
  exact ⟨_, hdr, by rwa [Nat.add_comm _ 1, ← Nat.add_assoc] at hcontent, by omega⟩

/-- An element around content without gaps. -/
theorem ShowsAt.octets (hsize : size ≤ maxPacketSize) {type : UInt8} {c : Content}
    {bs : List UInt8} (htype : type ∈ supportedTypes) (hc : c = SdkSnmpd.element type (bs.map some))
    (h : ShowsAt mem size pos c) :
    ∃ q, PacketHeader mem size pos type bs.length q ∧ mem.slice q bs.length = bs ∧
      q + bs.length = pos + c.length ∧ q + bs.length ≤ size := by
  subst hc
  obtain ⟨q, hdr, hcontent, hend⟩ := h.element hsize htype
  have hfits := hcontent.fits
  rw [List.length_map] at hdr hend hfits
  exact ⟨q, hdr, hcontent.slice, hend, hfits⟩

end

/-! ## Reading over gaps -/

section

variable {mem : Mem} {size pos : Nat}

theorem ShowsAt.stands {bs : List UInt8} (h : ShowsAt mem size pos (bs.map some)) :
    Stands mem size pos bs := by
  have hfits := h.fits
  rw [List.length_map] at hfits
  exact ⟨h.slice, hfits⟩

/-- A header of the right type is read. -/
theorem eval_readHeader_of_header {type : UInt8} {length q : Nat}
    (hdr : PacketHeader mem size pos type length q) :
    (readHeader size pos type).eval mem = .ok ⟨type, length, q⟩ := by
  have hheader := (eval_typeLength_eq_ok mem (h := ⟨type, length, q⟩)).mpr hdr
  rw [readHeader, Scan.eval_bind_of_ok mem hheader, eval_require_bind_eq_ok]
  exact ⟨rfl, rfl⟩

/-- An element that spans the rest of the packet. -/
theorem ShowsAt.readSpan (hsize : size ≤ maxPacketSize) {type : UInt8} {c : Content}
    (htype : type ∈ supportedTypes) (h : ShowsAt mem size pos (SdkSnmpd.element type c))
    (hspan : pos + (SdkSnmpd.element type c).length = size) :
    ∃ q, (SdkSnmpd.readSpan size pos type).eval mem = .ok q ∧ ShowsAt mem size q c ∧
      q + c.length = size := by
  obtain ⟨q, hdr, hcontent, hend⟩ := h.element hsize htype
  refine ⟨q, ?_, hcontent, hend.trans hspan⟩
  rw [SdkSnmpd.readSpan, Scan.eval_bind_of_ok mem (eval_readHeader_of_header hdr),
    eval_require_bind_eq_ok]
  exact ⟨hend.trans hspan, rfl⟩

/-- An integer in front of content with gaps. -/
theorem ShowsAt.readInteger (hsize : size ≤ maxPacketSize) {v : Int32} {c : Content}
    (h : ShowsAt mem size pos (integerElement v ++ c)) :
    (SdkSnmpd.readInteger size pos).eval mem = .ok (v, pos + (integerElement v).length) ∧
      ShowsAt mem size (pos + (integerElement v).length) c := by
  obtain ⟨hinteger, hrest⟩ := h.append
  have hbytes : integerElement v = (integerBytes v).map some := element_map_some _ _
  refine ⟨?_, hrest⟩
  rw [hbytes] at hinteger ⊢
  rw [eval_readInteger hsize hinteger.stands, List.length_map]

/-- **One binding.** A reader that takes a value of the right length from it has met no gap: the
    name and the value fill the sequence only then. -/
theorem ShowsAt.readVarbind (hsize : size ≤ maxPacketSize) {value : Value}
    (hroom : value.oid.subidList.length ≤ maxNrSubids) (hvalue : Encodable value)
    (h : ShowsAt mem size pos (varbindContent value)) {r : (Oid × List UInt8) × Nat}
    (hread : (SdkSnmpd.readVarbind size pos).eval mem = .ok r) :
    r.2 = pos + (varbindContent value).length ∧
      (r.1.2.length = value.data.bytes.length → ExactOid value.oid) := by
  have hslot := Lib.length_slot (show (encodeSnmpOid value.oid).length ≤
    value.oid.encodedLength.toNat by have hle := hvalue.oid; omega)
  have hle := oidContentLength_le hroom
  have hwritten : encodeSnmpOid value.oid = tlv berTypeOid (oidContent value.oid.subidList) :=
    encodeSnmpOid_eq_tlv (by omega)
  -- the header of the binding counts the slot of the name
  obtain ⟨q, hdrBinding, hcontent, hend⟩ := h.element hsize (by decide)
  change _ = pos + (varbindContent value).length at hend
  obtain ⟨hnameSlot, -⟩ := hcontent.append
  obtain ⟨hname, -⟩ := ShowsAt.append (show ShowsAt mem size q
    ((encodeSnmpOid value.oid).map some ++ _) from hnameSlot)
  -- the header of the name counts what was written
  rw [hwritten] at hname
  obtain ⟨q', hnameHeader, -, hnameEnd⟩ := eval_readHeader hsize (by decide) hname.stands
  rw [← hwritten] at hnameEnd
  rw [SdkSnmpd.readVarbind, Scan.eval_bind_of_ok mem (eval_readHeader_of_header hdrBinding),
    Scan.eval_bind_of_ok mem hnameHeader, Scan.eval_bind_eq_ok] at hread
  obtain ⟨⟨oid, p⟩, hoid, hread⟩ := hread
  have hpos : 1 ≤ (oidContent value.oid.subidList).length := Nat.succ_le_succ (Nat.zero_le _)
  obtain ⟨-, -, hdecoded⟩ :=
    (eval_oid_eq_ok mem hpos (by rw [length_oidContent]; omega)).mp hoid
  obtain ⟨-, rfl⟩ := Prod.mk.inj hdecoded
  rw [Scan.eval_bind_eq_ok] at hread
  obtain ⟨header, -, hread⟩ := hread
  rw [Scan.eval_bind_eq_ok] at hread
  obtain ⟨stop, -, hread⟩ := hread
  rw [eval_require_bind_eq_ok, Scan.eval_bind_of_ok mem (Scan.eval_bytes mem _ _)] at hread
  obtain ⟨hstop, hread⟩ := hread
  -- what is left for the value begins where the name ends
  cases hread
  dsimp only at hstop ⊢
  rw [hnameEnd] at *
  rw [Mem.length_slice]
  rw [List.length_append, hslot, List.length_map] at hstop hend
  refine ⟨by rw [hstop]; omega, fun hlength => ⟨hroom, ?_⟩⟩
  change stop - _ = (value.data.buffer.take value.data.encodedLength.toNat).length at hlength
  have hfits := hvalue.oid
  omega

/-- **The bindings.** A reader that takes values of the right lengths from them has met no gap. -/
theorem exact_of_readVarbinds (hsize : size ≤ maxPacketSize) {values : List Value}
    (hvalues : ∀ value ∈ values, value.oid.subidList.length ≤ maxNrSubids ∧ Encodable value)
    {room : Nat} {varbinds : List (Oid × List UInt8)}
    (h : ShowsAt mem size pos (values.flatMap varbindContent))
    (hspan : pos + (values.flatMap varbindContent).length = size)
    (hread : (readVarbinds size room pos).eval mem = .ok varbinds)
    (hlengths : varbinds.map (fun v => v.2.length) = values.map fun v => v.data.bytes.length) :
    ∀ value ∈ values, ExactOid value.oid := by
  induction values generalizing pos room varbinds with
  | nil => exact fun _ hvalue => absurd hvalue List.not_mem_nil
  | cons value values ih =>
    rw [List.flatMap_cons] at h hspan
    rw [List.length_append] at hspan
    have hpos : 1 ≤ (varbindContent value).length := by
      rw [varbindContent, length_element]
      omega
    obtain ⟨hfirst, hrest⟩ := h.append
    cases room with
    | zero =>
      -- the reader is not at the end of the packet
      rw [readVarbinds, eval_require_bind_eq_ok] at hread
      have hstop := hread.1
      omega
    | succ room =>
      rw [readVarbinds, if_neg (by omega), Scan.eval_bind_eq_ok] at hread
      obtain ⟨⟨varbind, p⟩, hvarbind, hread⟩ := hread
      rw [Scan.eval_bind_eq_ok] at hread
      obtain ⟨varbinds', hlater, hread⟩ := hread
      cases hread
      obtain ⟨hroom, hencodable⟩ := hvalues value List.mem_cons_self
      obtain ⟨hp, hexact⟩ := hfirst.readVarbind hsize hroom hencodable hvarbind
      dsimp only at hp hexact
      subst hp
      -- whatever it took for the name, it goes on at the next binding
      obtain ⟨hlength, hlengths⟩ := List.cons.inj hlengths
      refine List.forall_mem_cons.mpr ⟨hexact hlength, ?_⟩
      exact ih (fun v hv => hvalues v (List.mem_cons_of_mem _ hv)) hrest (by omega) hlater hlengths

end

section

variable {mem : Mem} {size : Nat} {request : Request} {response : Response}

/-- **The whole response.** What stands before the bindings has no gaps. -/
theorem exact_of_readResponse (hin : EncoderInput request response)
    (hrooms : ∀ value ∈ valuesToEncode request response,
      value.oid.subidList.length ≤ maxNrSubids)
    (hsize : size ≤ maxPacketSize) (h : ShowsAt mem size 0 (responseContent request response))
    (hspan : (responseContent request response).length = size) {reply : Reply}
    (hread : (readResponse size).eval mem = .ok reply)
    (hlengths : reply.varbinds.map (fun v => v.2.length) =
      (valuesToEncode request response).map fun v => v.data.bytes.length) :
    ∀ value ∈ valuesToEncode request response, ExactOid value.oid := by
  -- the message
  obtain ⟨p, hmessage, hcontent, hend⟩ :=
    h.readSpan hsize (by decide) (by rw [← hspan]; exact Nat.zero_add _)
  rw [List.length_append, List.length_append, element_map_some, List.length_map] at hend
  obtain ⟨hversion, hcontent⟩ := hcontent.readInteger hsize
  obtain ⟨hcommunity, hpdu⟩ := hcontent.append
  rw [element_map_some] at hcommunity hpdu
  rw [List.length_map] at hpdu
  have hstring := eval_readCommunity hsize hin.community hcommunity.stands
  -- the PDU
  obtain ⟨q, hresponse, hcontent, hend'⟩ := hpdu.readSpan hsize (by decide) (by omega)
  rw [pduContent, List.length_append, List.length_append, List.length_append] at hend'
  obtain ⟨hid, hcontent⟩ := hcontent.readInteger hsize
  obtain ⟨hstatus, hcontent⟩ := hcontent.readInteger hsize
  obtain ⟨hindex, hvarbinds⟩ := hcontent.readInteger hsize
  -- the variable bindings
  obtain ⟨r, hlist, hcontent, hend''⟩ := hvarbinds.readSpan hsize (by decide) (by omega)
  rw [readResponse, Scan.eval_bind_of_ok mem hmessage, Scan.eval_bind_of_ok mem hversion,
    Scan.eval_bind_of_ok mem hstring, Scan.eval_bind_of_ok mem hresponse,
    Scan.eval_bind_of_ok mem hid, Scan.eval_bind_of_ok mem hstatus,
    Scan.eval_bind_of_ok mem hindex, Scan.eval_bind_of_ok mem hlist,
    Scan.eval_bind_eq_ok] at hread
  obtain ⟨varbinds, hvarbinds, hread⟩ := hread
  cases hread
  exact exact_of_readVarbinds hsize (fun v hv => ⟨hrooms v hv, hin.values v hv⟩) hcontent
    hend'' hvarbinds hlengths

end

end SdkSnmpd
