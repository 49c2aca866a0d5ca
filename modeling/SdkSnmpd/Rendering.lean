import SdkSnmpd.OidPrint
import SdkSnmpd.Udp

/-!
# Elements as Text

`snmp_element_as_string` of `protocol.c` prints an element into a buffer, for the log. Some types go
through the decoders, with their guard; a string is printed as long as its header says, and the
bytes of any other element are dumped in hex.

## Contents

- `snmpElementAsString`: what is stored into the buffer, at which offsets.
- `Renderable`: the lengths and bytes with which a branch stays inside.
- `rendersInside_iff`: the reads are in the element and the stores in the buffer exactly then.
- `rendersInside_of_complete`: a complete element of a type that has a text of its own.
-/

namespace SdkSnmpd

open Lib (Mem Scan)
open Lib.Ber (HeaderAt)

/-! ## `snmp_element_as_string` -/

/-- The branches of the `switch`. -/
inductive Rendering where
  | integer
  | octetString
  | oid
  | unsigned
  | constant (text : String)
  | hexDump

def rendering (type : UInt8) : Rendering :=
  if type = berTypeInteger then .integer
  else if type = berTypeOctetString then .octetString
  else if type = berTypeOid then .oid
  else if type = berTypeCounter ∨ type = berTypeGauge ∨ type = berTypeTimeTicks then .unsigned
  else if type = berTypeNoSuchObject then .constant "noSuchObject"
  else if type = berTypeNoSuchInstance then .constant "noSuchInstance"
  else if type = berTypeEndOfMibView then .constant "endOfMibView"
  else .hexDump

/-- Bytes stored at an offset of the buffer. -/
structure Store where
  offset : Nat
  bytes : List UInt8

/-- What the loop stores for byte `i` of the content. -/
def hexStore (i : Nat) (b : UInt8) : Store := ⟨3 * i, snprintf 4 (hexText b ++ ascii " ")⟩

/-- The loop of the hex dump, with `count` rounds left. -/
def hexDump (pos : Nat) : (count i : Nat) → Scan Failure (List Store)
  | 0, _ => pure []
  | count + 1, i => do
      let b ← Scan.byte (pos + i)
      let stores ← hexDump pos count (i + 1)
      pure (hexStore i b :: stores)

/-- The `switch`, behind the header. -/
def renderValue (dataSize size : Nat) (type : UInt8) (length pos : Nat) :
    Scan Failure (List Store) :=
  match rendering type with
  | .integer => do
      let (value, _) ← decodeSnmpElementValueInteger dataSize pos length
      pure [⟨0, snprintf size (intText value)⟩]
  | .octetString => do
      -- the length is not checked
      let cs ← readChars length pos
      pure [⟨0, snprintf size cs⟩]
  | .oid => do
      let (value, _) ← decodeSnmpElementValueOid dataSize pos length
      pure [⟨0, snprintf size (oidNtoa value).bytes⟩]
  | .unsigned => do
      let (value, _) ← decodeSnmpElementValueUnsigned dataSize pos length
      pure [⟨0, snprintf size (unsignedText value)⟩]
  | .constant text => pure [⟨0, snprintf size (ascii text)⟩]
  | .hexDump => do
      let stores ← hexDump pos (min length ((size - 1) / 3)) 0
      -- the NUL goes behind all of the content, also if the loop has stopped before
      pure (stores ++ [if length > 0 then ⟨length * 3 - 1, [0]⟩ else ⟨0, [0]⟩])

/-- The stores into a buffer of `size` characters. -/
def snmpElementAsString (encodedLength : Int) (size : Nat) : Scan Failure (List Store) := do
  let h ← decodeSnmpElementTypeLength (toSizeT encodedLength) 0
  renderValue (toSizeT encodedLength) size h.type h.length h.pos

/-! ## Reads and stores -/

/-- All stores are in a buffer of `size` characters. -/
def StoresInside (size : Nat) (stores : List Store) : Prop :=
  ∀ store ∈ stores, store.offset + store.bytes.length ≤ size

/-- All reads are in the element, and all stores in the buffer. -/
structure RendersInside (mem : Mem) (encodedLength : Int) (size : Nat) : Prop where
  reads : ∀ i ∈ (snmpElementAsString encodedLength size).reads mem, (i : Int) < encodedLength
  stores : ∀ stores, (snmpElementAsString encodedLength size).eval mem = .ok stores →
    StoresInside size stores

/-- The lengths and bytes with which a branch stays inside, for an element of `n` bytes. -/
def Renderable (mem : Mem) (n size : Nat) (type : UInt8) (length pos : Nat) : Prop :=
  match rendering type with
  | .integer => length ≤ n + 1 ∧ (length = 0 → pos < n)
  | .octetString => pos + length ≤ n ∨ ∃ i, pos ≤ i ∧ i < n ∧ mem i = 0
  | .oid => n + 1 < length → OidStops mem n pos
  | .unsigned => length ≤ n + 1
  | .constant _ => True
  | .hexDump => (length = 0 ∨ 3 * length ≤ size) ∧
      (0 < min length ((size - 1) / 3) → pos + min length ((size - 1) / 3) ≤ n)

/-- `snprintf` stays in its buffer. -/
theorem storesInside_snprintf (size : Nat) (text : List UInt8) :
    StoresInside size [⟨0, snprintf size text⟩] := by
  intro store hmem
  rw [List.mem_singleton] at hmem
  subst hmem
  rw [Nat.zero_add]
  exact length_snprintf_le size text

/-- All that the loop stores for some bytes, from byte `i` on. -/
def hexStores : (i : Nat) → List UInt8 → List Store
  | _, [] => []
  | i, b :: bs => hexStore i b :: hexStores (i + 1) bs

/-- The loop leaves one character behind its last blank for a NUL. -/
theorem storesInside_hexStores (bs : List UInt8) (i : Nat) :
    StoresInside (3 * (i + bs.length) + 1) (hexStores i bs) := by
  induction bs generalizing i with
  | nil => exact fun _ h => absurd h List.not_mem_nil
  | cons b bs ih =>
    intro store hmem
    rcases List.mem_cons.mp hmem with rfl | hrest
    · have hlen := length_snprintf_le 4 (hexText b ++ ascii " ")
      rw [hexStore, List.length_cons]
      dsimp only
      omega
    · have hle := ih (i + 1) store hrest
      rw [List.length_cons]
      omega

section

variable (mem : Mem) {n : Nat}

theorem within_hexDump (pos count i : Nat) (Q : List Store → Prop) :
    (hexDump pos count i).Within mem n Q ↔
      (0 < count → pos + i + count ≤ n) ∧ Q (hexStores i (mem.slice (pos + i) count)) := by
  induction count generalizing i Q with
  | zero => simp [hexDump, hexStores]
  | succ count ih =>
    simp only [hexDump, Scan.within_bind, Scan.within_byte, Scan.within_pure]
    rw [ih, Mem.slice_succ, hexStores, ← and_assoc]
    exact and_congr (by omega) Iff.rfl

/-- The decoder of unsigned integers reads past the element exactly where the guard wraps around. -/
theorem within_unsigned {size pos length : Nat} (hsize : size < 65536) (hpos : pos ≤ size)
    (hlen : length < 65536) (Q : UInt32 × Nat → Prop) (hQ : ∀ r, Q r) :
    (decodeSnmpElementValueUnsigned size pos length).Within mem size Q ↔ length ≤ size + 1 := by
  simp only [decodeSnmpElementValueUnsigned, Scan.within_bind, within_require, within_shiftOctets,
    guardPasses_iff hsize hpos hlen, hQ, and_true]
  omega

/-- What the hex dump stores, with the NUL at the end. -/
theorem storesInside_hexDump_iff {size : Nat} (hsize : 1 ≤ size) (length pos : Nat) :
    StoresInside size (hexStores 0 (mem.slice pos (min length ((size - 1) / 3))) ++
        [if length > 0 then ⟨length * 3 - 1, [0]⟩ else ⟨0, [0]⟩]) ↔
      length = 0 ∨ 3 * length ≤ size := by
  have hloop := storesInside_hexStores (mem.slice pos (min length ((size - 1) / 3))) 0
  rw [Mem.length_slice] at hloop
  have hnul : StoresInside size [if length > 0 then ⟨length * 3 - 1, [0]⟩ else ⟨0, [0]⟩] ↔
      length = 0 ∨ 3 * length ≤ size := by
    simp only [StoresInside, List.forall_mem_singleton]
    split
    · rw [List.length_singleton]
      dsimp only
      omega
    · rw [List.length_singleton]
      dsimp only
      omega
  -- the loop stays inside by itself, so that the NUL decides
  rw [← hnul]
  constructor
  · exact fun h store hmem => h store (List.mem_append_right _ hmem)
  · intro h store hmem
    rcases List.mem_append.mp hmem with hdigits | hend
    · have hle := hloop store hdigits
      omega
    · exact h store hend

/-- **One branch.** It stays inside exactly if its lengths and bytes are as it needs them. -/
theorem within_renderValue {size : Nat} (hn : n < 65536) (hsize : 1 ≤ size) (type : UInt8)
    {length pos : Nat} (hpos : pos ≤ n) (hlen : length < 65536) :
    (renderValue n size type length pos).Within mem n (StoresInside size) ↔
      Renderable mem n size type length pos := by
  have hprinted := storesInside_snprintf size
  unfold renderValue Renderable
  cases rendering type with
  | integer =>
    simp only [Scan.within_bind, Scan.within_pure, hprinted]
    by_cases hempty : length = 0
    · -- the sign bit is taken from a byte that is not there
      subst hempty
      have hguard : guardPasses n 0 pos := (guardPasses_iff hn hpos hlen).mpr (.inl hpos)
      simp only [decodeSnmpElementValueInteger, Scan.within_bind, within_require, Scan.within_byte,
        within_shiftOctets, Scan.within_pure, hguard]
      simp
    · rw [within_integer mem hn hpos (by omega) hlen]
      simp [hempty]
  | octetString =>
    simp only [Scan.within_bind, Scan.within_pure, within_readChars mem length hpos, hprinted,
      and_true]
  | oid =>
    simp only [Scan.within_bind, Scan.within_pure, hprinted]
    by_cases hempty : length = 0
    · -- the decoder gives up before it reads anything
      subst hempty
      simp only [decodeSnmpElementValueOid, Scan.within_bind, within_require, Scan.within_fail]
      simp
    · rw [within_oid mem hn hpos (by omega) hlen]
      simp
  | unsigned =>
    simp only [Scan.within_bind, Scan.within_pure, hprinted]
    exact within_unsigned mem hn hpos hlen _ fun _ => trivial
  | constant text => simp only [Scan.within_pure, hprinted]
  | hexDump =>
    simp only [Scan.within_bind, Scan.within_pure, within_hexDump, Nat.add_zero,
      storesInside_hexDump_iff mem hsize]
    exact and_comm

/-- An element whose length is no negative number. -/
theorem rendersInside_natCast_iff {size : Nat} (hn : n < 32768) (hsize : 1 ≤ size) :
    RendersInside mem n size ↔
      ∀ type length pos, HeaderAt supportedTypes mem n 0 type length pos →
        Renderable mem n size type length pos := by
  have hsame : toSizeT n = n := by
    unfold toSizeT sizeTModulus
    omega
  have hwithin : RendersInside mem n size ↔
      (snmpElementAsString n size).Within mem n (StoresInside size) := by
    rw [Scan.within_iff]
    exact ⟨fun h => ⟨fun i hi => Int.ofNat_lt.mp (h.reads i hi), h.stores⟩,
      fun h => ⟨fun i hi => Int.ofNat_lt.mpr (h.1 i hi), h.2⟩⟩
  rw [hwithin, snmpElementAsString, hsame, Scan.within_bind, within_typeLength]
  refine forall₃_congr fun type length pos => forall_congr' fun hdr => ?_
  exact within_renderValue mem (by omega) hsize type hdr.bounds.2.2 hdr.length_lt

/-- A negative length is a large `size_t`, so that the first byte is read. -/
theorem not_rendersInside_of_neg {encodedLength : Int} (hmin : -32768 ≤ encodedLength)
    (hneg : encodedLength < 0) (size : Nat) : ¬ RendersInside mem encodedLength size := by
  intro h
  -- the guard of the header decoder passes
  have hsome : 0 < toSizeT encodedLength := by
    unfold toSizeT sizeTModulus
    omega
  have hnone : (snmpElementAsString encodedLength size).Within mem 0 fun _ => True := by
    rw [Scan.within_iff]
    refine ⟨fun i hi => ?_, fun _ _ => trivial⟩
    have hlt := h.reads i hi
    omega
  simp only [snmpElementAsString, decodeSnmpElementTypeLength, Scan.within_bind, within_require,
    Scan.within_byte] at hnone
  exact absurd (hnone hsome).1 (Nat.lt_irrefl 0)

/-- A complete element is rendered inside, unless it is dumped or empty. -/
theorem rendersInside_of_complete {type : UInt8} {length pos : Nat} (hn : n < 32768)
    (hdr : HeaderAt supportedTypes mem n 0 type length pos) (hfit : pos + length = n)
    (hlen : 1 ≤ length) (htype : rendering type ≠ .hexDump) {size : Nat} (hsize : 1 ≤ size) :
    RendersInside mem n size := by
  rw [rendersInside_natCast_iff mem hn hsize]
  intro type' length' pos' hdr'
  obtain ⟨rfl, rfl, rfl⟩ := hdr.functional hdr'
  unfold Renderable
  cases hrendering : rendering type with
  | integer => exact ⟨by omega, fun hempty => by omega⟩
  | octetString => exact .inl hfit.le
  | oid => exact fun hwrap => by omega
  | unsigned =>
    dsimp only
    omega
  | constant text => trivial
  | hexDump => exact absurd hrendering htype

/-- **Rendering an element.** For every `data_t` the reads are in the element and the stores in the
    buffer, exactly if its length is no negative number and the header at its start, if there is
    one, is renderable. -/
theorem rendersInside_iff {encodedLength : Int} (hmin : -32768 ≤ encodedLength)
    (hmax : encodedLength < 32768) {size : Nat} (hsize : 1 ≤ size) :
    RendersInside mem encodedLength size ↔
      0 ≤ encodedLength ∧ ∀ type length pos,
        HeaderAt supportedTypes mem encodedLength.toNat 0 type length pos →
          Renderable mem encodedLength.toNat size type length pos := by
  by_cases hneg : encodedLength < 0
  · exact iff_of_false (not_rendersInside_of_neg mem hmin hneg size) fun h => absurd h.1 (by omega)
  · obtain ⟨n, rfl⟩ := Int.eq_ofNat_of_zero_le (Int.not_lt.mp hneg)
    rw [rendersInside_natCast_iff mem (by omega) hsize, Int.toNat_natCast]
    exact (and_iff_right (Int.natCast_nonneg n)).symm

end

/-- A SEQUENCE that holds the integer 5. -/
def shortSequence : List UInt8 := [0x30, 0x03, 0x02, 0x01, 0x05]

theorem rendersInside_iff_shortSequence :
    RendersInside (Mem.ofList shortSequence) 5 9 ↔
      (0 : Int) ≤ 5 ∧ ∀ type length pos,
        HeaderAt supportedTypes (Mem.ofList shortSequence) 5 0 type length pos →
          Renderable (Mem.ofList shortSequence) 5 9 type length pos :=
  rendersInside_iff (Mem.ofList shortSequence) (by decide) (by decide) (by decide)

/-- In eight characters there is room for two bytes, and the NUL is stored as for three. -/
theorem shortSequence_not_rendersInside : ¬ RendersInside (Mem.ofList shortSequence) 5 8 := by
  intro h
  have hnul := h.stores [hexStore 0 0x02, hexStore 1 0x01, ⟨8, [0]⟩] rfl ⟨8, [0]⟩
    (List.mem_cons_of_mem _ (List.mem_cons_of_mem _ List.mem_cons_self))
  exact absurd hnul (by decide)

end SdkSnmpd
