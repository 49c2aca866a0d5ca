import SdkSnmpd.Basic
import SdkSnmpd.Lib.Ber
import SdkSnmpd.Lib.Scan

/-!
# Element Decoders

The helper functions for decoding of `protocol.c`, as programs that read the packet. Each
takes the packet size and the cursor `*pos`, and returns what it stores together with the
advanced cursor; a return value of -1 is a `Failure`.

## Contents

- The decoders: element header, integer, string, OID, and value skipped over.
- What each of them reads and returns, as `Within` and `eval` rules. The guard of the value
  decoders is taken in `size_t` arithmetic and passes in two zones (`guardPasses_iff`): when
  the content fits, and when the declared length exceeds the packet size by more than one.
-/

namespace SdkSnmpd

open Lib (Mem Scan)
open Lib.Ber (HeaderAt foldOctets foldGroups beNat)

/-! ## Decoders -/

/-- A failure that sets `errno` to `EINVAL`. -/
def einval (message : String) : Failure := ⟨some .einval, message⟩

/-- A failure that sets `errno` to `EFAULT`. -/
def efault (message : String) : Failure := ⟨some .efault, message⟩

/-- Go on where the condition holds, fail otherwise. -/
def require (c : Prop) [Decidable c] (e : Failure) : Scan Failure Unit :=
  if c then pure () else Scan.fail e

/-- The tags that `decode_snmp_element_type_length` accepts. -/
def supportedTypes : List UInt8 :=
  [berTypeBoolean, berTypeInteger, berTypeBitString, berTypeOctetString, berTypeNull,
    berTypeOid, berTypeSequence, berTypeCounter, berTypeGauge, berTypeTimeTicks,
    berTypeNoSuchObject, berTypeNoSuchInstance, berTypeEndOfMibView, berTypeSnmpGet,
    berTypeSnmpGetnext, berTypeSnmpResponse, berTypeSnmpSet, berTypeSnmpGetbulk,
    berTypeSnmpInform, berTypeSnmpTrap]

/-- What `decode_snmp_element_type_length` stores: type, length, and the advanced cursor. -/
structure Header where
  type : UInt8
  length : Nat
  pos : Nat
  deriving DecidableEq

/-- The loop over the octets of a long-form length. -/
def decodeLengthOctets (size : Nat) : (lengthOfLength length pos : Nat) → Scan Failure (Nat × Nat)
  | 0, length, pos => pure (length, pos)
  | lengthOfLength + 1, length, pos => do
      require (pos < size) (einval "underflow for element length")
      let b ← Scan.byte pos
      decodeLengthOctets size lengthOfLength ((length <<< 8) + b.toNat) (pos + 1)

def decodeSnmpElementTypeLength (size pos : Nat) : Scan Failure Header := do
  -- fetch the element type
  require (pos < size) (einval "underflow for element type")
  let type ← Scan.byte pos
  require (type ∈ supportedTypes) (einval "unsupported element type %02X")
  let pos := pos + 1
  -- fetch the element length
  require (pos < size) (einval "underflow for element length")
  let b ← Scan.byte pos
  if b &&& 0x80 = 0 then
    pure ⟨type, b.toNat, pos + 1⟩
  else
    let lengthOfLength := (b &&& 0x7F).toNat
    require (¬ lengthOfLength > 2) (einval "overflow for element length")
    let (length, pos) ← decodeLengthOctets size lengthOfLength 0 (pos + 1)
    pure ⟨type, length, pos⟩

/-- The guard `*pos < (size - length + 1)` of the value decoders, in `size_t` arithmetic. -/
abbrev guardPasses (size length pos : Nat) : Prop :=
  pos < (size + sizeTModulus - length + 1) % sizeTModulus

/-- The loop `while (length--)` that shifts content octets into the value. -/
def shiftOctets : (length pos : Nat) → UInt32 → Scan Failure (UInt32 × Nat)
  | 0, pos, acc => pure (acc, pos)
  | length + 1, pos, acc => do
      let b ← Scan.byte pos
      shiftOctets length (pos + 1) ((acc <<< 8) ||| b.toUInt32)

def decodeSnmpElementValueInteger (size pos length : Nat) : Scan Failure (Int32 × Nat) := do
  require (guardPasses size length pos) (einval "underflow for integer")
  -- copy the sign bit into all bytes first
  let first ← Scan.byte pos
  let fill : UInt32 := if first &&& 0x80 = 0 then 0x00000000 else 0xFFFFFFFF
  let (value, pos) ← shiftOctets length pos fill
  pure (value.toInt32, pos)

def decodeSnmpElementValueUnsigned (size pos length : Nat) : Scan Failure (UInt32 × Nat) := do
  require (guardPasses size length pos) (einval "underflow for unsigned")
  shiftOctets length pos 0

/-- `snprintf` with `%.*s` reads up to the first NUL, and at most `precision` characters. -/
def readChars : (precision pos : Nat) → Scan Failure (List UInt8)
  | 0, _ => pure []
  | precision + 1, pos => do
      let c ← Scan.byte pos
      if c = 0 then pure []
      else
        let cs ← readChars precision (pos + 1)
        pure (c :: cs)

def decodeSnmpElementValueString (size pos length valueSize : Nat) :
    Scan Failure (CString × Nat) := do
  require (guardPasses size length pos) (einval "underflow for string")
  let cs ← readChars length pos
  pure (CString.ofList (cs.take (valueSize - 1)), pos + length)

/-- The inner loop over the octets of one subid. It is entered with a counter of
    `length + 1`, which the loop test has decremented to `length` by the time the octet is
    read. Returns the subid, the counter and the cursor. -/
def decodeSubid : (length pos : Nat) → (subid : UInt32) → Scan Failure (UInt32 × Nat × Nat)
  | length, pos, subid => do
      let b ← Scan.byte pos
      let subid := (subid <<< 7) + (b &&& 0x7F).toUInt32
      if b &&& 0x80 = 0 then
        pure (subid, length, pos + 1)
      else
        match length with
        | 0 => Scan.fail (einval "underflow for OID byte")
        | length + 1 => decodeSubid length (pos + 1) subid

/-- The outer loop `while (length)` over the subids after the first two. `room` is the
    number of free places of the subid list. Returns the subids and the cursor. -/
def decodeSubids : (room length pos : Nat) → (subids : List UInt32) →
    Scan Failure (List UInt32 × Nat)
  | _, 0, pos, subids => pure (subids, pos)
  | 0, _ + 1, _, _ => Scan.fail (efault "overflow for OID byte")
  | room + 1, length + 1, pos, subids => do
      let (subid, length, pos) ← decodeSubid length pos 0
      decodeSubids room length pos (subids ++ [subid])

/-- The length of an OID of the given content length together with its header, as
    `decode_snmp_element_value_oid` records it. -/
def oidEncodedLength (length : Nat) : Int :=
  if length > 0xFF then toShort (toShort length + 4)
  else if length > 0x7F then toShort (toShort length + 3)
  else toShort (toShort length + 2)

def decodeSnmpElementValueOid (size pos length : Nat) : Scan Failure (Oid × Nat) := do
  require (guardPasses size length pos) (einval "underflow for oid")
  require (¬ length > 0xFFFF) ⟨none, "could not decode: internal error"⟩
  match length with
  | 0 => Scan.fail (einval "underflow for OID startbyte")
  | rest + 1 =>
      let b ← Scan.byte pos
      require (b &&& 0x80 = 0) (einval "unsupported OID startbyte %02X")
      let start := [(b / 40).toUInt32, (b % 40).toUInt32]
      let (subids, pos) ← decodeSubids (maxNrSubids - 2) rest (pos + 1) start
      pure (⟨subids, oidEncodedLength (rest + 1)⟩, pos)

def decodeSnmpElementValueVoid (size pos length : Nat) : Scan Failure Nat := do
  require (guardPasses size length pos) (einval "underflow for ptr")
  pure (pos + length)

/-! ## Rules for conditions and headers -/

section

variable (mem : Mem) {n : Nat}

@[simp] theorem within_require (c : Prop) [Decidable c] (e : Failure) (Q : Unit → Prop) :
    (require c e).Within mem n Q ↔ (c → Q ()) := by
  unfold require
  split <;> simp [*]

/-- The long-form octets are read as far as the packet goes. -/
theorem within_lengthOctets {size : Nat} (lengthOfLength length : Nat) {pos : Nat}
    (hpos : pos ≤ size) (Q : Nat × Nat → Prop) :
    (decodeLengthOctets size lengthOfLength length pos).Within mem size Q ↔
      (pos + lengthOfLength ≤ size →
        Q ((mem.slice pos lengthOfLength).foldl (fun acc b => acc * 256 + b.toNat) length,
          pos + lengthOfLength)) := by
  induction lengthOfLength generalizing length pos with
  | zero => simp [decodeLengthOctets, hpos]
  | succ lengthOfLength ih =>
    simp only [decodeLengthOctets, Scan.within_bind, within_require, Scan.within_byte]
    -- one octet is read, if the packet goes that far
    by_cases hlt : pos < size
    · rw [ih _ hlt, Mem.slice_succ, List.foldl_cons, Nat.shiftLeft_eq,
        show pos + 1 + lengthOfLength = pos + (lengthOfLength + 1) by omega]
      simp [hlt]
    · simp [hlt]
      omega

/-- The header decoder returns the header that stands at the cursor, and reads nothing at
    or past `size`. -/
theorem within_typeLength (size pos : Nat) (Q : Header → Prop) :
    (decodeSnmpElementTypeLength size pos).Within mem size Q ↔
      ∀ tag length next, HeaderAt supportedTypes mem size pos tag length next →
        Q ⟨tag, length, next⟩ := by
  simp only [decodeSnmpElementTypeLength, Scan.within_bind, within_require, Scan.within_byte]
  constructor
  · intro h tag length next hdr
    -- the header at hand tells which branches the decoder takes
    have hb := hdr.bounds
    obtain ⟨-, htag⟩ := hdr.tag_eq
    cases hdr with
    | short htag' hlen hfit =>
      have hdec := ((h (by omega)).2 htag (by omega)).2
      rw [if_pos ((Lib.Ber.and_high_eq_zero_iff _).mpr hlen), Scan.within_pure] at hdec
      exact hdec
    | long k hk htag' hlen hfit =>
      have hdec := ((h (by omega)).2 htag (by omega)).2
      have hlow : (mem (pos + 1) &&& 0x7F).toNat = k := by
        rw [Lib.Ber.toNat_and_low]
        omega
      rw [if_neg (by rw [Lib.Ber.and_high_eq_zero_iff]; omega)] at hdec
      simp only [hlow, Scan.within_bind, within_require, Scan.within_pure] at hdec
      have hloop := (within_lengthOctets mem k 0 (by omega) _).mp (hdec (by omega)) (by omega)
      exact hloop
  · intro h hpos
    -- what the branches have checked is a header
    refine ⟨hpos, fun htag hpos' => ⟨hpos', ?_⟩⟩
    split
    · rename_i hlow
      rw [Scan.within_pure]
      exact h _ _ _ (.short htag ((Lib.Ber.and_high_eq_zero_iff _).mp hlow) (by omega))
    · rename_i hhigh
      rw [Lib.Ber.and_high_eq_zero_iff] at hhigh
      simp only [Scan.within_bind, within_require, Scan.within_pure]
      intro hk
      refine (within_lengthOctets mem _ 0 (by omega) _).mpr fun hfit => ?_
      have hb := (mem (pos + 1)).toNat_lt
      rw [Lib.Ber.toNat_and_low] at hk hfit ⊢
      exact h _ _ _ (.long _ (by omega) htag (by omega) (by omega))

end

/-! ## The guard of the value decoders -/

theorem size_lt {size : Nat} (h : size ≤ maxPacketSize) : size < 65536 := by
  unfold maxPacketSize at h
  omega

/-- The guard passes where the content fits, and again where the unsigned subtraction
    wraps around. -/
theorem guardPasses_iff {size length pos : Nat} (hsize : size < 65536)
    (hpos : pos ≤ size) (hlen : length < 65536) :
    guardPasses size length pos ↔ pos + length ≤ size ∨ size + 1 < length := by
  unfold guardPasses sizeTModulus
  omega

/-- Content that fits passes in a buffer of any size. -/
theorem guardPasses_of_le {size length pos : Nat} (hsize : size < sizeTModulus)
    (hlen : 1 ≤ length) (hfit : pos + length ≤ size) : guardPasses size length pos := by
  unfold guardPasses
  unfold sizeTModulus at *
  omega

/-! ## Integers -/

/-- The integer that content octets denote: the sign bit of the first octet fills the word
    before the octets are shifted in. -/
def integerValue (bs : List UInt8) : Int32 :=
  (foldOctets (if bs.headD 0 &&& 0x80 = 0 then 0x00000000 else 0xFFFFFFFF) bs).toInt32

section

variable (mem : Mem)

theorem headD_slice (pos : Nat) {length : Nat} (hlen : 1 ≤ length) :
    (mem.slice pos length).headD 0 = mem pos := by
  obtain ⟨k, rfl⟩ := Nat.exists_eq_add_of_le' hlen
  rfl

theorem within_shiftOctets {n : Nat} (length pos : Nat) (acc : UInt32)
    (Q : UInt32 × Nat → Prop) :
    (shiftOctets length pos acc).Within mem n Q ↔
      (0 < length → pos + length ≤ n) ∧
        Q (foldOctets acc (mem.slice pos length), pos + length) := by
  induction length generalizing pos acc with
  | zero => simp [shiftOctets, foldOctets]
  | succ length ih =>
    simp only [shiftOctets, Scan.within_bind, Scan.within_byte]
    rw [ih, Mem.slice_succ, show pos + 1 + length = pos + (length + 1) by omega, ← and_assoc]
    exact and_congr (by omega) Iff.rfl

/-- The integer decoder reads past the packet exactly where the guard wraps around. -/
theorem within_integer {size pos length : Nat} (hsize : size < 65536) (hpos : pos ≤ size)
    (hlen : 1 ≤ length) (hlen' : length < 65536) (Q : Int32 × Nat → Prop) :
    (decodeSnmpElementValueInteger size pos length).Within mem size Q ↔
      length ≤ size + 1 ∧
        (pos + length ≤ size → Q (integerValue (mem.slice pos length), pos + length)) := by
  have hhead := headD_slice mem pos hlen
  simp only [decodeSnmpElementValueInteger, Scan.within_bind, within_require, Scan.within_byte,
    within_shiftOctets, Scan.within_pure, guardPasses_iff hsize hpos hlen', integerValue, hhead]
  constructor
  · intro h
    -- a length above `size + 1` passes the guard, and the loop reads on
    refine ⟨?_, fun hfit => (h (.inl hfit)).2.2⟩
    by_contra hover
    have hread := (h (.inr (by omega))).2.1 (by omega)
    omega
  · rintro ⟨hover, h⟩ (hfit | hwrap)
    · exact ⟨by omega, fun _ => hfit, h hfit⟩
    · -- the guard has wrapped around, which the bound on the length excludes
      omega

end

/-! ## Strings -/

/-- The C string that content octets store in a buffer of `valueSize` characters. -/
def stringValue (bs : List UInt8) (valueSize : Nat) : CString :=
  CString.ofList ((bs.takeWhile (· ≠ 0)).take (valueSize - 1))

section

variable (mem : Mem)

/-- Characters are read up to the precision or a NUL, whichever comes first. -/
theorem within_readChars {n : Nat} (precision : Nat) {pos : Nat} (hpos : pos ≤ n)
    (Q : List UInt8 → Prop) :
    (readChars precision pos).Within mem n Q ↔
      (pos + precision ≤ n ∨ ∃ i, pos ≤ i ∧ i < n ∧ mem i = 0) ∧
        Q ((mem.slice pos precision).takeWhile (· ≠ 0)) := by
  induction precision generalizing pos Q with
  | zero => simp [readChars, hpos]
  | succ precision ih =>
    simp only [readChars, Scan.within_bind, Scan.within_byte, Mem.slice_succ]
    by_cases hlt : pos < n
    · by_cases hc : mem pos = 0
      · -- a NUL ends the string inside the packet
        have hstop : ∃ i, pos ≤ i ∧ i < n ∧ mem i = 0 := ⟨pos, le_rfl, hlt, hc⟩
        simp [hlt, hc, hstop]
      · -- another character: the NUL, if any, stands further on
        have hshift : (∃ i, pos ≤ i ∧ i < n ∧ mem i = 0) ↔
            ∃ i, pos + 1 ≤ i ∧ i < n ∧ mem i = 0 := by
          constructor
          · rintro ⟨i, hi, hi', h0⟩
            have hne : i ≠ pos := fun he => hc (he ▸ h0)
            exact ⟨i, by omega, hi', h0⟩
          · rintro ⟨i, hi, hi', h0⟩
            exact ⟨i, by omega, hi', h0⟩
        simp only [hlt, true_and, hc, ite_false, Scan.within_bind, Scan.within_pure]
        rw [ih hlt, hshift, show pos + 1 + precision = pos + (precision + 1) by omega]
        simp [hc]
    · -- at the end of the packet the next character is outside
      have hno : ¬ ∃ i, pos ≤ i ∧ i < n ∧ mem i = 0 := by
        rintro ⟨i, hi, hi', -⟩
        omega
      simp only [hlt, false_and, hno, or_false, false_iff, not_and]
      omega

/-- The string decoder reads past the packet where the guard wraps around and no NUL stops
    it before. -/
theorem within_string {size pos length : Nat} (valueSize : Nat) (hsize : size < 65536)
    (hpos : pos ≤ size) (hlen : length < 65536) (Q : CString × Nat → Prop) :
    (decodeSnmpElementValueString size pos length valueSize).Within mem size Q ↔
      (size + 1 < length → (∃ i, pos ≤ i ∧ i < size ∧ mem i = 0) ∧
        Q (stringValue (mem.slice pos length) valueSize, pos + length)) ∧
      (pos + length ≤ size → Q (stringValue (mem.slice pos length) valueSize, pos + length)) := by
  simp only [decodeSnmpElementValueString, Scan.within_bind, within_require, Scan.within_pure,
    within_readChars mem length hpos, guardPasses_iff hsize hpos hlen]
  constructor
  · intro h
    constructor
    · intro hwrap
      obtain ⟨hstop, hQ⟩ := h (.inr hwrap)
      exact ⟨hstop.resolve_left (by omega), hQ⟩
    · intro hfit
      exact (h (.inl hfit)).2
  · rintro ⟨hwrapped, hfits⟩ (hfit | hwrap)
    · exact ⟨.inl hfit, hfits hfit⟩
    · exact ⟨.inr (hwrapped hwrap).1, (hwrapped hwrap).2⟩

end

/-! ## Object identifiers -/

/-- Number of octets that end a subid. -/
def stops (bs : List UInt8) : Nat := bs.countP fun b => b.toNat < 128

/-- The last octet, if any, ends a subid. -/
def Closed (bs : List UInt8) : Prop := ∀ b ∈ bs.getLast?, b.toNat < 128

/-- The subids of a row of octets, when the ones before have left `acc` unfinished. -/
def subidsOf (acc : UInt32) : List UInt8 → List UInt32
  | [] => []
  | b :: bs =>
      let acc := (acc <<< 7) + (b &&& 0x7F).toUInt32
      if b.toNat < 128 then acc :: subidsOf 0 bs else subidsOf acc bs

/-- Content octets of an OID that the decoder accepts. -/
structure OidContent (bs : List UInt8) : Prop where
  /-- The start octet is below 128. -/
  start : (bs.headD 0).toNat < 128
  /-- The last subid is complete. -/
  closed : Closed bs.tail
  /-- The subids have room in the list. -/
  room : stops bs.tail ≤ maxNrSubids - 2

/-- The OID that accepted content octets denote. -/
def oidValue (bs : List UInt8) : Oid where
  subidList := [(bs.headD 0 / 40).toUInt32, (bs.headD 0 % 40).toUInt32] ++ subidsOf 0 bs.tail
  encodedLength := oidEncodedLength bs.length

theorem stops_cons (b : UInt8) (bs : List UInt8) :
    stops (b :: bs) = stops bs + if b.toNat < 128 then 1 else 0 := by
  simp [stops, List.countP_cons]

theorem closed_singleton (b : UInt8) : Closed [b] ↔ b.toNat < 128 := by
  simp [Closed]

/-- A closed row of octets ends at least one subid. -/
theorem stops_pos_of_closed {bs : List UInt8} (hne : bs ≠ []) (hclosed : Closed bs) :
    0 < stops bs := by
  refine List.countP_pos_iff.mpr ⟨_, List.getLast_mem hne, ?_⟩
  simpa using hclosed _ (List.getLast?_eq_some_getLast hne)

theorem closed_cons_cons (b c : UInt8) (bs : List UInt8) :
    Closed (b :: c :: bs) ↔ Closed (c :: bs) := by
  simp [Closed, List.getLast?_cons_cons]

/-- The decoder in the middle of a subid, with `length + 1` octets left: the inner loop,
    and the outer loop after it. -/
def decodeRest (room length pos : Nat) (subid : UInt32) (subids : List UInt32) :
    Scan Failure (List UInt32 × Nat) := do
  let (subid, length, pos) ← decodeSubid length pos subid
  decodeSubids room length pos (subids ++ [subid])

section

variable (mem : Mem) {n : Nat}

/-- One octet of the two loops: it ends its subid, or the subid goes on. -/
theorem within_decodeRest_step (room length pos : Nat) (subid : UInt32) (subids : List UInt32)
    (Q : List UInt32 × Nat → Prop) :
    (decodeRest room length pos subid subids).Within mem n Q ↔
      pos < n ∧
        let acc := (subid <<< 7) + (mem pos &&& 0x7F).toUInt32
        if (mem pos).toNat < 128 then
          (decodeSubids room length (pos + 1) (subids ++ [acc])).Within mem n Q
        else match length with
          | 0 => True
          | length + 1 => (decodeRest room length (pos + 1) acc subids).Within mem n Q := by
  rw [decodeRest, decodeSubid]
  simp only [Scan.within_bind, Scan.within_byte]
  refine and_congr_right fun _ => ?_
  by_cases hlow : (mem pos).toNat < 128
  · -- the last octet of the subid: back to the outer loop
    have hzero := (Lib.Ber.and_high_eq_zero_iff (mem pos)).mpr hlow
    simp [hzero, hlow]
  · have hone : ¬ mem pos &&& 0x80 = 0 := by
      rwa [Lib.Ber.and_high_eq_zero_iff]
    -- more octets follow, unless the counter is used up
    simp only [hone, hlow, ite_false]
    cases length with
    | zero => simp
    | succ length => simp [decodeRest]

/-- Content that fits is accepted or rejected without leaving it. -/
theorem within_decodeRest_of_fits (room length pos : Nat) (subid : UInt32)
    (subids : List UInt32) (hfit : pos + length + 1 ≤ n) (Q : List UInt32 × Nat → Prop) :
    (decodeRest room length pos subid subids).Within mem n Q ↔
      (Closed (mem.slice pos (length + 1)) → stops (mem.slice pos (length + 1)) ≤ room + 1 →
        Q (subids ++ subidsOf subid (mem.slice pos (length + 1)), pos + length + 1)) := by
  induction length generalizing room pos subid subids with
  | zero =>
    rw [within_decodeRest_step]
    -- the last octet either closes its subid or is missing a continuation
    by_cases hlow : (mem pos).toNat < 128
    · simp [Mem.slice_succ, closed_singleton, stops, subidsOf, hlow, decodeSubids,
        show pos < n by omega]
    · simp [Mem.slice_succ, closed_singleton, hlow, show pos < n by omega]
  | succ length ih =>
    rw [within_decodeRest_step, Mem.slice_succ mem pos (length + 1), Mem.slice_succ mem (pos + 1),
      closed_cons_cons, ← Mem.slice_succ mem (pos + 1), stops_cons]
    simp only [show pos < n by omega, true_and]
    by_cases hlow : (mem pos).toNat < 128
    · simp only [hlow, ite_true]
      cases room with
      | zero =>
        -- the list is full and octets remain: overflow, and a closed rest has a stop
        simp only [decodeSubids, Scan.within_fail, true_iff]
        intro hclosed hroom
        have hstop := stops_pos_of_closed (by simp [Mem.slice_succ]) hclosed
        omega
      | succ room =>
        -- the next subid takes one of the places
        have hrest := ih room (pos + 1) 0
          (subids ++ [(subid <<< 7) + (mem pos &&& 0x7F).toUInt32]) (by omega)
        rw [decodeRest] at hrest
        rw [decodeSubids, hrest]
        simp only [subidsOf, hlow, ite_true, List.append_assoc, List.singleton_append,
          show pos + 1 + length + 1 = pos + (length + 1) + 1 by omega]
        rw [show stops (mem.slice (pos + 1) (length + 1)) + 1 ≤ room + 1 + 1 ↔
          stops (mem.slice (pos + 1) (length + 1)) ≤ room + 1 by omega]
    · -- the subid goes on with the next octet
      simp only [hlow, ite_false]
      rw [ih room (pos + 1) _ subids (by omega)]
      simp only [subidsOf, hlow, ite_false, Nat.add_zero,
        show pos + 1 + length + 1 = pos + (length + 1) + 1 by omega]

/-- Content that runs past `n` is left inside only by running out of places. -/
theorem within_decodeRest_of_overrun (room length pos : Nat) (subid : UInt32)
    (subids : List UInt32) (hpos : pos ≤ n) (hover : n ≤ pos + length)
    (Q : List UInt32 × Nat → Prop) :
    (decodeRest room length pos subid subids).Within mem n Q ↔
      room + 1 ≤ stops (mem.slice pos (n - pos)) := by
  induction length generalizing room pos subid subids with
  | zero =>
    -- nothing of the content is inside
    obtain rfl : pos = n := by omega
    rw [within_decodeRest_step]
    simp [stops]
  | succ length ih =>
    rw [within_decodeRest_step]
    by_cases hlt : pos < n
    · obtain ⟨k, hk⟩ : ∃ k, n - pos = k + 1 := ⟨n - pos - 1, by omega⟩
      have hk' : n - (pos + 1) = k := by omega
      rw [hk, Mem.slice_succ, stops_cons, ← hk']
      simp only [hlt, true_and]
      -- each completed subid takes a place; without one the decoder stops
      by_cases hlow : (mem pos).toNat < 128
      · simp only [hlow, ite_true]
        cases room with
        | zero => simp [decodeSubids]
        | succ room =>
          have hrest := ih room (pos + 1) 0
            (subids ++ [(subid <<< 7) + (mem pos &&& 0x7F).toUInt32]) (by omega) (by omega)
          rw [decodeRest] at hrest
          rw [decodeSubids, hrest]
          omega
      · simp only [hlow, ite_false, Nat.add_zero]
        exact ih room (pos + 1) _ subids (by omega) (by omega)
    · -- the end of the packet is reached with places left
      obtain rfl : pos = n := by omega
      simp [stops]

/-- The outer loop on content that fits. -/
theorem within_decodeSubids_of_fits (room length pos : Nat) (subids : List UInt32)
    (hfit : pos + length ≤ n) (Q : List UInt32 × Nat → Prop) :
    (decodeSubids room length pos subids).Within mem n Q ↔
      (Closed (mem.slice pos length) → stops (mem.slice pos length) ≤ room →
        Q (subids ++ subidsOf 0 (mem.slice pos length), pos + length)) := by
  cases length with
  | zero => simp [decodeSubids, Closed, stops, subidsOf]
  | succ length =>
    cases room with
    | zero =>
      simp only [decodeSubids, Scan.within_fail, true_iff]
      intro hclosed hroom
      have hstop := stops_pos_of_closed (by simp [Mem.slice_succ]) hclosed
      omega
    | succ room => exact within_decodeRest_of_fits mem room length pos 0 subids hfit Q

/-- The outer loop on content that runs past `n`. -/
theorem within_decodeSubids_of_overrun (room length pos : Nat) (subids : List UInt32)
    (hpos : pos ≤ n) (hover : n < pos + length) (Q : List UInt32 × Nat → Prop) :
    (decodeSubids room length pos subids).Within mem n Q ↔
      room ≤ stops (mem.slice pos (n - pos)) := by
  cases length with
  | zero => omega
  | succ length =>
    cases room with
    | zero => simp [decodeSubids]
    | succ room =>
      exact within_decodeRest_of_overrun mem room length pos 0 subids hpos (by omega) Q

end

/-- The octets before `size` make the OID decoder stop by itself: the start octet is not
    supported, or they complete more subids than there is room for. -/
def OidStops (mem : Mem) (size pos : Nat) : Prop :=
  pos < size ∧ (128 ≤ (mem pos).toNat ∨
    maxNrSubids - 2 ≤ stops (mem.slice (pos + 1) (size - (pos + 1))))

section

variable (mem : Mem)

/-- The OID of content octets, by their places. -/
theorem oidValue_slice (pos rest : Nat) :
    oidValue (mem.slice pos (rest + 1)) =
      ⟨[(mem pos / 40).toUInt32, (mem pos % 40).toUInt32] ++ subidsOf 0 (mem.slice (pos + 1) rest),
        oidEncodedLength (rest + 1)⟩ := by
  simp only [oidValue, Mem.length_slice]
  rfl

/-- The OID decoder reads past the packet where the guard wraps around and the octets before
    the end of the packet do not stop it. -/
theorem within_oid {size pos length : Nat} (hsize : size < 65536) (hpos : pos ≤ size)
    (hlen : 1 ≤ length) (hlen' : length < 65536) (Q : Oid × Nat → Prop) :
    (decodeSnmpElementValueOid size pos length).Within mem size Q ↔
      (size + 1 < length → OidStops mem size pos) ∧
      (pos + length ≤ size → OidContent (mem.slice pos length) →
        Q (oidValue (mem.slice pos length), pos + length)) := by
  obtain ⟨rest, rfl⟩ := Nat.exists_eq_add_of_le' hlen
  have hstart := Lib.Ber.and_high_eq_zero_iff (mem pos)
  have hhead : (mem.slice pos (rest + 1)).headD 0 = mem pos := rfl
  have htail : (mem.slice pos (rest + 1)).tail = mem.slice (pos + 1) rest := rfl
  rw [oidValue_slice, show pos + (rest + 1) = pos + 1 + rest by omega]
  simp only [decodeSnmpElementValueOid, Scan.within_bind, within_require, Scan.within_byte,
    Scan.within_pure, guardPasses_iff hsize hpos hlen', hstart]
  constructor
  · intro h
    constructor
    · -- the guard has wrapped around: the loops stop inside, or read on
      intro hwrap
      obtain ⟨hlt, hbody⟩ := h (.inr hwrap) (by omega)
      refine ⟨hlt, ?_⟩
      by_cases hlow : (mem pos).toNat < 128
      · right
        exact (within_decodeSubids_of_overrun mem _ rest (pos + 1) _ hlt (by omega) _).mp
          (hbody hlow)
      · exact .inl (by omega)
    · -- content that fits, and that the loops accept
      rintro hfit ⟨hlow, hclosed, hroom⟩
      rw [hhead] at hlow
      rw [htail] at hclosed hroom
      obtain ⟨-, hbody⟩ := h (.inl (by omega)) (by omega)
      exact (within_decodeSubids_of_fits mem _ rest (pos + 1) _ (by omega) _).mp
        (hbody hlow) hclosed hroom
  · rintro ⟨hwrapped, hfits⟩ hguard -
    -- where the content does not fit, the guard has wrapped around
    by_cases hfit : pos + 1 + rest ≤ size
    · refine ⟨by omega, fun hlow => ?_⟩
      refine (within_decodeSubids_of_fits mem _ rest (pos + 1) _ (by omega) _).mpr ?_
      intro hclosed hroom
      exact hfits (by omega) ⟨by rwa [hhead], by rwa [htail], by rwa [htail]⟩
    · obtain ⟨hlt, hstops⟩ := hwrapped (by omega)
      refine ⟨hlt, fun hlow => ?_⟩
      exact (within_decodeSubids_of_overrun mem _ rest (pos + 1) _ hlt (by omega) _).mpr
        (hstops.resolve_left (by omega))

/-- Skipping a value reads nothing, but moves the cursor past the packet where the guard
    wraps around. -/
theorem within_void {size pos length : Nat} (hsize : size < 65536) (hpos : pos ≤ size)
    (hlen : length < 65536) (Q : Nat → Prop) :
    (decodeSnmpElementValueVoid size pos length).Within mem size Q ↔
      (pos + length ≤ size ∨ size + 1 < length → Q (pos + length)) := by
  simp only [decodeSnmpElementValueVoid, Scan.within_bind, within_require, Scan.within_pure,
    guardPasses_iff hsize hpos hlen]

end

/-! ## Outcomes

The outcome of a decoder on the whole memory, also where it leaves the packet. -/

section

variable (mem : Mem)

theorem eval_require_bind_eq_ok {c : Prop} [Decidable c] {e : Failure} {α : Type}
    {f : Unit → Scan Failure α} {a : α} :
    (require c e >>= f).eval mem = .ok a ↔ c ∧ (f ()).eval mem = .ok a := by
  unfold require
  split <;> simp [Scan.eval_bind, Except.bind, *]

theorem eval_typeLength_eq_ok {size pos : Nat} {h : Header} :
    (decodeSnmpElementTypeLength size pos).eval mem = .ok h ↔
      HeaderAt supportedTypes mem size pos h.type h.length h.pos := by
  refine Scan.eval_eq_ok_iff mem (n := size)
    (R := fun h : Header => HeaderAt supportedTypes mem size pos h.type h.length h.pos) ?_ h
  intro Q
  rw [within_typeLength]
  exact ⟨fun hQ b hb => hQ _ _ _ hb, fun hQ tag length next hdr => hQ ⟨tag, length, next⟩ hdr⟩

theorem eval_integer_eq_ok {size pos length : Nat} (hlen : 1 ≤ length) {r : Int32 × Nat} :
    (decodeSnmpElementValueInteger size pos length).eval mem = .ok r ↔
      guardPasses size length pos ∧ r = (integerValue (mem.slice pos length), pos + length) := by
  have hhead := headD_slice mem pos hlen
  rw [decodeSnmpElementValueInteger, eval_require_bind_eq_ok]
  refine and_congr_right fun _ => Scan.eval_eq_ok_iff mem (n := pos + length)
    (R := fun r => r = (integerValue (mem.slice pos length), pos + length)) ?_ r
  intro Q
  simp only [Scan.within_bind, Scan.within_byte, within_shiftOctets, Scan.within_pure,
    integerValue, hhead, forall_eq]
  exact ⟨fun h => h.2.2, fun h => ⟨by omega, fun _ => le_rfl, h⟩⟩

theorem eval_unsigned_eq_ok {size pos length : Nat} {r : UInt32 × Nat} :
    (decodeSnmpElementValueUnsigned size pos length).eval mem = .ok r ↔
      guardPasses size length pos ∧ r = (foldOctets 0 (mem.slice pos length), pos + length) := by
  rw [decodeSnmpElementValueUnsigned, eval_require_bind_eq_ok]
  refine and_congr_right fun _ => Scan.eval_eq_ok_iff mem (n := pos + length)
    (R := fun r => r = (foldOctets 0 (mem.slice pos length), pos + length)) ?_ r
  intro Q
  simp only [within_shiftOctets, forall_eq]
  exact ⟨fun h => h.2, fun h => ⟨fun _ => le_rfl, h⟩⟩

theorem eval_string_eq_ok {size pos length valueSize : Nat} {r : CString × Nat} :
    (decodeSnmpElementValueString size pos length valueSize).eval mem = .ok r ↔
      guardPasses size length pos ∧
        r = (stringValue (mem.slice pos length) valueSize, pos + length) := by
  rw [decodeSnmpElementValueString, eval_require_bind_eq_ok]
  refine and_congr_right fun _ => Scan.eval_eq_ok_iff mem (n := pos + length)
    (R := fun r => r = (stringValue (mem.slice pos length) valueSize, pos + length)) ?_ r
  intro Q
  simp only [Scan.within_bind, within_readChars mem length (Nat.le_add_right pos length),
    Scan.within_pure, forall_eq]
  exact ⟨fun h => h.2, fun h => ⟨.inl le_rfl, h⟩⟩

theorem eval_oid_eq_ok {size pos length : Nat} (hlen : 1 ≤ length) (hlen' : length < 65536)
    {r : Oid × Nat} :
    (decodeSnmpElementValueOid size pos length).eval mem = .ok r ↔
      guardPasses size length pos ∧ OidContent (mem.slice pos length) ∧
        r = (oidValue (mem.slice pos length), pos + length) := by
  obtain ⟨rest, rfl⟩ := Nat.exists_eq_add_of_le' hlen
  rw [decodeSnmpElementValueOid, eval_require_bind_eq_ok, eval_require_bind_eq_ok]
  refine and_congr_right fun _ => ?_
  simp only [show ¬ rest + 1 > 0xFFFF by omega, not_false_eq_true, true_and]
  refine Scan.eval_eq_ok_iff mem (n := pos + (rest + 1))
    (R := fun r => OidContent (mem.slice pos (rest + 1)) ∧
      r = (oidValue (mem.slice pos (rest + 1)), pos + (rest + 1))) ?_ r
  intro Q
  rw [oidValue_slice, show pos + (rest + 1) = pos + 1 + rest by omega]
  simp only [Scan.within_bind, within_require, Scan.within_byte, Scan.within_pure,
    Lib.Ber.and_high_eq_zero_iff,
    within_decodeSubids_of_fits mem (maxNrSubids - 2) rest (pos + 1) _ le_rfl]
  constructor
  · rintro ⟨-, h⟩ b ⟨⟨hstart, hclosed, hroom⟩, rfl⟩
    exact h hstart hclosed hroom
  · intro h
    exact ⟨by omega, fun hstart hclosed hroom => h _ ⟨⟨hstart, hclosed, hroom⟩, rfl⟩⟩

theorem eval_void_eq_ok {size pos length r : Nat} :
    (decodeSnmpElementValueVoid size pos length).eval mem = .ok r ↔
      guardPasses size length pos ∧ r = pos + length := by
  rw [decodeSnmpElementValueVoid, eval_require_bind_eq_ok]
  simp [eq_comm]

end

end SdkSnmpd
