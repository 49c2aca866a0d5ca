import SdkSnmpd.Lib.Memory
import Mathlib.Data.Nat.Basic
import Mathlib.Tactic.Ring

/-!
# Definite-Length BER over a Byte Memory

The parts of the Basic Encoding Rules that a small agent needs: headers with at most two
length octets, big-endian two's-complement octets of a 32-bit word, and base-128 groups.

## Contents

- `HeaderAt`: a tag and a length stand at an index of a buffer.
- `ElementAt`: a complete element in definite form, its content included.
- `lengthOctets`, `tlv`: the shortest header, and a complete element.
- `octets`, `foldOctets`: a word as octets and back.
- `groups`, `foldGroups`: a word as base-128 groups and back.
-/

namespace SdkSnmpd.Lib.Ber

/-! ## Single octets -/

/-- The top bit of an octet is clear exactly below 128. -/
theorem and_high_eq_zero_iff (b : UInt8) : b &&& 0x80 = 0 ↔ b.toNat < 128 := by
  have h : ∀ i : Fin 256, i.val &&& 128 = 0 ↔ i.val < 128 := by decide +kernel
  rw [← UInt8.toNat_inj, UInt8.toNat_and]
  exact h ⟨b.toNat, b.toNat_lt⟩

theorem toNat_and_low (b : UInt8) : (b &&& 0x7F).toNat = b.toNat % 128 := by
  rw [UInt8.toNat_and]
  exact Nat.and_two_pow_sub_one_eq_mod b.toNat 7

theorem toNat_or_high (b : UInt8) (h : b.toNat < 128) : (b ||| 0x80).toNat = b.toNat + 128 := by
  rw [UInt8.toNat_or, Nat.or_comm]
  have hor := Nat.two_pow_add_eq_or_of_lt (i := 7) h 1
  simpa [Nat.add_comm] using hor.symm

/-- An octet shifted in from the right. -/
theorem toNat_shiftLeft_or (acc : UInt32) (b : UInt8) :
    ((acc <<< 8) ||| b.toUInt32).toNat = (acc.toNat * 256 + b.toNat) % 2 ^ 32 := by
  have hb := b.toNat_lt
  have hshift : (acc <<< 8).toNat = 2 ^ 8 * (acc.toNat % 2 ^ 24) := by
    simp only [UInt32.toNat_shiftLeft, UInt32.reduceToNat, Nat.shiftLeft_eq,
      Nat.reduceMod, Nat.reducePow]
    omega
  rw [UInt32.toNat_or, UInt8.toNat_toUInt32, hshift, ← Nat.two_pow_add_eq_or_of_lt (by omega)]
  omega

/-- A base-128 group shifted in from the right. -/
theorem toNat_shiftLeft_add (acc : UInt32) (b : UInt8) :
    ((acc <<< 7) + (b &&& 0x7F).toUInt32).toNat = (acc.toNat * 128 + b.toNat % 128) % 2 ^ 32 := by
  simp only [UInt32.toNat_add, UInt32.toNat_shiftLeft, UInt32.reduceToNat, Nat.shiftLeft_eq,
    Nat.reduceMod, Nat.reducePow, UInt8.toNat_toUInt32, toNat_and_low]
  omega

/-! ## Octets of a word -/

/-- The last `k` octets of a word, most significant first. -/
def octets (x : UInt32) : Nat → List UInt8
  | 0 => []
  | k + 1 => (x >>> UInt32.ofNat (8 * k)).toUInt8 :: octets x k

/-- Shift octets into a word from the right. -/
def foldOctets (acc : UInt32) (bs : List UInt8) : UInt32 :=
  bs.foldl (fun acc b => (acc <<< 8) ||| b.toUInt32) acc

@[simp] theorem length_octets (x : UInt32) (k : Nat) : (octets x k).length = k := by
  induction k with
  | zero => rfl
  | succ k ih => simp [octets, ih]

theorem toNat_octet (x : UInt32) {k : Nat} (h : k < 4) :
    ((x >>> UInt32.ofNat (8 * k)).toUInt8).toNat = x.toNat / 256 ^ k % 256 := by
  rw [UInt32.toNat_toUInt8, UInt32.toNat_shiftRight, Nat.shiftRight_eq_div_pow,
    UInt32.toNat_ofNat', Nat.mod_eq_of_lt (by omega : 8 * k < 2 ^ 32),
    Nat.mod_eq_of_lt (by omega : 8 * k < 32), Nat.pow_mul]

/-- A mask on a whole octet tells whether the octet is zero. -/
theorem and_octetMask_eq_zero_iff (n i : Nat) : n &&& (255 <<< i) = 0 ↔ n / 2 ^ i % 256 = 0 := by
  have hshift : n &&& (255 <<< i) = ((n >>> i) &&& 255) <<< i := by
    apply Nat.eq_of_testBit_eq
    intro j
    simp only [Nat.testBit_and, Nat.testBit_shiftLeft, Nat.testBit_shiftRight]
    by_cases hj : i ≤ j
    · simp [hj, Nat.add_sub_cancel' hj]
    · simp [hj]
  rw [hshift, Nat.shiftLeft_eq_zero_iff, Nat.shiftRight_eq_div_pow]
  exact Eq.congr_left (Nat.and_two_pow_sub_one_eq_mod _ 8)

/-- Shifting the last `k` octets of `x` into `acc`. -/
theorem toNat_foldOctets (acc x : UInt32) {k : Nat} (h : k ≤ 4) :
    (foldOctets acc (octets x k)).toNat =
      (acc.toNat * 256 ^ k + x.toNat % 256 ^ k) % 2 ^ 32 := by
  induction k generalizing acc with
  | zero =>
    have := acc.toNat_lt
    simp [octets, foldOctets, Nat.mod_one]
  | succ k ih =>
    have hstep : foldOctets acc (octets x (k + 1)) =
        foldOctets ((acc <<< 8) ||| (x >>> UInt32.ofNat (8 * k)).toUInt8.toUInt32)
          (octets x k) := rfl
    rw [hstep, ih _ (by omega), toNat_shiftLeft_or, toNat_octet x (by omega)]
    -- the octet shifted in is the digit of weight `256 ^ k`
    have hdigit : x.toNat % 256 ^ (k + 1) =
        256 ^ k * (x.toNat / 256 ^ k % 256) + x.toNat % 256 ^ k := by
      rw [Nat.pow_succ, Nat.mod_mul, Nat.add_comm]
    rw [hdigit, Nat.add_mod, Nat.mod_mul_mod, ← Nat.add_mod]
    congr 1
    ring

/-- The last `k` octets hold a word in two's complement if its other bits repeat the sign:
    shifting them into a word of signs gives the word back. -/
theorem foldOctets_sign (x : UInt32) {k : Nat} (hk : 1 ≤ k) (hk' : k ≤ 4)
    (hrange : x.toNat < 2 ^ (8 * k - 1) ∨ 2 ^ 32 - 2 ^ (8 * k - 1) ≤ x.toNat) :
    foldOctets (if (octets x k).headD 0 &&& 0x80 = 0 then 0x00000000 else 0xFFFFFFFF)
      (octets x k) = x := by
  have hlt := x.toNat_lt
  have hhead : ((octets x k).headD 0).toNat = x.toNat / 256 ^ (k - 1) % 256 := by
    obtain ⟨j, rfl⟩ := Nat.exists_eq_add_of_le' hk
    exact toNat_octet x (by omega)
  rw [← UInt32.toNat_inj, toNat_foldOctets _ x hk']
  by_cases hlow : x.toNat / 256 ^ (k - 1) % 256 < 128
  · -- not negative: the bits above are zero
    rw [if_pos ((and_high_eq_zero_iff _).mpr (by omega)),
      show (0x00000000 : UInt32).toNat = 0 from rfl]
    obtain rfl | rfl | rfl | rfl : k = 1 ∨ k = 2 ∨ k = 3 ∨ k = 4 := by omega
    · omega
    · omega
    · omega
    · omega
  · -- negative: the bits above are ones
    rw [if_neg (by rw [and_high_eq_zero_iff]; omega),
      show (0xFFFFFFFF : UInt32).toNat = 2 ^ 32 - 1 from rfl]
    obtain rfl | rfl | rfl | rfl : k = 1 ∨ k = 2 ∨ k = 3 ∨ k = 4 := by omega
    · omega
    · omega
    · omega
    · omega

/-! ## Base-128 groups of a word -/

/-- The last `k` base-128 digits of a word, most significant first; all but the last one
    carry the continuation bit. -/
def groups (x : UInt32) : Nat → List UInt8
  | 0 => []
  | k + 1 =>
      (if k ≠ 0 then ((x >>> UInt32.ofNat (7 * k)) &&& 0x7F).toUInt8 ||| 0x80
        else ((x >>> UInt32.ofNat (7 * k)) &&& 0x7F).toUInt8) :: groups x k

/-- Shift base-128 groups into a word from the right, their continuation bits dropped. -/
def foldGroups (acc : UInt32) (bs : List UInt8) : UInt32 :=
  bs.foldl (fun acc b => (acc <<< 7) + (b &&& 0x7F).toUInt32) acc

@[simp] theorem length_groups (x : UInt32) (k : Nat) : (groups x k).length = k := by
  induction k with
  | zero => rfl
  | succ k ih => simp [groups, ih]

theorem toNat_group (x : UInt32) {k : Nat} (h : k < 5) :
    (((x >>> UInt32.ofNat (7 * k)) &&& 0x7F).toUInt8).toNat = x.toNat / 128 ^ k % 128 := by
  have hand : ((x >>> UInt32.ofNat (7 * k)) &&& 0x7F).toNat = x.toNat / 128 ^ k % 128 := by
    rw [UInt32.toNat_and, UInt32.toNat_shiftRight, Nat.shiftRight_eq_div_pow,
      UInt32.toNat_ofNat', Nat.mod_eq_of_lt (by omega : 7 * k < 2 ^ 32),
      Nat.mod_eq_of_lt (by omega : 7 * k < 32), Nat.pow_mul]
    exact Nat.and_two_pow_sub_one_eq_mod _ 7
  rw [UInt32.toNat_toUInt8, hand]
  omega

/-- The first of `k + 1` groups carries the continuation bit unless it is the last one. -/
theorem toNat_head_groups (x : UInt32) {k : Nat} (h : k < 5) :
    ((groups x (k + 1)).head (by simp [groups])).toNat =
      x.toNat / 128 ^ k % 128 + (if k = 0 then 0 else 128) := by
  have hg := toNat_group x h
  have hlt : x.toNat / 128 ^ k % 128 < 128 := Nat.mod_lt _ (by omega)
  by_cases hk : k = 0
  · simp [groups, hk] at hg ⊢
    exact hg
  · simp only [groups, ne_eq, hk, not_false_eq_true, ite_true, List.head_cons, ite_false]
    rw [toNat_or_high _ (by omega), hg]

/-- Shifting the last `k` base-128 digits of `x` into `acc`. -/
theorem toNat_foldGroups (acc x : UInt32) {k : Nat} (h : k ≤ 5) :
    (foldGroups acc (groups x k)).toNat =
      (acc.toNat * 128 ^ k + x.toNat % 128 ^ k) % 2 ^ 32 := by
  induction k generalizing acc with
  | zero =>
    have := acc.toNat_lt
    simp [groups, foldGroups, Nat.mod_one]
  | succ k ih =>
    have hstep : foldGroups acc (groups x (k + 1)) =
        foldGroups ((acc <<< 7) +
          ((groups x (k + 1)).head (by simp [groups]) &&& 0x7F).toUInt32) (groups x k) := rfl
    rw [hstep, ih _ (by omega), toNat_shiftLeft_add, toNat_head_groups x (by omega)]
    have hlow : (x.toNat / 128 ^ k % 128 + (if k = 0 then 0 else 128)) % 128 =
        x.toNat / 128 ^ k % 128 := by
      split <;> omega
    have hdigit : x.toNat % 128 ^ (k + 1) =
        128 ^ k * (x.toNat / 128 ^ k % 128) + x.toNat % 128 ^ k := by
      rw [Nat.pow_succ, Nat.mod_mul, Nat.add_comm]
    rw [hlow, hdigit, Nat.add_mod, Nat.mod_mul_mod, ← Nat.add_mod]
    congr 1
    ring

/-! ## Headers -/

/-- The number that big-endian octets denote. -/
def beNat (bs : List UInt8) : Nat := bs.foldl (fun acc b => acc * 256 + b.toNat) 0

/-- A header with a tag of `tags` stands at `pos` and ends before `size`: the tag, the
    declared length of the content, and the index where the content starts. The length is
    one octet, or a count of at most two octets and these octets. -/
inductive HeaderAt (tags : List UInt8) (mem : Mem) (size pos : Nat) : UInt8 → Nat → Nat → Prop where
  /-- Short form. -/
  | short (htag : mem pos ∈ tags) (hlen : (mem (pos + 1)).toNat < 128) (hfit : pos + 2 ≤ size) :
      HeaderAt tags mem size pos (mem pos) (mem (pos + 1)).toNat (pos + 2)
  /-- Long form with `k` length octets. -/
  | long (k : Nat) (hk : k ≤ 2) (htag : mem pos ∈ tags) (hlen : (mem (pos + 1)).toNat = 128 + k)
      (hfit : pos + 2 + k ≤ size) :
      HeaderAt tags mem size pos (mem pos) (beNat (mem.slice (pos + 2) k)) (pos + 2 + k)

section

variable {tags : List UInt8} {mem : Mem} {size pos : Nat} {tag : UInt8} {length next : Nat}

/-- A header takes two to four octets, all of them before `size`. -/
theorem HeaderAt.bounds (h : HeaderAt tags mem size pos tag length next) :
    pos + 2 ≤ next ∧ next ≤ pos + 4 ∧ next ≤ size := by
  cases h with
  | short htag hlen hfit => omega
  | long k hk htag hlen hfit => omega

theorem HeaderAt.tag_eq (h : HeaderAt tags mem size pos tag length next) :
    tag = mem pos ∧ tag ∈ tags := by
  cases h with
  | short htag hlen hfit => exact ⟨rfl, htag⟩
  | long k hk htag hlen hfit => exact ⟨rfl, htag⟩

/-- A position holds at most one header. -/
theorem HeaderAt.functional {tag' : UInt8} {length' next' : Nat}
    (h : HeaderAt tags mem size pos tag length next)
    (h' : HeaderAt tags mem size pos tag' length' next') :
    tag = tag' ∧ length = length' ∧ next = next' := by
  cases h with
  | short htag hlen hfit =>
    cases h' with
    | short htag' hlen' hfit' => exact ⟨rfl, rfl, rfl⟩
    | long k hk htag' hlen' hfit' => omega
  | long k hk htag hlen hfit =>
    cases h' with
    | short htag' hlen' hfit' => omega
    | long k' hk' htag' hlen' hfit' =>
      obtain rfl : k = k' := by omega
      exact ⟨rfl, rfl, rfl⟩

/-- The declared length fits in two octets. -/
theorem HeaderAt.length_lt (h : HeaderAt tags mem size pos tag length next) : length < 65536 := by
  cases h with
  | short htag hlen hfit => omega
  | long k hk htag hlen hfit =>
    have h1 := (mem (pos + 2)).toNat_lt
    have h2 := (mem (pos + 2 + 1)).toNat_lt
    match k, hk with
    | 0, _ => simp [beNat]
    | 1, _ => simp [beNat, Mem.slice_succ]; omega
    | 2, _ => simp [beNat, Mem.slice_succ]; omega

/-- A header depends on nothing but the bytes before its content, and may stand elsewhere. -/
theorem HeaderAt.shift {mem' : Mem} {off size' : Nat}
    (h : HeaderAt tags mem size pos tag length next)
    (hmem : ∀ i < next, mem' (off + i) = mem i) (hsize : off + next ≤ size') :
    HeaderAt tags mem' size' (off + pos) tag length (off + next) := by
  cases h with
  | short htag hlen hfit =>
    have h0 := hmem pos (by omega)
    have h1 := hmem (pos + 1) (by omega)
    rw [← h0] at htag
    rw [← h1] at hlen
    rw [← h0, ← h1]
    exact .short htag hlen hsize
  | long k hk htag hlen hfit =>
    have h0 := hmem pos (by omega)
    have h1 := hmem (pos + 1) (by omega)
    have hslice : mem'.slice (off + pos + 2) k = mem.slice (pos + 2) k := by
      apply List.ext_getElem (by simp)
      intro i hi hi'
      rw [Mem.length_slice] at hi
      rw [Mem.getElem_slice, Mem.getElem_slice, ← hmem (pos + 2 + i) (by omega)]
      congr 1
      omega
    rw [← hslice, ← h0, show off + (pos + 2 + k) = off + pos + 2 + k by omega]
    rw [← h0] at htag
    rw [← h1] at hlen
    exact .long k hk htag hlen (by omega)

end

/-! ## Elements in definite form -/

/-- The octets from `p` to `q` denote a length in definite form: one octet below 128, or a
    count of at least one octet and these octets. -/
inductive DefiniteLength (mem : Mem) (p : Nat) : (length q : Nat) → Prop where
  | short (hlen : (mem p).toNat < 128) : DefiniteLength mem p (mem p).toNat (p + 1)
  | long (k : Nat) (hk : 1 ≤ k) (hlen : (mem p).toNat = 128 + k) :
      DefiniteLength mem p (beNat (mem.slice (p + 1) k)) (p + 1 + k)

/-- An element stands at `p`: its content reaches from `q` to `e`, and is as long as its
    length octets say. -/
structure ElementAt (mem : Mem) (tag : UInt8) (p q e : Nat) : Prop where
  tag : mem p = tag
  length : DefiniteLength mem (p + 1) (e - q) q
  inside : q ≤ e

section

variable {tags : List UInt8} {mem : Mem} {size : Nat} {tag : UInt8} {p q e length : Nat}

/-- An element takes two octets at least. -/
theorem ElementAt.bounds (h : ElementAt mem tag p q e) : p + 2 ≤ q ∧ q ≤ e := by
  have hlen := h.length
  refine ⟨?_, h.inside⟩
  generalize e - q = length at hlen
  cases hlen with
  | short => exact le_rfl
  | long k hk => omega

/-- An element whose length has the short form. -/
theorem ElementAt.of_short (h : ElementAt mem tag p q e) (hlow : (mem (p + 1)).toNat < 128) :
    q = p + 2 ∧ e = p + 2 + (mem (p + 1)).toNat := by
  have hlen := h.length
  have hle := h.inside
  generalize hcontent : e - q = length at hlen
  cases hlen with
  | short => exact ⟨rfl, by omega⟩
  | long k hk hhigh => omega

/-- The octet 0x80 announces an indefinite length. -/
theorem ElementAt.definite (h : ElementAt mem tag p q e) : mem (p + 1) ≠ 0x80 := by
  have hlen := h.length
  intro hzero
  generalize e - q = length at hlen
  cases hlen with
  | short hlen =>
    rw [hzero] at hlen
    exact absurd hlen (by decide)
  | long k hk hlen =>
    rw [hzero, show (0x80 : UInt8).toNat = 128 from rfl] at hlen
    omega

/-- A header in definite form starts an element. -/
theorem HeaderAt.elementAt (h : HeaderAt tags mem size p tag length q)
    (hdef : mem (p + 1) ≠ 0x80) : ElementAt mem tag p q (q + length) := by
  have htag := h.tag_eq.1
  refine ⟨htag.symm, ?_, Nat.le_add_right q length⟩
  rw [Nat.add_sub_cancel_left]
  cases h with
  | short _ hlen _ => exact .short hlen
  | long k _ _ hlen _ =>
    refine .long k ?_ hlen
    by_contra hk
    -- a count of no octets is the octet 0x80
    refine hdef (UInt8.toNat_inj.mp ?_)
    rw [hlen, show k = 0 by omega]
    rfl

/-- The header at an element declares its content. -/
theorem ElementAt.of_header {tag' : UInt8} {q' : Nat} (h : ElementAt mem tag p q e)
    (hdr : HeaderAt tags mem size p tag' length q') :
    tag' = tag ∧ q' = q ∧ q + length = e := by
  have hle := h.inside
  have hlen := h.length
  have htag := hdr.tag_eq.1.trans h.tag
  generalize hcontent : e - q = content at hlen
  refine ⟨htag, ?_⟩
  cases hdr with
  | short _ hlow _ =>
    cases hlen with
    | short _ => exact ⟨rfl, by omega⟩
    | long k _ hhigh => omega
  | long k _ _ hhigh _ =>
    cases hlen with
    | short hlow => omega
    | long k' _ hhigh' =>
      obtain rfl : k' = k := by omega
      rw [show p + 1 + 1 = p + 2 from rfl] at hcontent hle ⊢
      exact ⟨rfl, by omega⟩

end

/-! ## Writing elements -/

/-- The shortest length octets, for lengths up to 65535. -/
def lengthOctets (n : Nat) : List UInt8 :=
  if n > 0xFF then [0x82, UInt8.ofNat (n / 256), UInt8.ofNat n]
  else if n > 0x7F then [0x81, UInt8.ofNat n]
  else [UInt8.ofNat n]

/-- A complete element: tag, length octets, content. -/
def tlv (tag : UInt8) (content : List UInt8) : List UInt8 :=
  tag :: lengthOctets content.length ++ content

theorem length_lengthOctets (n : Nat) :
    (lengthOctets n).length = if n > 0xFF then 3 else if n > 0x7F then 2 else 1 := by
  unfold lengthOctets
  split
  · rfl
  · split <;> rfl

@[simp] theorem length_tlv (tag : UInt8) (content : List UInt8) :
    (tlv tag content).length = 1 + (lengthOctets content.length).length + content.length := by
  simp only [tlv, List.length_cons, List.length_append]
  omega

/-- An element determines its content. -/
theorem tlv_inj {tag : UInt8} {xs ys : List UInt8} (h : tlv tag xs = tlv tag ys) : xs = ys := by
  have hlen := congrArg List.length h
  rw [length_tlv, length_tlv, length_lengthOctets, length_lengthOctets] at hlen
  have hsame : xs.length = ys.length := by split_ifs at hlen <;> omega
  rw [tlv, tlv, hsame] at h
  exact List.append_cancel_left h

/-- A written header is read back. -/
theorem headerAt_of_holdsAt {tags : List UInt8} {mem : Mem} {size pos : Nat} {tag : UInt8}
    {n : Nat} (htag : tag ∈ tags) (hn : n < 65536)
    (hmem : mem.HoldsAt pos (tag :: lengthOctets n))
    (hfit : pos + 1 + (lengthOctets n).length ≤ size) :
    HeaderAt tags mem size pos tag n (pos + 1 + (lengthOctets n).length) := by
  obtain ⟨rfl, hlen⟩ := Mem.holdsAt_cons.mp hmem
  unfold lengthOctets at hlen hfit ⊢
  split at hlen
  · -- two length octets
    rename_i hbig
    simp only [Mem.holdsAt_cons, Mem.holdsAt_nil, and_true] at hlen
    obtain ⟨h0, h1, h2⟩ := hlen
    rw [if_pos hbig] at hfit ⊢
    have hval : beNat (mem.slice (pos + 2) 2) = n := by
      simp only [Mem.slice_succ, Mem.slice_zero, h1, h2, beNat, List.foldl_cons, List.foldl_nil,
        UInt8.toNat_ofNat']
      omega
    rw [← hval]
    simp only [List.length_cons, List.length_nil] at hfit
    exact HeaderAt.long 2 le_rfl htag (by rw [h0]; rfl) (by omega)
  · rename_i hsmall
    rw [if_neg hsmall] at hfit ⊢
    split at hlen
    · -- one length octet after the count
      rename_i hmid
      simp only [Mem.holdsAt_cons, Mem.holdsAt_nil, and_true] at hlen
      obtain ⟨h0, h1⟩ := hlen
      rw [if_pos hmid] at hfit ⊢
      have hval : beNat (mem.slice (pos + 2) 1) = n := by
        simp only [Mem.slice_succ, Mem.slice_zero, h1, beNat, List.foldl_cons, List.foldl_nil,
          UInt8.toNat_ofNat']
        omega
      rw [← hval]
      simp only [List.length_cons, List.length_nil] at hfit
      exact HeaderAt.long 1 (by omega) htag (by rw [h0]; rfl) (by omega)
    · -- short form
      rename_i hlow
      simp only [Mem.holdsAt_cons, Mem.holdsAt_nil, and_true] at hlen
      rw [if_neg hlow] at hfit ⊢
      have hval : (mem (pos + 1)).toNat = n := by
        rw [hlen, UInt8.toNat_ofNat']
        omega
      rw [← hval]
      exact HeaderAt.short htag (by omega) hfit

end SdkSnmpd.Lib.Ber
