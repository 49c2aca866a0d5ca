import Mathlib.Data.List.Basic

/-!
# Byte Memory

A buffer seen from its first byte on: a total function from indices to bytes. Reads and
writes past the end of the buffer are values of the same function, so that a program that
leaves its buffer can still be described.

## Contents

- `Mem.write`: copying a list of bytes into the buffer.
- `Mem.slice`: the bytes of an index range, as a list.
- `Mem.HoldsAt`: a list of bytes stands at an index.
- `Mem.AgreeBelow`: two buffers have the same first bytes.
-/

namespace SdkSnmpd.Lib

/-- Byte memory, indexed from the first byte of a buffer. -/
abbrev Mem := Nat → UInt8

namespace Mem

/-- The memory that starts with the given bytes, with zeros behind them. -/
def ofList (bytes : List UInt8) : Mem := fun i => bytes.getD i 0

/-- Copy `bytes` to the indices `off, off + 1, …`. -/
def write (mem : Mem) (off : Nat) (bytes : List UInt8) : Mem := fun i =>
  if off ≤ i ∧ i < off + bytes.length then bytes.getD (i - off) 0 else mem i

/-- The `len` bytes from index `off` on. -/
def slice (mem : Mem) : (off len : Nat) → List UInt8
  | _, 0 => []
  | off, len + 1 => mem off :: slice mem (off + 1) len

/-- The list `bytes` stands at index `off`. -/
def HoldsAt (mem : Mem) (off : Nat) (bytes : List UInt8) : Prop :=
  mem.slice off bytes.length = bytes

/-- Both buffers have the same first `n` bytes. -/
def AgreeBelow (n : Nat) (mem mem' : Mem) : Prop :=
  ∀ i < n, mem i = mem' i

/-! ## Lists as memory -/

theorem ofList_of_lt {bytes : List UInt8} {i : Nat} (h : i < bytes.length) :
    ofList bytes i = bytes[i] := by
  rw [ofList, List.getD_eq_getElem?_getD, List.getElem?_eq_getElem h, Option.getD_some]

theorem ofList_of_ge {bytes : List UInt8} {i : Nat} (h : bytes.length ≤ i) :
    ofList bytes i = 0 := by
  rw [ofList, List.getD_eq_getElem?_getD, List.getElem?_eq_none h, Option.getD_none]

/-! ## Writing -/

theorem write_of_lt (mem : Mem) (bytes : List UInt8) {off i : Nat} (h : i < off) :
    mem.write off bytes i = mem i := by
  simp [write, Nat.not_le.mpr h]

theorem write_of_ge (mem : Mem) (bytes : List UInt8) {off i : Nat}
    (h : off + bytes.length ≤ i) : mem.write off bytes i = mem i := by
  simp [write, Nat.not_lt.mpr h]

theorem write_add (mem : Mem) (bytes : List UInt8) (off : Nat) {k : Nat}
    (h : k < bytes.length) : mem.write off bytes (off + k) = bytes[k] := by
  simp [write, h]

/-! ## Slices -/

@[simp] theorem slice_zero (mem : Mem) (off : Nat) : mem.slice off 0 = [] := rfl

theorem slice_succ (mem : Mem) (off len : Nat) :
    mem.slice off (len + 1) = mem off :: mem.slice (off + 1) len := rfl

@[simp] theorem length_slice (mem : Mem) (off len : Nat) :
    (mem.slice off len).length = len := by
  induction len generalizing off with
  | zero => rfl
  | succ len ih => simp [slice_succ, ih]

theorem getElem_slice (mem : Mem) (off len : Nat) {k : Nat} (h : k < (mem.slice off len).length) :
    (mem.slice off len)[k] = mem (off + k) := by
  induction len generalizing off k with
  | zero => simp at h
  | succ len ih =>
    cases k with
    | zero => rfl
    | succ k =>
      simp only [slice_succ, List.getElem_cons_succ]
      rw [ih]
      congr 1
      omega

/-- Memory that agrees has the same slices. -/
theorem AgreeBelow.slice_eq {n : Nat} {mem mem' : Mem} (h : AgreeBelow n mem mem') {off len : Nat}
    (hlen : off + len ≤ n) : mem.slice off len = mem'.slice off len := by
  apply List.ext_getElem (by simp)
  intro k hk hk'
  rw [length_slice] at hk
  rw [getElem_slice, getElem_slice, h (off + k) (by omega)]

/-- The list behind its first byte. -/
theorem slice_ofList_cons (b : UInt8) (bytes : List UInt8) (len : Nat) :
    (ofList (b :: bytes)).slice 0 (len + 1) = b :: (ofList bytes).slice 0 len := by
  rw [slice_succ]
  congr 1
  apply List.ext_getElem (by simp)
  intro k hk hk'
  rw [getElem_slice, getElem_slice, Nat.zero_add, Nat.zero_add, Nat.add_comm]
  rfl

theorem slice_add (mem : Mem) (off a b : Nat) :
    mem.slice off (a + b) = mem.slice off a ++ mem.slice (off + a) b := by
  induction a generalizing off with
  | zero => simp
  | succ a ih =>
    rw [show a + 1 + b = (a + b) + 1 by omega, slice_succ, slice_succ, ih, List.cons_append,
      show off + 1 + a = off + (a + 1) by omega]

/-- A written list is read back from where it was written. -/
theorem slice_write_self (mem : Mem) (off : Nat) (bytes : List UInt8) :
    (mem.write off bytes).slice off bytes.length = bytes := by
  apply List.ext_getElem (by simp)
  intro k hk hk'
  rw [getElem_slice, write_add mem bytes off hk']

/-- A range moved to the start of the buffer. -/
theorem write_slice_zero (mem : Mem) (off : Nat) {len k : Nat} (h : k < len) :
    mem.write 0 (mem.slice off len) k = mem (off + k) := by
  have hk : k < (mem.slice off len).length := by simpa using h
  have hwrite := write_add mem (mem.slice off len) 0 hk
  rwa [Nat.zero_add, getElem_slice] at hwrite

/-! ## Lists standing in memory -/

@[simp] theorem holdsAt_nil (mem : Mem) (off : Nat) : mem.HoldsAt off [] := rfl

theorem holdsAt_cons {mem : Mem} {off : Nat} {b : UInt8} {bytes : List UInt8} :
    mem.HoldsAt off (b :: bytes) ↔ mem off = b ∧ mem.HoldsAt (off + 1) bytes := by
  simp [HoldsAt, slice_succ]

theorem holdsAt_append {mem : Mem} {off : Nat} {xs ys : List UInt8} :
    mem.HoldsAt off (xs ++ ys) ↔ mem.HoldsAt off xs ∧ mem.HoldsAt (off + xs.length) ys := by
  unfold HoldsAt
  rw [List.length_append, slice_add]
  constructor
  · intro h
    exact List.append_inj h (by simp)
  · rintro ⟨hx, hy⟩
    rw [hx, hy]

theorem holdsAt_ofList (bytes rest : List UInt8) : (ofList (bytes ++ rest)).HoldsAt 0 bytes := by
  apply List.ext_getElem (length_slice _ 0 _)
  intro k hk hk'
  rw [getElem_slice, Nat.zero_add, ofList_of_lt (by rw [List.length_append]; omega),
    List.getElem_append_left hk']

theorem holdsAt_slice (mem : Mem) (off len : Nat) : mem.HoldsAt off (mem.slice off len) := by
  simp [HoldsAt]

end Mem

end SdkSnmpd.Lib
