import SdkSnmpd.Lib.Memory
import Mathlib.Data.List.Basic

/-!
# Filling a Buffer from its End

Programs that write an encoding backwards: each step reserves a slot in front of what is
there already and fills it, until the cursor would pass the start of the buffer.

## Contents

- `Content`: what a range of the buffer holds, where a slot may be filled only in part.
- `put`: reserve a slot and write into it.
- `Prepends`: from content to larger content, with success exactly when the larger content
  fits. The outcome never depends on what the buffer held before.
-/

namespace SdkSnmpd.Lib

/-! ## Content with gaps -/

/-- The content of a range of indices: bytes, and gaps that were not written. -/
abbrev Content := List (Option UInt8)

/-- A slot of `reserved` bytes, filled from its start. -/
def slot (reserved : Nat) (bytes : List UInt8) : Content :=
  bytes.map some ++ List.replicate (reserved - bytes.length) none

/-- The memory with content laid over it from index `off` on. The gaps show what was
    there before. -/
def Mem.patch (mem : Mem) (off : Nat) (content : Content) : Mem := fun i =>
  if off ≤ i then (content[i - off]?).join.getD (mem i) else mem i

theorem length_slot {reserved : Nat} {bytes : List UInt8} (h : bytes.length ≤ reserved) :
    (slot reserved bytes).length = reserved := by
  simp only [slot, List.length_append, List.length_map, List.length_replicate]
  omega

/-- A slot that is filled completely has no gaps. -/
theorem slot_self (bytes : List UInt8) : slot bytes.length bytes = bytes.map some := by
  simp [slot]

theorem getElem_slot_of_ge {reserved k : Nat} {bytes : List UInt8} (h : bytes.length ≤ k)
    (hk : k < (slot reserved bytes).length) : (slot reserved bytes)[k] = none := by
  have hgap : (slot reserved bytes)[k]? = some none := by
    simp only [slot, List.length_append, List.length_map, List.length_replicate] at hk
    rw [slot, List.getElem?_append_right (by simpa using h), List.length_map,
      List.getElem?_replicate, if_pos (by omega)]
  exact (List.getElem?_eq_some_iff.mp hgap).2

namespace Mem

theorem patch_nil (mem : Mem) (off : Nat) : mem.patch off [] = mem := by
  funext i
  simp [patch]

theorem patch_of_lt (mem : Mem) (c : Content) {off i : Nat} (h : i < off) :
    mem.patch off c i = mem i := by
  simp [patch, Nat.not_le.mpr h]

theorem patch_of_ge (mem : Mem) (content : Content) {off i : Nat}
    (h : off + content.length ≤ i) : mem.patch off content i = mem i := by
  have hnone : content[i - off]? = none := List.getElem?_eq_none (by omega)
  simp [patch, hnone]

theorem patch_add (mem : Mem) (content : Content) (off : Nat) {k : Nat} (h : k < content.length) :
    mem.patch off content (off + k) = content[k].getD (mem (off + k)) := by
  simp [patch, List.getElem?_eq_getElem h]

/-- The same content over memories that agree below `n`. -/
theorem patch_congr {n off : Nat} {c : Content} {mem mem' : Mem} (h : AgreeBelow n mem mem') :
    AgreeBelow n (mem.patch off c) (mem'.patch off c) := by
  intro i hi
  rw [patch, patch, h i hi]

/-- Filling a slot in front of the content. -/
theorem write_patch (mem : Mem) (c : Content) {off reserved : Nat} {bytes : List UInt8}
    (h : bytes.length ≤ reserved) :
    (mem.patch (off + reserved) c).write off bytes = mem.patch off (slot reserved bytes ++ c) := by
  have hslot := length_slot h
  funext i
  by_cases hbefore : i < off
  · -- in front of the slot
    rw [write_of_lt _ _ hbefore, patch_of_lt _ _ (by omega), patch_of_lt _ _ hbefore]
  obtain ⟨k, rfl⟩ := Nat.exists_eq_add_of_le (Nat.not_lt.mp hbefore)
  by_cases hbytes : k < bytes.length
  · -- in the part of the slot that is filled
    rw [write_add _ _ _ hbytes, patch_add _ _ _ (by rw [List.length_append]; omega)]
    simp [slot, List.getElem_append_left, hbytes]
  · rw [write_of_ge _ _ (by omega)]
    by_cases hgap : k < reserved
    · -- in its gap
      rw [patch_of_lt _ _ (by omega), patch_add _ _ _ (by rw [List.length_append]; omega)]
      rw [List.getElem_append_left (by omega), getElem_slot_of_ge (by omega) (by omega)]
      rfl
    · -- behind the slot
      obtain ⟨m, rfl⟩ := Nat.exists_eq_add_of_le (Nat.not_lt.mp hgap)
      rw [← Nat.add_assoc]
      by_cases hm : m < c.length
      · rw [patch_add _ _ _ hm, Nat.add_assoc,
          patch_add _ _ _ (by rw [List.length_append]; omega)]
        simp [List.getElem_append_right, hslot]
      · rw [patch_of_ge _ _ (by omega), patch_of_ge _ _ (by rw [List.length_append]; omega)]

end Mem

/-! ## Programs that fill backwards -/

/-- The buffer, and the cursor: everything from the cursor on is filled. -/
structure Frame where
  mem : Mem
  pos : Int

/-- Programs that fill a buffer from its end. A failure leaves what was written so far. -/
abbrev Fill (ε : Type) := EStateM ε Frame

/-- Reserve a slot in front of the cursor and write `bytes` at its start. -/
def put {ε : Type} (e : ε) (reserved : Int) (bytes : List UInt8) : Fill ε Unit := fun f =>
  if f.pos ≥ reserved then
    .ok () ⟨f.mem.write (f.pos - reserved).toNat bytes, f.pos - reserved⟩
  else
    .error e f

/-- The frame of a buffer of `top` bytes that held `mem` before its end was filled with
    content. -/
def frame (top : Nat) (mem : Mem) (c : Content) : Frame :=
  ⟨mem.patch (top - c.length) c, top - c.length⟩

theorem frame_mem_eq (top : Nat) (mem : Mem) (c : Content) :
    (frame top mem c).mem = mem.patch (top - c.length) c := rfl

theorem frame_pos (top : Nat) (mem : Mem) (c : Content) :
    (frame top mem c).pos = top - c.length := rfl

/-- The program turns the content `c` into `c'` where `c'` fits into the buffer, and fails
    otherwise, with content that is determined as well. -/
structure Prepends {ε : Type} (top : Nat) (p : Fill ε Unit) (c c' : Content) : Prop where
  fits : c'.length ≤ top → ∀ mem, p (frame top mem c) = .ok () (frame top mem c')
  overflows : top < c'.length →
    ∃ e cut, ∀ mem, p (frame top mem c) = .error e (frame top mem cut)

section

variable {ε : Type} {top : Nat} {c c₁ c₂ : Content}

theorem prepends_pure (h : c.length ≤ top) : Prepends top (pure () : Fill ε Unit) c c :=
  ⟨fun _ _ => rfl, fun hover => absurd h (Nat.not_le.mpr hover)⟩

/-- One slot. -/
theorem prepends_put (e : ε) {reserved : Nat} {bytes : List UInt8}
    (h : bytes.length ≤ reserved) :
    Prepends top (put e reserved bytes) c (slot reserved bytes ++ c) := by
  have hlen : (slot reserved bytes ++ c).length = reserved + c.length := by
    rw [List.length_append, length_slot h]
  refine ⟨fun hfit mem => ?_, fun hover => ⟨e, c, fun mem => ?_⟩⟩
  · rw [hlen] at hfit
    have hoff : top - c.length = top - (slot reserved bytes ++ c).length + reserved := by omega
    have hpos : ((frame top mem c).pos - reserved).toNat =
        top - (slot reserved bytes ++ c).length := by
      rw [frame_pos]
      omega
    unfold put
    rw [if_pos (by rw [frame_pos]; omega), hpos, frame_mem_eq, hoff, Mem.write_patch mem c h]
    simp only [frame, hlen, EStateM.Result.ok.injEq, Frame.mk.injEq, true_and]
    omega
  · rw [hlen] at hover
    unfold put
    rw [if_neg (by rw [frame_pos]; omega)]

/-- A slot that is filled completely. -/
theorem prepends_put_exact (e : ε) {reserved : Int} {bytes : List UInt8}
    (h : reserved = bytes.length) :
    Prepends top (put e reserved bytes) c (bytes.map some ++ c) := by
  rw [h, ← slot_self]
  exact prepends_put e (Nat.le_refl _)

/-- Sequencing. The second program matters only where the content of the first one fits. -/
theorem Prepends.bind {p q : Fill ε Unit} (hp : Prepends top p c c₁)
    (hq : c₁.length ≤ top → Prepends top q c₁ c₂) (hle : c₁.length ≤ c₂.length) :
    Prepends top (p >>= fun _ => q) c c₂ := by
  have hrun : ∀ mem, (p >>= fun _ => q) (frame top mem c) =
      match p (frame top mem c) with
      | .ok _ f => q f
      | .error e f => .error e f := by
    intro mem
    change EStateM.bind p (fun _ => q) (frame top mem c) = _
    unfold EStateM.bind
    cases p (frame top mem c) <;> rfl
  refine ⟨fun hfit mem => ?_, fun hover => ?_⟩
  · rw [hrun, hp.fits (by omega) mem]
    exact (hq (by omega)).fits hfit mem
  · by_cases hmid : c₁.length ≤ top
    · -- the first program succeeds, the second one overflows
      obtain ⟨e, cut, hfail⟩ := (hq hmid).overflows hover
      refine ⟨e, cut, fun mem => ?_⟩
      rw [hrun, hp.fits hmid mem]
      exact hfail mem
    · obtain ⟨e, cut, hfail⟩ := hp.overflows (by omega)
      refine ⟨e, cut, fun mem => ?_⟩
      rw [hrun, hfail mem]

/-- A program that looks at the cursor sees how much is filled. -/
theorem Prepends.get {p : Int → Fill ε Unit} (h : Prepends top (p (top - c.length)) c c₁) :
    Prepends top (do let f ← get; p f.pos) c c₁ :=
  ⟨h.fits, h.overflows⟩

end

/-! ## Reading what was filled -/

theorem frame_nil (top : Nat) (mem : Mem) : frame top mem [] = ⟨mem, top⟩ := by
  simp [frame, Mem.patch_nil]

/-- A byte of the content, as it stands in the buffer. -/
theorem frame_mem {top : Nat} {mem : Mem} {content : Content} {k : Nat}
    (h : k < content.length) :
    (frame top mem content).mem (top - content.length + k) =
      content[k].getD (mem (top - content.length + k)) :=
  Mem.patch_add mem content _ h

end SdkSnmpd.Lib
