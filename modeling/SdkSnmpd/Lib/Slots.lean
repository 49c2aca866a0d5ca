import SdkSnmpd.Lib.Backfill
import SdkSnmpd.Lib.Maintains

/-!
# The Writes of a Backward Filler

A program that fills a buffer from its end, as the list of the slots that it puts. From the list
follow the writes that the program performs, wherever it stops.

## Contents

- `Slot`, `fill`: a slot to be put, and a program that puts slots one after another.
- `Fills`: a program is the one that puts the given slots (`fills_put`, `Fills.bind`, `Fills.get`).
- `writes`: the writes performed; `fill_mem`: they make up the memory that is left.
- `writes_inside`, `writes_disjoint`: where every slot is large enough, each write is inside the
  buffer and in front of those before it.
-/

namespace SdkSnmpd.Lib

variable {ε : Type}

/-! ## Slots -/

/-- A slot: what to fail with if there is no room, its length, and what is written into it. -/
structure Slot (ε : Type) where
  error : ε
  reserved : Int
  bytes : List UInt8

/-- What is written is no longer than what is reserved for it. -/
def Slot.Fits (s : Slot ε) : Prop := s.bytes.length ≤ s.reserved

/-- Put the slots, each in front of the one before. -/
def fill : List (Slot ε) → Fill ε Unit
  | [] => pure ()
  | s :: slots => do
      put s.error s.reserved s.bytes
      fill slots

/-- The length that is reserved for all the slots. -/
def reserved : List (Slot ε) → Int
  | [] => 0
  | s :: slots => s.reserved + reserved slots

@[simp] theorem reserved_append (slots slots' : List (Slot ε)) :
    reserved (slots ++ slots') = reserved slots + reserved slots' := by
  induction slots with
  | nil => rw [List.nil_append, reserved, Int.zero_add]
  | cons s slots ih => rw [List.cons_append, reserved, reserved, ih, Int.add_assoc]

/-! ## Programs as slots -/

/-- From a cursor in front of the slots `before`, in a buffer of `top` bytes, the program puts
    the given slots. -/
def Fills (top : Int) (before : List (Slot ε)) (p : Fill ε Unit) (slots : List (Slot ε)) : Prop :=
  ∀ f : Frame, f.pos = top - reserved before → p f = fill slots f

theorem run_fill_cons (s : Slot ε) (slots : List (Slot ε)) (f : Frame) :
    fill (s :: slots) f =
      if f.pos ≥ s.reserved then
        fill slots ⟨f.mem.write (f.pos - s.reserved).toNat s.bytes, f.pos - s.reserved⟩
      else .error s.error f := by
  change EStateM.bind (put s.error s.reserved s.bytes) (fun _ => fill slots) f = _
  unfold EStateM.bind put
  by_cases hroom : f.pos ≥ s.reserved
  · simp only [if_pos hroom]
  · simp only [if_neg hroom]

/-- More slots after the first ones, unless these did not fit. -/
theorem run_fill_append (slots slots' : List (Slot ε)) (f : Frame) :
    fill (slots ++ slots') f =
      match fill slots f with
      | .ok _ f' => fill slots' f'
      | .error e f' => .error e f' := by
  induction slots generalizing f with
  | nil => rfl
  | cons s slots ih =>
    rw [List.cons_append, run_fill_cons, run_fill_cons]
    split
    · exact ih _
    · rfl

/-- Where all slots have found room, the cursor has passed the length reserved for them. -/
theorem fill_pos {slots : List (Slot ε)} {f f' : Frame} (h : fill slots f = .ok () f') :
    f'.pos = f.pos - reserved slots := by
  induction slots generalizing f with
  | nil =>
    cases h
    exact (Int.sub_zero _).symm
  | cons s slots ih =>
    rw [run_fill_cons] at h
    split at h
    · rw [ih h, reserved, Int.sub_sub]
    · cases h

section

variable {top : Int} {before slots slots' : List (Slot ε)} {p q : Fill ε Unit}

theorem fills_pure : Fills top before (pure ()) ([] : List (Slot ε)) := fun _ _ => rfl

theorem fills_put (e : ε) (reserved : Int) (bytes : List UInt8) :
    Fills top before (put e reserved bytes) [⟨e, reserved, bytes⟩] := by
  intro f _
  rw [run_fill_cons]
  rfl

/-- The second program starts in front of the slots of the first one. -/
theorem Fills.bind (hp : Fills top before p slots) (hq : Fills top (before ++ slots) q slots') :
    Fills top before (p >>= fun _ => q) (slots ++ slots') := by
  intro f hpos
  have hrun : (p >>= fun _ => q) f =
      match p f with
      | .ok _ f' => q f'
      | .error e f' => .error e f' := by
    change EStateM.bind p (fun _ => q) f = _
    unfold EStateM.bind
    cases p f <;> rfl
  rw [hrun, run_fill_append, hp f hpos]
  cases hslots : fill slots f with
  | error e f' => rfl
  | ok a f' =>
    have hpos' := fill_pos hslots
    exact hq f' (by rw [hpos', hpos, reserved_append]; omega)

/-- A program that looks at the cursor sees the length of the slots before it. -/
theorem Fills.get {p : Int → Fill ε Unit} (h : Fills top before (p (top - reserved before)) slots) :
    Fills top before (do let f ← get; p f.pos) slots := by
  intro f hpos
  have hrun := h f hpos
  rw [← hpos] at hrun
  exact hrun

end

/-! ## Writes -/

/-- Bytes written from an index on. -/
structure Write where
  start : Int
  bytes : List UInt8

/-- The writes from a cursor on, up to the first slot that finds no room. -/
def writes : (pos : Int) → List (Slot ε) → List Write
  | _, [] => []
  | pos, s :: slots =>
      if pos ≥ s.reserved then ⟨pos - s.reserved, s.bytes⟩ :: writes (pos - s.reserved) slots
      else []

/-- The memory after writes, one after another. -/
def Mem.writeAll (mem : Mem) (ws : List Write) : Mem :=
  ws.foldl (fun mem w => mem.write w.start.toNat w.bytes) mem

/-- The writes are what the program does to the memory. -/
theorem fill_mem (slots : List (Slot ε)) (f : Frame) :
    (finalState (fill slots f)).mem = f.mem.writeAll (writes f.pos slots) := by
  induction slots generalizing f with
  | nil => rfl
  | cons s slots ih =>
    rw [run_fill_cons, writes]
    split
    · exact ih _
    · rfl

/-- Every write is between the start of the buffer and the cursor. -/
theorem writes_inside {slots : List (Slot ε)} (h : ∀ s ∈ slots, s.Fits) (pos : Int) :
    ∀ w ∈ writes pos slots, 0 ≤ w.start ∧ w.start + w.bytes.length ≤ pos := by
  induction slots generalizing pos with
  | nil => exact fun _ hw => absurd hw List.not_mem_nil
  | cons s slots ih =>
    obtain ⟨hs, hslots⟩ := List.forall_mem_cons.mp h
    unfold Slot.Fits at hs
    rw [writes]
    split
    · rename_i hroom
      rw [List.forall_mem_cons]
      refine ⟨⟨Int.sub_nonneg.mpr hroom, ?_⟩, fun w hw => ?_⟩
      · change pos - s.reserved + s.bytes.length ≤ pos
        omega
      · obtain ⟨hstart, hend⟩ := ih hslots _ w hw
        exact ⟨hstart, by omega⟩
    · exact fun _ hw => absurd hw List.not_mem_nil

/-- Every write ends in front of all the writes before it. -/
theorem writes_disjoint {slots : List (Slot ε)} (h : ∀ s ∈ slots, s.Fits) (pos : Int) :
    (writes pos slots).Pairwise fun w w' : Write => w'.start + w'.bytes.length ≤ w.start := by
  induction slots generalizing pos with
  | nil => exact .nil
  | cons s slots ih =>
    obtain ⟨-, hslots⟩ := List.forall_mem_cons.mp h
    rw [writes]
    split
    · exact .cons (fun w hw => (writes_inside hslots _ w hw).2) (ih hslots _)
    · exact .nil

/-- Memory that no write reaches is left as it was. -/
theorem writeAll_of_ge {ws : List Write} {i : Nat} (mem : Mem)
    (h : ∀ w ∈ ws, 0 ≤ w.start ∧ w.start + w.bytes.length ≤ i) : mem.writeAll ws i = mem i := by
  induction ws generalizing mem with
  | nil => rfl
  | cons w ws ih =>
    obtain ⟨⟨hstart, hend⟩, hws⟩ := List.forall_mem_cons.mp h
    rw [Mem.writeAll, List.foldl_cons]
    exact (ih _ hws).trans (Mem.write_of_ge _ _ (by omega))

end SdkSnmpd.Lib
