import SdkSnmpd.Lib.Memory

/-!
# Programs that Read a Byte Memory

A `Scan` is a program that inspects a byte memory one index at a time and ends with a value
or an error. Because every dereference is a node of the program, the indices it touches are
observable, also on the paths that fail.

## Contents

- `Scan.eval`: the outcome on a given memory.
- `Scan.reads`: the indices dereferenced on the way, in order.
- `Scan.Within`: the weakest precondition of "every index read is below `n`, and a value
  returned satisfies `Q`", with its rules for sequencing.
- `Scan.eval_congr`: the outcome depends on nothing but the indices read.
-/

namespace SdkSnmpd.Lib

/-! ## Outcomes that were computed -/

theorem ok_of_toOption {ε α : Type} {x : Except ε α} {a : α} (h : x.toOption = some a) :
    x = .ok a := by
  cases x with
  | error e => cases h
  | ok b => exact congrArg Except.ok (Option.some.inj h)

theorem exists_ok_of_toOption {ε α β : Type} {x : Except ε α} {f : α → β} {b : β}
    (h : x.toOption.map f = some b) : ∃ a, x = .ok a ∧ f a = b := by
  obtain ⟨a, ha, hb⟩ := Option.map_eq_some_iff.mp h
  exact ⟨a, ok_of_toOption ha, hb⟩

/-! ## Programs -/

/-- A program that reads single bytes and ends with a value or an error. -/
inductive Scan (ε α : Type) where
  /-- The program ends with a value. -/
  | done (a : α)
  /-- The program ends with an error. -/
  | fail (e : ε)
  /-- The byte at index `i` is read and the program goes on with it. -/
  | read (i : Nat) (next : UInt8 → Scan ε α)

namespace Scan

variable {ε α β : Type}

/-- Sequencing: the second program continues where the first one ends with a value. -/
def bind : Scan ε α → (α → Scan ε β) → Scan ε β
  | done a, f => f a
  | fail e, _ => fail e
  | read i next, f => read i fun b => (next b).bind f

instance : Monad (Scan ε) where
  pure := done
  bind := bind

/-- Read the byte at index `i`. -/
def byte (i : Nat) : Scan ε UInt8 := read i done

/-- Read `len` bytes from index `i` on. -/
def bytes : (i len : Nat) → Scan ε (List UInt8)
  | _, 0 => pure []
  | i, len + 1 => do
      let b ← byte i
      let bs ← bytes (i + 1) len
      pure (b :: bs)

/-- The outcome on the memory `mem`. -/
def eval (mem : Mem) : Scan ε α → Except ε α
  | done a => .ok a
  | fail e => .error e
  | read i next => (next (mem i)).eval mem

/-- The indices dereferenced on the memory `mem`, in order. -/
def reads (mem : Mem) : Scan ε α → List Nat
  | done _ => []
  | fail _ => []
  | read i next => i :: (next (mem i)).reads mem

/-- Every index read is below `n`, and a value returned satisfies `Q`. -/
def Within (mem : Mem) (n : Nat) : Scan ε α → (α → Prop) → Prop
  | done a, Q => Q a
  | fail _, _ => True
  | read i next, Q => i < n ∧ (next (mem i)).Within mem n Q

/-! ## Outcome of the program constructors -/

variable (mem : Mem)

@[simp] theorem eval_pure (a : α) : (pure a : Scan ε α).eval mem = .ok a := rfl

@[simp] theorem eval_fail (e : ε) : (fail e : Scan ε α).eval mem = .error e := rfl

@[simp] theorem eval_byte (i : Nat) : (byte i : Scan ε UInt8).eval mem = .ok (mem i) := rfl

theorem eval_bind (p : Scan ε α) (f : α → Scan ε β) :
    (p >>= f).eval mem = (p.eval mem).bind fun a => (f a).eval mem := by
  induction p with
  | done a => rfl
  | fail e => rfl
  | read i next ih => exact ih (mem i)

/-- Sequencing after a first program whose value is known. -/
theorem eval_bind_of_ok {p : Scan ε α} {a : α} (h : p.eval mem = .ok a) (f : α → Scan ε β) :
    (p >>= f).eval mem = (f a).eval mem := by
  rw [eval_bind, h]
  rfl

theorem eval_bytes (i len : Nat) :
    (bytes i len : Scan ε (List UInt8)).eval mem = .ok (mem.slice i len) := by
  induction len generalizing i with
  | zero => rfl
  | succ len ih =>
    rw [bytes, eval_bind_of_ok mem (eval_byte mem i), eval_bind_of_ok mem (ih (i + 1))]
    rfl

/-- A sequence returns a value exactly when both of its programs do. -/
theorem eval_bind_eq_ok {p : Scan ε α} {f : α → Scan ε β} {b : β} :
    (p >>= f).eval mem = .ok b ↔ ∃ a, p.eval mem = .ok a ∧ (f a).eval mem = .ok b := by
  rw [eval_bind]
  cases hp : p.eval mem with
  | error e => simp [Except.bind]
  | ok a => simp [Except.bind]

/-! ## Reads and the precondition calculus -/

@[simp] theorem within_pure {n : Nat} (a : α) (Q : α → Prop) :
    (pure a : Scan ε α).Within mem n Q ↔ Q a := Iff.rfl

@[simp] theorem within_fail {n : Nat} (e : ε) (Q : α → Prop) :
    (fail e : Scan ε α).Within mem n Q := trivial

@[simp] theorem within_byte {n i : Nat} (Q : UInt8 → Prop) :
    (byte i : Scan ε UInt8).Within mem n Q ↔ i < n ∧ Q (mem i) := Iff.rfl

@[simp] theorem within_bind {n : Nat} (p : Scan ε α) (f : α → Scan ε β) (Q : β → Prop) :
    (p >>= f).Within mem n Q ↔ p.Within mem n fun a => (f a).Within mem n Q := by
  induction p with
  | done a => exact Iff.rfl
  | fail e => exact Iff.rfl
  | read i next ih => exact and_congr_right fun _ => ih (mem i)

/-- `Within` says exactly what its name says about reads and outcome. -/
theorem within_iff {n : Nat} (p : Scan ε α) (Q : α → Prop) :
    p.Within mem n Q ↔ (∀ i ∈ p.reads mem, i < n) ∧ ∀ a, p.eval mem = .ok a → Q a := by
  induction p with
  | done a => simp [Within, reads, eval]
  | fail e => simp [Within, reads, eval]
  | read i next ih =>
    simp only [Within, reads, eval, List.forall_mem_cons, and_assoc]
    exact and_congr_right fun _ => ih (mem i)

theorem within_mono {n : Nat} {p : Scan ε α} {Q R : α → Prop} (h : p.Within mem n Q)
    (hQR : ∀ a, Q a → R a) : p.Within mem n R := by
  rw [within_iff] at h ⊢
  exact ⟨h.1, fun a ha => hQR a (h.2 a ha)⟩

/-- On equivalent postconditions the precondition is the same. -/
theorem within_congr {n : Nat} {p : Scan ε α} {Q R : α → Prop} (hQR : ∀ a, Q a ↔ R a) :
    p.Within mem n Q ↔ p.Within mem n R :=
  ⟨fun h => within_mono mem h fun a => (hQR a).mp, fun h => within_mono mem h fun a => (hQR a).mpr⟩

/-- A precondition rule that holds for every postcondition determines the outcome. -/
theorem eval_eq_ok_iff {n : Nat} {p : Scan ε α} {R : α → Prop}
    (h : ∀ Q : α → Prop, p.Within mem n Q ↔ ∀ b, R b → Q b) (a : α) :
    p.eval mem = .ok a ↔ R a := by
  constructor
  · intro ha
    have hR := (within_iff mem p R).mp ((h R).mpr fun b hb => hb)
    exact hR.2 a ha
  · intro hRa
    by_contra hne
    have hreads := (within_iff mem p _).mp ((h fun _ => True).mpr fun _ _ => trivial)
    have havoid : p.Within mem n fun b => b ≠ a :=
      (within_iff mem p _).mpr ⟨hreads.1, fun b hb hba => hne (hba ▸ hb)⟩
    exact (h _).mp havoid a hRa rfl

variable {mem}

/-- The outcome depends on nothing but the bytes read. -/
theorem eval_congr {mem' : Mem} {p : Scan ε α}
    (h : ∀ i ∈ p.reads mem, mem i = mem' i) : p.eval mem' = p.eval mem := by
  induction p with
  | done a => rfl
  | fail e => rfl
  | read i next ih =>
    have hi : mem i = mem' i := h i List.mem_cons_self
    simp only [eval, ← hi]
    exact ih (mem i) fun j hj => h j (List.mem_cons_of_mem _ hj)

/-- A program that stays below `n` cannot tell apart buffers that agree below `n`. -/
theorem eval_eq_of_within {mem' : Mem} {n : Nat} {p : Scan ε α} {Q : α → Prop}
    (h : p.Within mem n Q) (hag : Mem.AgreeBelow n mem mem') : p.eval mem' = p.eval mem :=
  eval_congr fun i hi => hag i (((within_iff mem p Q).mp h).1 i hi)

-- from here on the rules above stand for the definition
attribute [irreducible] Within

end Scan

end SdkSnmpd.Lib
