/-!
# Invariants of State Programs

A program with a state and errors maintains a property of states if a run that starts with the
property ends with it, be the end a value or an error.

## Contents

- `finalState`, `Maintains`: the notion.
- Rules for the constructors of programs.
- `maintains_foldl`: runs one after another, each from where the one before has ended.
-/

namespace SdkSnmpd.Lib

variable {ε σ α β : Type}

/-- The state in which a run ends. -/
def finalState : EStateM.Result ε σ α → σ
  | .ok _ s => s
  | .error _ s => s

@[simp] theorem finalState_ok (a : α) (s : σ) :
    finalState (.ok a s : EStateM.Result ε σ α) = s := rfl

@[simp] theorem finalState_error (e : ε) (s : σ) :
    finalState (.error e s : EStateM.Result ε σ α) = s := rfl

/-- The value and the state of a run that ends without an error, as a test can compare them. -/
def okState : EStateM.Result ε σ α → Option (α × σ)
  | .ok a s => some (a, s)
  | .error _ _ => none

theorem eq_ok_of_okState {r : EStateM.Result ε σ α} {a : α} {s : σ} (h : okState r = some (a, s)) :
    r = .ok a s := by
  cases r with
  | ok a' s' =>
    cases h
    rfl
  | error e s' => cases h

/-- A run that starts with `P` ends with `P`. -/
def Maintains (P : σ → Prop) (m : EStateM ε σ α) : Prop := ∀ s, P s → P (finalState (m.run s))

section

variable {P : σ → Prop} {m : EStateM ε σ α}

theorem maintains_throw (e : ε) : Maintains P (throw e : EStateM ε σ α) := fun _ h => h

theorem maintains_set {s : σ} (h : P s) : Maintains P (set s : EStateM ε σ PUnit) := fun _ _ => h

theorem maintains_modify {f : σ → σ} (h : ∀ s, P s → P (f s)) :
    Maintains P (modify f : EStateM ε σ PUnit) := h

theorem maintains_bind {f : α → EStateM ε σ β} (hm : Maintains P m)
    (hf : ∀ a, Maintains P (f a)) : Maintains P (m >>= f) := by
  intro s hs
  have hmid := hm s hs
  rw [EStateM.run_bind]
  cases hrun : m.run s with
  | ok a s' =>
    rw [hrun] at hmid
    exact hf a s' hmid
  | error e s' =>
    rw [hrun] at hmid
    exact hmid

theorem maintains_ite {c : Prop} [Decidable c] {m' : EStateM ε σ α} (hm : c → Maintains P m)
    (hm' : ¬ c → Maintains P m') : Maintains P (if c then m else m') := by
  split
  · rename_i hc
    exact hm hc
  · rename_i hc
    exact hm' hc

/-- The handler goes on in the state in which the program has failed. -/
theorem maintains_tryCatch {handle : ε → EStateM ε σ α} (hm : Maintains P m)
    (hhandle : ∀ e, Maintains P (handle e)) : Maintains P (tryCatch m handle) := by
  intro s hs
  have hmid : P (finalState (m s)) := hm s hs
  change P (finalState (EStateM.tryCatch m handle s))
  unfold EStateM.tryCatch
  cases hrun : m s with
  | ok a s' =>
    rw [hrun] at hmid
    exact hmid
  | error e s' =>
    rw [hrun] at hmid
    exact hhandle e s' hmid

/-- Runs one after another, whether or not they succeed. -/
theorem maintains_foldl {ι : Type} {step : ι → EStateM ε σ α} (h : ∀ i, Maintains P (step i))
    (is : List ι) {s : σ} (hs : P s) :
    P (is.foldl (fun s i => finalState ((step i).run s)) s) := by
  induction is generalizing s with
  | nil => exact hs
  | cons i is ih => exact ih (h i s hs)

end

end SdkSnmpd.Lib
