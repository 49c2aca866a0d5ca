import Mathlib.Data.List.Induction
import Mathlib.Logic.Relation
import Mathlib.Logic.Function.Iterate

/-!
# Runs of Step Functions

Whole runs of programs, for three shapes of program.

## Contents

- `Stages`: a program that works through stages of its own and stops. The absence of a bad
  stage on the way is established stage by stage (`Stages.clean_iff`).
- `Outcome`, `run`: a program that takes one input after another, and may end or leave the
  defined behaviour on the way. `throughout_iff_everyStep` reduces a statement about every moment of
  a run to a statement about single steps, `run_keeps_past` follows a statement about the inputs so
  far, and `run_effects` collects what the steps do.
- `exists_halted`: a program whose steps lower a measure reaches a halted state.
- `shown`, `foldl_shown`: a program some of whose steps are hidden.
-/

namespace SdkSnmpd.Lib

/-! ## Programs that advance through stages -/

namespace Stages

variable {σ : Type} {Next : σ → σ → Prop} {Bad : σ → Prop}

/-- No stage that can be reached is a bad one. -/
def Clean (Next : σ → σ → Prop) (Bad : σ → Prop) (s : σ) : Prop :=
  ∀ t, Relation.ReflTransGen Next s t → ¬ Bad t

/-- Cleanliness stage by stage: the stage itself is not bad, and whatever it moves on to is
    clean. -/
theorem clean_iff {s : σ} :
    Clean Next Bad s ↔ ¬ Bad s ∧ ∀ t, Next s t → Clean Next Bad t := by
  constructor
  · intro h
    exact ⟨h s .refl, fun t hst u htu => h u (.head hst htu)⟩
  · rintro ⟨hbad, hnext⟩ u hsu
    rcases Relation.ReflTransGen.cases_head hsu with rfl | ⟨t, hst, htu⟩
    · exact hbad
    · exact hnext t hst u htu

end Stages

/-! ## Programs that halt -/

/-- Let every step from a state that has not halted keep an invariant and lower a measure. Then
    iteration halts within the measure of the start. -/
theorem exists_halted {σ : Type} (step : σ → σ) (Inv Halted : σ → Prop) (measure : σ → Nat)
    (hstep : ∀ s, Inv s → ¬ Halted s → Inv (step s) ∧ measure (step s) < measure s) {s : σ}
    (h : Inv s) : ∃ n ≤ measure s, Inv (step^[n] s) ∧ Halted (step^[n] s) := by
  induction hm : measure s using Nat.strongRecOn generalizing s with
  | ind m ih =>
    by_cases hhalted : Halted s
    · exact ⟨0, Nat.zero_le _, h, hhalted⟩
    · -- one step, and then within a smaller measure
      obtain ⟨hinv, hless⟩ := hstep s h hhalted
      obtain ⟨n, hn, hend⟩ := ih (measure (step s)) (hm ▸ hless) hinv rfl
      exact ⟨n + 1, by omega, hend⟩

/-! ## Programs that hide steps -/

section

variable {σ τ ι κ : Type}

/-- What a run shows, step by step. -/
def shown (step : σ → ι → σ) (shows : σ → ι → Option κ) : σ → List ι → List κ
  | _, [] => []
  | s, i :: is => (shows s i).toList ++ shown step shows (step s i) is

/-- Let a step that shows something be the step of another program on it, and let every other step
    leave the state of that program. Then a run is a run of that program over what is shown. -/
theorem foldl_shown {step : σ → ι → σ} {shows : σ → ι → Option κ} {f : σ → τ}
    {abstractStep : τ → κ → τ}
    (hstep : ∀ s i, f (step s i) = (shows s i).elim (f s) (abstractStep (f s)))
    (s : σ) (inputs : List ι) :
    f (inputs.foldl step s) = (shown step shows s inputs).foldl abstractStep (f s) := by
  induction inputs generalizing s with
  | nil => rfl
  | cons i is ih =>
    rw [List.foldl_cons, ih, hstep, shown, List.foldl_append]
    cases shows s i <;> rfl

end

/-! ## Programs that take inputs -/

/-- What one step of a program ends in. -/
inductive Outcome (σ : Type) where
  /-- The program goes on in a state. -/
  | next (s : σ)
  /-- The program ends itself. -/
  | exit
  /-- The program has left the behaviour that its language defines. -/
  | undefined

namespace Outcome

variable {σ τ : Type}

/-- Go on with `f` where the program goes on. -/
def bind : Outcome σ → (σ → Outcome τ) → Outcome τ
  | next s, f => f s
  | exit, _ => exit
  | undefined, _ => undefined

/-- A sequence goes on exactly when both of its parts do. -/
theorem bind_eq_next {x : Outcome σ} {f : σ → Outcome τ} {t : τ} :
    x.bind f = next t ↔ ∃ s, x = next s ∧ f s = next t := by
  cases x with
  | next s => simp [bind]
  | exit | undefined => simp [bind]

/-- The program is in a state of `P`, or has ended itself. -/
def Holds (P : σ → Prop) : Outcome σ → Prop
  | next s => P s
  | exit => True
  | undefined => False

instance {P : σ → Prop} [DecidablePred P] : DecidablePred (Holds P)
  | next s => inferInstanceAs (Decidable (P s))
  | exit => inferInstanceAs (Decidable True)
  | undefined => inferInstanceAs (Decidable False)

/-- The program goes on in a state that passes a test. -/
def reaches (p : σ → Bool) : Outcome σ → Bool
  | next s => p s
  | _ => false

theorem reaches_eq_true {p : σ → Bool} {x : Outcome σ} :
    x.reaches p = true ↔ ∃ s, x = next s ∧ p s = true := by
  cases x with
  | next s => simp [reaches]
  | exit | undefined => simp [reaches]

end Outcome

variable {σ ι : Type}

/-- Feed the inputs one after another. -/
def run (step : σ → ι → Outcome σ) : σ → List ι → Outcome σ
  | s, [] => .next s
  | s, i :: is => (step s i).bind fun s' => run step s' is

/-- `P` holds at every moment of the run over `inputs`, the start and the end included. -/
def Throughout (step : σ → ι → Outcome σ) (P : σ → Prop) (s : σ) (inputs : List ι) : Prop :=
  ∀ k ≤ inputs.length, (run step s (inputs.take k)).Holds P

/-- `ok` holds of every step that the run over `inputs` takes. -/
def EveryStep (step : σ → ι → Outcome σ) (ok : σ → ι → Prop) (s : σ) (inputs : List ι) : Prop :=
  ∀ k (h : k < inputs.length) (s' : σ), run step s (inputs.take k) = .next s' → ok s' inputs[k]

section

variable {step : σ → ι → Outcome σ}

theorem throughout_nil {P : σ → Prop} {s : σ} : Throughout step P s [] ↔ P s := by
  simp [Throughout, run, Outcome.Holds]

/-- `P` throughout a run: at the start, and throughout what follows the first step. -/
theorem throughout_cons {P : σ → Prop} {s : σ} {i : ι} {is : List ι} :
    Throughout step P s (i :: is) ↔
      P s ∧ (step s i).Holds fun s' => Throughout step P s' is := by
  constructor
  · intro h
    refine ⟨h 0 (Nat.zero_le _), ?_⟩
    cases hstep : step s i with
    | next s' =>
      intro k hk
      simpa [run, hstep, Outcome.bind] using h (k + 1) (by simpa using hk)
    | exit => trivial
    | undefined =>
      simpa [run, hstep, Outcome.bind, Outcome.Holds] using h 1 (by simp)
  · rintro ⟨hs, hrest⟩ k hk
    cases k with
    | zero => exact hs
    | succ k =>
      cases hstep : step s i with
      | next s' =>
        rw [hstep] at hrest
        simpa [run, hstep, Outcome.bind] using hrest k (by simpa using hk)
      | exit => simp [run, hstep, Outcome.bind, Outcome.Holds]
      | undefined => rw [hstep] at hrest; exact hrest.elim

theorem everyStep_nil {ok : σ → ι → Prop} {s : σ} : EveryStep step ok s [] :=
  fun _ h => absurd h (Nat.not_lt_zero _)

theorem everyStep_cons {ok : σ → ι → Prop} {s : σ} {i : ι} {is : List ι} :
    EveryStep step ok s (i :: is) ↔
      ok s i ∧ ∀ s', step s i = .next s' → EveryStep step ok s' is := by
  constructor
  · intro h
    refine ⟨h 0 (Nat.zero_lt_succ _) s rfl, fun s' hs' k hk t ht => ?_⟩
    exact h (k + 1) (Nat.succ_lt_succ hk) t (by simpa [run, hs', Outcome.bind] using ht)
  · rintro ⟨hok, hrest⟩ k hk t ht
    cases k with
    | zero =>
      obtain rfl : s = t := by simpa [run] using ht
      exact hok
    | succ k =>
      cases hstep : step s i with
      | next s' =>
        exact hrest s' hstep k (Nat.lt_of_succ_lt_succ hk) t
          (by simpa [run, hstep, Outcome.bind] using ht)
      | exit => simp [run, hstep, Outcome.bind] at ht
      | undefined => simp [run, hstep, Outcome.bind] at ht

/-- What every step keeps, a run keeps. Only the inputs with `ok` are considered. -/
theorem run_keeps {P : σ → Prop} {ok : ι → Prop}
    (hstep : ∀ s i s', ok i → P s → step s i = .next s' → P s') {s s' : σ} {inputs : List ι}
    (hinputs : ∀ i ∈ inputs, ok i) (hs : P s) (hrun : run step s inputs = .next s') : P s' := by
  induction inputs generalizing s with
  | nil =>
    cases hrun
    exact hs
  | cons i is ih =>
    obtain ⟨hi, his⟩ := List.forall_mem_cons.mp hinputs
    cases hsi : step s i with
    | next t =>
      rw [run, hsi] at hrun
      exact ih his (hstep s i t hi hs hsi) hrun
    | exit =>
      rw [run, hsi] at hrun
      cases hrun
    | undefined =>
      rw [run, hsi] at hrun
      cases hrun

/-- A run in two parts. -/
theorem run_append (s : σ) (is js : List ι) :
    run step s (is ++ js) = (run step s is).bind fun t => run step t js := by
  induction is generalizing s with
  | nil => rfl
  | cons i is ih =>
    rw [List.cons_append, run, run]
    cases step s i with
    | next t => exact ih t
    | exit | undefined => rfl

/-- A run and one more step. -/
theorem run_concat {s t t' : σ} {is : List ι} {i : ι} (hrun : run step s is = .next t)
    (hstep : step t i = .next t') : run step s (is ++ [i]) = .next t' := by
  rw [run_append, hrun, Outcome.bind, run, hstep]
  rfl

/-- What is said of a run and the state it ends in: it holds before the first step, and each step
    carries it on. The induction takes the last input off. -/
theorem run_keeps_past {P : List ι → σ → Prop} {s : σ} (hs : P [] s)
    (hstep : ∀ past t i t', run step s past = .next t → P past t → step t i = .next t' →
      P (past ++ [i]) t')
    {inputs : List ι} {s' : σ} (hrun : run step s inputs = .next s') : P inputs s' := by
  induction inputs using List.reverseRecOn generalizing s' with
  | nil =>
    cases hrun
    exact hs
  | append_singleton past i ih =>
    rw [run_append] at hrun
    obtain ⟨t, hpast, hlast⟩ := Outcome.bind_eq_next.mp hrun
    obtain ⟨_, hi, hend⟩ := Outcome.bind_eq_next.mp hlast
    cases hend
    exact hstep past t i s' hpast (ih hpast) hi

/-- What the steps of a run do, one after the other. -/
def effects {κ : Type} (step : σ → ι → Outcome σ) (effect : σ → ι → List κ) : σ → List ι → List κ
  | _, [] => []
  | s, i :: is =>
      effect s i ++
        match step s i with
        | .next s' => effects step effect s' is
        | .exit | .undefined => []

/-- Let every step change a part of the state by what it does. Then a run changes this part by what
    its steps do, in their order. -/
theorem run_effects {κ τ : Type} {effect : σ → ι → List κ} {f : σ → τ} {g : τ → κ → τ}
    (hstep : ∀ s i s', step s i = .next s' → f s' = (effect s i).foldl g (f s)) {s s' : σ}
    {inputs : List ι} (hrun : run step s inputs = .next s') :
    f s' = (effects step effect s inputs).foldl g (f s) := by
  induction inputs generalizing s with
  | nil =>
    cases hrun
    rfl
  | cons i is ih =>
    obtain ⟨t, hi, hrest⟩ := Outcome.bind_eq_next.mp hrun
    rw [effects, hi, List.foldl_append, ← hstep s i t hi]
    exact ih hrest

/-- **Runs from steps.** Let `Aux` be kept by every step, and let a step from a state of `P`
    end in a state of `P` exactly when `ok` holds of it. Then `P` holds throughout a run
    exactly when `ok` holds of every step the run takes. -/
theorem throughout_iff_everyStep {P Aux : σ → Prop} {ok : σ → ι → Prop}
    (haux : ∀ s i s', Aux s → step s i = .next s' → Aux s')
    (hstep : ∀ s i, Aux s → P s → ((step s i).Holds P ↔ ok s i))
    {s : σ} (hs : Aux s) (hP : P s) (inputs : List ι) :
    Throughout step P s inputs ↔ EveryStep step ok s inputs := by
  induction inputs generalizing s with
  | nil => exact iff_of_true (throughout_nil.mpr hP) everyStep_nil
  | cons i is ih =>
    rw [throughout_cons, everyStep_cons, ← hstep s i hs hP]
    cases hsi : step s i with
    | next s' =>
      simp only [Outcome.Holds, Outcome.next.injEq, forall_eq', hP, true_and]
      constructor
      · intro h
        have hP' : P s' := by simpa [Throughout, run, Outcome.Holds] using h 0 (Nat.zero_le _)
        exact ⟨hP', (ih (haux s i s' hs hsi) hP').mp h⟩
      · rintro ⟨hP', h⟩
        exact (ih (haux s i s' hs hsi) hP').mpr h
    | exit => simp [Outcome.Holds, hP]
    | undefined => simp [Outcome.Holds]

end

end SdkSnmpd.Lib
