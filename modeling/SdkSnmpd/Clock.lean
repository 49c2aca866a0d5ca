import SdkSnmpd.Lib.Rounding
import SdkSnmpd.Basic

/-!
# The Clock of the Event Loop

`ticks_since` of `utils.c`, and what the loop of `run_snmpd` makes of its result: whether the MIB
is updated, and how long `select` may sleep. The ticks are computed in floating point. All numbers
on the way are whole, so that the arithmetic is that of `Lib.Rounding`.

## Contents

- `ticksSince`, `Clock.tick`: the model.
- `isFull_ticks_iff`: no rounding changes the decision.
- `Clock.OnTime`: the next update falls due when the sleep is over, give or take 10 ms.
- `clock_run`: the clock over a whole run of the loop.
-/

namespace SdkSnmpd

open Lib.Rounding

/-- `g_timeout`, in ticks of 10 ms -/
def gTimeout : Int := 100

/-- `struct timeval` -/
structure Timeval where
  sec : Int
  usec : Int
  deriving DecidableEq

namespace Timeval

/-- What `gettimeofday` stores. -/
structure Valid (tv : Timeval) : Prop where
  usec_nonneg : 0 ≤ tv.usec
  usec_lt : tv.usec < 1000000

/-- The time in microseconds. -/
def micros (tv : Timeval) : Int := tv.sec * 1000000 + tv.usec

/-- Time is running backwards. -/
def before (now last : Timeval) : Prop :=
  now.sec < last.sec ∨ (now.sec = last.sec ∧ now.usec < last.usec)

instance (now last : Timeval) : Decidable (now.before last) :=
  inferInstanceAs (Decidable (_ ∨ _))

end Timeval

/-! ## `ticks_since` -/

/-- The value of a whole number as a `float`, and as a `double`. -/
def toFloat (x : Int) : Int := roundInt 24 x
def toDouble (x : Int) : Int := roundInt 53 x

/-- The variable `ticks`: a product and a sum of `double`s, assigned to a `float`. -/
def floatTicks (last now : Timeval) : Int :=
  let seconds := toDouble (toFloat (now.sec - 1 - last.sec) * 100)
  let rest := toFloat ((now.usec + 1000000 - last.usec).tdiv 10000)
  toFloat (toDouble (seconds + rest))

/-- `INT_MIN` and `INT_MAX` -/
def intMin : Int := -2 ^ 31
def intMax : Int := 2 ^ 31 - 1

/-- What is returned, or nothing for a `float` that is just beyond `INT_MAX`, but not beyond the
    `float` that `INT_MAX` is converted to: its conversion to `int` is not defined. -/
def returnTicks (ticks : Int) : Option Int :=
  if ticks < intMin then some intMin
  else if ticks > toFloat intMax then some intMax
  else if ticks ≤ intMax then some ticks
  else none

/-- The value returned, and `*tv_now`. The reading is what `gettimeofday` stores, or nothing for
    -1. -/
def ticksSince (last now : Timeval) (reading : Option Timeval) : Option Int × Timeval :=
  match reading with
  | none => (some (-1), now)
  | some now =>
      if now.before last then (some (-1), now) else (returnTicks (floatTicks last now), now)

/-! ## The decision of the loop -/

/-- Whether the MIB is updated in full. -/
def isFull (ticks : Int) : Bool := ticks < 0 || ticks ≥ gTimeout

/-- `tv_last`, `tv_now` and `tv_sleep` -/
structure Clock where
  last : Timeval
  now : Timeval
  sleep : Timeval

/-- So many ticks as the time that `select` may sleep. -/
def sleepFor (ticks : Int) : Timeval := ⟨ticks.tdiv 100, ticks.tmod 100 * 10000⟩

/-- Determine whether to update the MIB and the next ticks to sleep. -/
def Clock.tick (clock : Clock) (reading : Option Timeval) : Option (Bool × Clock) :=
  let (ticks, now) := ticksSince clock.last clock.now reading
  ticks.map fun ticks =>
    if isFull ticks then (true, ⟨now, now, sleepFor gTimeout⟩)
    else (false, ⟨clock.last, now, sleepFor (gTimeout - ticks)⟩)

/-- Store the starting time. Without a reading, the seconds of `tv_sleep` are cleared, and its
    microseconds are what the stack holds. -/
def Clock.start (reading : Option Timeval) (stack : Clock) : Clock :=
  match reading with
  | none => ⟨⟨0, 0⟩, stack.now, ⟨0, stack.sleep.usec⟩⟩
  | some last => ⟨last, stack.now, sleepFor gTimeout⟩

/-! ## Rounding -/

/-- The ticks as they would be without rounding: the time in units of 10 ms. -/
def exactTicks (last now : Timeval) : Int := (now.micros - last.micros) / 10000

section

variable {last now : Timeval}

theorem before_iff (hlast : last.Valid) (hnow : now.Valid) :
    now.before last ↔ now.micros < last.micros := by
  have h1 := hlast.usec_nonneg
  have h2 := hlast.usec_lt
  have h3 := hnow.usec_nonneg
  have h4 := hnow.usec_lt
  unfold Timeval.before Timeval.micros
  omega

/-- One second is borrowed, so that the microseconds are positive. -/
theorem exactTicks_eq (hlast : last.Valid) (hnow : now.Valid) :
    exactTicks last now = (now.sec - 1 - last.sec) * 100 +
      (now.usec + 1000000 - last.usec).tdiv 10000 := by
  have h1 := hlast.usec_lt
  have h2 := hnow.usec_nonneg
  rw [Int.tdiv_eq_ediv_of_nonneg (by omega), exactTicks, Timeval.micros, Timeval.micros]
  omega

/-- While the seconds fit into the bits of a `float`, only the last assignment rounds. -/
theorem floatTicks_of_le (hlast : last.Valid) (hnow : now.Valid) (hle : ¬ now.before last)
    (hsmall : now.sec - 1 - last.sec ≤ 2 ^ 24) :
    floatTicks last now = toFloat (exactTicks last now) := by
  have h1 := hlast.usec_nonneg
  have h2 := hlast.usec_lt
  have h3 := hnow.usec_nonneg
  have h4 := hnow.usec_lt
  unfold Timeval.before at hle
  have hrest := Int.tdiv_eq_ediv_of_nonneg (a := now.usec + 1000000 - last.usec) (b := 10000)
    (by omega)
  rw [exactTicks_eq hlast hnow, floatTicks]
  simp only [toFloat, toDouble, hrest]
  rw [roundInt_of_abs_le (p := 24) (x := now.sec - 1 - last.sec) (by decide) (by omega) (by omega),
    roundInt_of_abs_le (p := 53) (x := (now.sec - 1 - last.sec) * 100) (by decide) (by omega)
      (by omega),
    roundInt_of_abs_le (p := 24) (x := (now.usec + 1000000 - last.usec) / 10000) (by decide)
      (by omega) (by omega),
    roundInt_of_abs_le (p := 53) (by decide) (by omega) (by omega)]

/-- Longer times stay longer than `2 ^ 24` ticks. -/
theorem floatTicks_of_gt (hlast : last.Valid) (hnow : now.Valid)
    (hlarge : 2 ^ 24 < now.sec - 1 - last.sec) : 2 ^ 24 ≤ floatTicks last now := by
  have h2 := hlast.usec_lt
  have h3 := hnow.usec_nonneg
  have hrest : 0 ≤ toFloat ((now.usec + 1000000 - last.usec).tdiv 10000) := by
    obtain ⟨n, hn⟩ := Int.eq_ofNat_of_zero_le
      (Int.tdiv_nonneg (a := now.usec + 1000000 - last.usec) (b := 10000) (by omega) (by decide))
    rw [hn, toFloat, roundInt_natCast]
    exact Int.natCast_nonneg _
  -- the bound goes through each conversion
  have hkeep : ∀ {p : Nat} {x : Int}, 24 ≤ p → 2 ^ 24 ≤ x → 2 ^ 24 ≤ roundInt p x := by
    intro p x hp hx
    have hpow : 2 ^ 24 ≤ 2 ^ p := Nat.pow_le_pow_right (by decide) hp
    have hiff := le_roundInt_iff (x := x) (t := 2 ^ 24) (by omega) (by decide) hpow
    exact_mod_cast hiff.mpr (by exact_mod_cast hx)
  have hseconds : 2 ^ 24 ≤ toDouble (toFloat (now.sec - 1 - last.sec) * 100) := by
    have hfloat : 2 ^ 24 ≤ toFloat (now.sec - 1 - last.sec) := hkeep (by decide) (by omega)
    exact hkeep (by decide) (by omega)
  exact hkeep (by decide) (hkeep (by decide) (by omega))

/-- Whether a threshold is reached can be told from the `float`. -/
theorem le_floatTicks_iff (hlast : last.Valid) (hnow : now.Valid) (hle : ¬ now.before last)
    {t : Nat} (hpos : 0 < t) (ht : t ≤ 2 ^ 24) :
    (t : Int) ≤ floatTicks last now ↔ (t : Int) ≤ exactTicks last now := by
  by_cases hsmall : now.sec - 1 - last.sec ≤ 2 ^ 24
  · rw [floatTicks_of_le hlast hnow hle hsmall, toFloat, le_roundInt_iff (by decide) hpos ht]
  · -- after 194 days both are far beyond the threshold
    have hlarge := floatTicks_of_gt hlast hnow (Int.not_le.mp hsmall)
    have h2 := hlast.usec_lt
    have h3 := hnow.usec_nonneg
    have hexact := exactTicks_eq hlast hnow
    rw [Int.tdiv_eq_ediv_of_nonneg (by omega)] at hexact
    have hcast : (t : Int) ≤ 2 ^ 24 := by exact_mod_cast ht
    exact iff_of_true (by omega) (by omega)

/-! ## The decision -/

/-- A full update is due: time is running backwards, or has run for `g_timeout` ticks. -/
def Due (last now : Timeval) : Prop :=
  now.micros < last.micros ∨ gTimeout * 10000 ≤ now.micros - last.micros

instance (last now : Timeval) : Decidable (Due last now) := inferInstanceAs (Decidable (_ ∨ _))

theorem toFloat_intMax : toFloat intMax = 2 ^ 31 := by decide +kernel

theorem le_returnTicks_iff {ticks t k : Int} (h : returnTicks ticks = some t) (hlo : intMin < k)
    (hhi : k ≤ intMax) : k ≤ t ↔ k ≤ ticks := by
  rw [returnTicks, toFloat_intMax] at h
  unfold intMin intMax at *
  split_ifs at h <;> cases h <;> omega

theorem exactTicks_nonneg (hlast : last.Valid) (hnow : now.Valid) (hforth : ¬ now.before last) :
    0 ≤ exactTicks last now := by
  rw [before_iff hlast hnow] at hforth
  unfold exactTicks
  omega

theorem floatTicks_nonneg (hlast : last.Valid) (hnow : now.Valid) (hforth : ¬ now.before last) :
    0 ≤ floatTicks last now := by
  by_cases hsmall : now.sec - 1 - last.sec ≤ 2 ^ 24
  · obtain ⟨n, hn⟩ := Int.eq_ofNat_of_zero_le (exactTicks_nonneg hlast hnow hforth)
    rw [floatTicks_of_le hlast hnow hforth hsmall, hn, toFloat, roundInt_natCast]
    exact Int.natCast_nonneg _
  · have hlarge := floatTicks_of_gt hlast hnow (Int.not_le.mp hsmall)
    omega

/-- **The decision.** It is the one that exact arithmetic makes. -/
theorem isFull_ticks_iff (hlast : last.Valid) (hnow : now.Valid) {t : Int}
    (h : (ticksSince last now (some now)).1 = some t) : isFull t = true ↔ Due last now := by
  rw [isFull, Bool.or_eq_true, decide_eq_true_iff, decide_eq_true_iff, Due]
  have hbefore := before_iff hlast hnow
  simp only [ticksSince] at h
  split at h
  · -- time is running backwards
    rename_i hback
    cases h
    exact iff_of_true (.inl (by decide)) (.inl (hbefore.mp hback))
  · rename_i hforth
    have hzero := (le_returnTicks_iff h (k := 0) (by decide) (by decide)).mpr
      (floatTicks_nonneg hlast hnow hforth)
    have hfull := (le_returnTicks_iff h (k := gTimeout) (by decide) (by decide)).trans
      (le_floatTicks_iff hlast hnow hforth (t := 100) (by decide) (by decide))
    rw [hbefore] at hforth
    unfold exactTicks gTimeout at *
    omega

/-- Ticks that no conversion can put out of range. -/
theorem ticksSince_isSome (hlast : last.Valid) (hnow : now.Valid)
    (hsmall : now.sec - 1 - last.sec ≤ 2 ^ 24) :
    ((ticksSince last now (some now)).1).isSome := by
  simp only [ticksSince]
  split
  · rfl
  · rename_i hforth
    have h1 := hlast.usec_nonneg
    have h2 := hnow.usec_lt
    obtain ⟨n, hn⟩ := Int.eq_ofNat_of_zero_le (exactTicks_nonneg hlast hnow hforth)
    have hn' : n < 2 ^ 31 - 128 := by
      unfold exactTicks Timeval.micros at hn
      omega
    -- rounding adds less than one unit, and stays below the largest int
    have hle := round_le_add_unit 24 n
    have hunit : unit 24 n ≤ 2 ^ 7 := by
      have hsize : n.size ≤ 31 := Nat.size_le.mpr (by omega)
      exact Nat.pow_le_pow_right (by decide) (by omega)
    rw [floatTicks_of_le hlast hnow hforth hsmall, hn, toFloat, roundInt_natCast, returnTicks,
      toFloat_intMax, if_neg (by unfold intMin; omega), if_neg (by omega),
      if_pos (by unfold intMax; omega)]
    rfl

/-- While no update is due, the ticks are exact. -/
theorem ticks_of_not_due (hlast : last.Valid) (hnow : now.Valid) (h : ¬ Due last now) :
    (ticksSince last now (some now)).1 = some (exactTicks last now) := by
  have hforth : ¬ now.before last := fun hback => h (.inl ((before_iff hlast hnow).mp hback))
  have hsmall : now.sec - 1 - last.sec ≤ 2 ^ 24 := by
    have h1 := hlast.usec_lt
    have h2 := hnow.usec_nonneg
    unfold Due Timeval.micros gTimeout at h
    omega
  have hzero := exactTicks_nonneg hlast hnow hforth
  -- fewer ticks than g_timeout are exact in a float
  have hless : exactTicks last now < gTimeout := by
    unfold Due gTimeout at h
    unfold exactTicks gTimeout
    omega
  unfold gTimeout at hless
  simp only [ticksSince, if_neg hforth]
  rw [floatTicks_of_le hlast hnow hforth hsmall, toFloat,
    roundInt_of_abs_le (by decide) (by omega) (by omega), returnTicks, toFloat_intMax,
    if_neg (by unfold intMin; omega), if_neg (by omega), if_pos (by unfold intMax; omega)]

/-! ## One round -/

/-- The sleep ends when the next update falls due, or up to 10 ms later. -/
structure Clock.OnTime (clock : Clock) : Prop where
  valid : clock.sleep.Valid
  positive : 0 < clock.sleep.micros
  due : clock.last.micros + gTimeout * 10000 ≤ clock.now.micros + clock.sleep.micros
  soon : clock.now.micros + clock.sleep.micros < clock.last.micros + gTimeout * 10000 + 10000

theorem sleepFor_spec {ticks : Int} (hpos : 0 < ticks) :
    (sleepFor ticks).Valid ∧ (sleepFor ticks).micros = ticks * 10000 := by
  have hdiv := Int.tdiv_eq_ediv_of_nonneg (a := ticks) (b := 100) (by omega)
  have hmod := Int.tmod_eq_emod_of_nonneg (a := ticks) (b := 100) (by omega)
  refine ⟨⟨?_, ?_⟩, ?_⟩
  · simp only [sleepFor, hmod]
    omega
  · simp only [sleepFor, hmod]
    omega
  · simp only [Timeval.micros, sleepFor, hdiv, hmod]
    omega

theorem Clock.OnTime.of_sleepFor {last now : Timeval} {ticks : Int} (hpos : 0 < ticks)
    (hdue : last.micros + gTimeout * 10000 ≤ now.micros + ticks * 10000)
    (hsoon : now.micros + ticks * 10000 < last.micros + gTimeout * 10000 + 10000) :
    (⟨last, now, sleepFor ticks⟩ : Clock).OnTime := by
  obtain ⟨hvalid, hmicros⟩ := sleepFor_spec hpos
  rw [← hmicros] at hdue hsoon
  exact ⟨hvalid, by dsimp only; omega, hdue, hsoon⟩

/-- **One round.** The update is full if it is due, and only then the time is set back. In any
    case the sleep ends on time. -/
theorem Clock.tick_spec {clock clock' : Clock} {full : Bool} {now : Timeval}
    (hlast : clock.last.Valid) (hnow : now.Valid) (h : clock.tick (some now) = some (full, clock')) :
    full = decide (Due clock.last now) ∧ clock'.now = now ∧
      clock'.last = (if Due clock.last now then now else clock.last) ∧ clock'.OnTime := by
  have hreading : ticksSince clock.last clock.now (some now) =
      ticksSince clock.last now (some now) := rfl
  have hsnd : (ticksSince clock.last now (some now)).2 = now := by
    simp only [ticksSince]
    split <;> rfl
  simp only [Clock.tick, hreading, hsnd, Option.map_eq_some_iff] at h
  obtain ⟨t, ht, h⟩ := h
  -- the ticks are compared once, and both branches follow from what is due
  have hfull := isFull_ticks_iff hlast hnow ht
  by_cases hdue : Due clock.last now
  · rw [if_pos (hfull.mpr hdue)] at h
    cases h
    exact ⟨(decide_eq_true hdue).symm, rfl, (if_pos hdue).symm,
      .of_sleepFor (by decide) (Int.le_refl _) (by omega)⟩
  · rw [if_neg (fun hcontra => hdue (hfull.mp hcontra))] at h
    cases h
    -- the ticks that are left are positive
    rw [ticks_of_not_due hlast hnow hdue] at ht
    cases ht
    have hexact : exactTicks clock.last now * 10000 ≤ now.micros - clock.last.micros ∧
        now.micros - clock.last.micros < exactTicks clock.last now * 10000 + 10000 := by
      unfold exactTicks
      omega
    unfold Due at hdue
    refine ⟨(decide_eq_false hdue).symm, rfl, (if_neg hdue).symm, .of_sleepFor ?_ ?_ ?_⟩ <;>
      unfold gTimeout at * <;> omega

/-- With a reading in range, the round is defined. -/
theorem Clock.exists_tick {clock : Clock} {now : Timeval} (hlast : clock.last.Valid)
    (hnow : now.Valid) (hsmall : now.sec - 1 - clock.last.sec ≤ 2 ^ 24) :
    ∃ full clock', clock.tick (some now) = some (full, clock') := by
  obtain ⟨t, ht⟩ := Option.isSome_iff_exists.mp (ticksSince_isSome hlast hnow hsmall)
  have hreading : (ticksSince clock.last clock.now (some now)).1 = some t := ht
  cases hfull : isFull t with
  | true => exact ⟨_, _, by simp only [Clock.tick, hreading, Option.map_some, hfull, if_true]; rfl⟩
  | false =>
    exact ⟨_, _, by simp only [Clock.tick, hreading, Option.map_some, hfull]; rfl⟩

end

/-! ## Runs -/

/-- The rounds over a list of readings, and for each whether its update is full. -/
def Clock.run : Clock → List (Option Timeval) → Option (List Bool × Clock)
  | clock, [] => some ([], clock)
  | clock, reading :: readings => do
      let (full, clock) ← clock.tick reading
      let (fulls, clock) ← clock.run readings
      pure (full :: fulls, clock)

/-- The updates as they fall due, in exact arithmetic. -/
def schedule : (last : Timeval) → List Timeval → List Bool
  | _, [] => []
  | last, now :: rest =>
      decide (Due last now) :: schedule (if Due last now then now else last) rest

/-- No more than 194 days pass from one reading to the next. -/
def Near (earlier later : Timeval) : Prop := later.sec - earlier.sec ≤ 2 ^ 24

/-- The readings from a state on, in which the last reading is at hand. The induction is on the
    readings: either the time was set back to the last reading, or that was less than
    `g_timeout` ago. -/
theorem Clock.run_eq {clock : Clock} (hlast : clock.last.Valid) (hnow : clock.now.Valid)
    (hrecent : clock.last = clock.now ∨ ¬ Due clock.last clock.now) (readings : List Timeval)
    (hvalid : ∀ reading ∈ readings, reading.Valid)
    (hnear : (clock.now :: readings).IsChain Near) :
    ∃ clock', clock.run (readings.map some) = some (schedule clock.last readings, clock') ∧
      (clock.OnTime ∨ readings ≠ [] → clock'.OnTime) := by
  induction readings generalizing clock with
  | nil => exact ⟨clock, rfl, fun h => h.resolve_right (by simp)⟩
  | cons now rest ih =>
    obtain ⟨hnow', hrest⟩ := List.forall_mem_cons.mp hvalid
    obtain ⟨hgap, hnear'⟩ := List.isChain_cons_cons.mp hnear
    have hsmall : now.sec - 1 - clock.last.sec ≤ 2 ^ 24 := by
      have h1 := hlast.usec_lt
      have h2 := hnow.usec_nonneg
      unfold Near at hgap
      rcases hrecent with heq | hdue
      · rw [heq]
        omega
      · unfold Due Timeval.micros gTimeout at hdue
        omega
    obtain ⟨full, clock', htick⟩ := Clock.exists_tick hlast hnow' hsmall
    obtain ⟨hfull, hclock, hset, hontime⟩ := Clock.tick_spec hlast hnow' htick
    have hlast' : clock'.last.Valid := by
      rw [hset]
      split <;> assumption
    have hrecent' : clock'.last = clock'.now ∨ ¬ Due clock'.last clock'.now := by
      rw [hset, hclock]
      split
      · exact .inl rfl
      · rename_i hdue
        exact .inr hdue
    obtain ⟨clock'', hrun, hend⟩ := ih hlast' (hclock ▸ hnow') hrecent' hrest (hclock ▸ hnear')
    refine ⟨clock'', ?_, fun _ => hend (.inl hontime)⟩
    rw [hset] at hrun
    simp only [List.map_cons, Clock.run, htick, Option.bind_eq_bind, Option.bind_some, hrun,
      schedule, hfull]
    rfl

/-- **The clock of a run.** The loop is started with a reading and takes one in each round, and no
    two are 194 days apart. Then every conversion is defined, the MIB is updated as exact
    arithmetic has it, and after every round the sleep ends on time. -/
theorem clock_run (stack : Clock) (first : Timeval) (readings : List Timeval)
    (hvalid : ∀ reading ∈ first :: readings, reading.Valid)
    (hnear : (first :: readings).IsChain Near) :
    ∃ clock, (Clock.start (some first) stack).run (readings.map some) =
        some (schedule first readings, clock) ∧
      (readings ≠ [] → clock.OnTime) := by
  obtain ⟨hfirst, hrest⟩ := List.forall_mem_cons.mp hvalid
  cases readings with
  | nil => exact ⟨_, rfl, fun h => absurd rfl h⟩
  | cons now rest =>
    -- the first round does not look at what the stack held
    let clock : Clock := ⟨first, first, sleepFor gTimeout⟩
    have hclock : clock.last.Valid ∧ clock.now.Valid := ⟨hfirst, hfirst⟩
    obtain ⟨clock', hrun, hontime⟩ :=
      Clock.run_eq hclock.1 hclock.2 (.inl rfl) (now :: rest) hrest hnear
    exact ⟨clock', hrun, fun hne => hontime (.inr hne)⟩

/-- After a second, an update falls due; after another half of one, it does not. -/
theorem clock_run_halfSecond :
    ∃ clock, (Clock.start (some ⟨7, 0⟩) ⟨⟨0, 0⟩, ⟨0, 0⟩, ⟨0, 0⟩⟩).run
        ([⟨8, 0⟩, ⟨8, 500000⟩].map some) = some ([true, false], clock) ∧
      (([⟨8, 0⟩, ⟨8, 500000⟩] : List Timeval) ≠ [] → clock.OnTime) :=
  clock_run ⟨⟨0, 0⟩, ⟨0, 0⟩, ⟨0, 0⟩⟩ ⟨7, 0⟩ [⟨8, 0⟩, ⟨8, 500000⟩]
    (by
      intro reading h
      simp only [List.mem_cons, List.not_mem_nil, or_false] at h
      rcases h with rfl | rfl | rfl <;> exact ⟨by decide, by decide⟩)
    (.cons_cons (show (8 : Int) - 7 ≤ 2 ^ 24 by decide)
      (.cons_cons (show (8 : Int) - 8 ≤ 2 ^ 24 by decide) (.singleton _)))

end SdkSnmpd
