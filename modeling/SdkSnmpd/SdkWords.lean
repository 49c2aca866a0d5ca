import SdkSnmpd.Lib.Registers
import SdkSnmpd.Lib.Run
import SdkSnmpd.ParserSdk

/-!
# The Words of `sdk_param`

The sensor thread stores a sample into `sdk_param` word by word, and no lock keeps another thread
from reading in between. A word is an `int` or a `long`, and is stored or read at once.

## Contents

- `SdkField`, `SdkParam.word`, `SdkParam.store`: the words, and their assignment.
- `Sensor.move`: the thread between two stores.
- `moves_entries`: but for pending stores, the moves are the loop of `threading_sdk_serial`.
- `registers_move`: the thread writes records in the sense of `Lib.Registers`.
-/

namespace SdkSnmpd

open Lib (Mem Registers Move assign)

/-! ## Words -/

/-- The words that are parsed from an answer. -/
inductive ParsedField where
  | hw
  | sw
  | selfTemp
  | relay
  | dryContact (i : Fin 20)
  deriving DecidableEq

/-- The words of `sdk_param`. -/
inductive SdkField where
  | parsed (field : ParsedField)
  | opticalRelay (i : Fin 4)
  deriving DecidableEq

namespace SdkParam

def word (sdk : SdkParam) : SdkField → Int
  | .parsed .hw => sdk.hw
  | .parsed .sw => sdk.sw
  | .parsed .selfTemp => sdk.selfTemp
  | .parsed .relay => sdk.relay
  | .parsed (.dryContact i) => sdk.dryContact.get i
  | .opticalRelay i => (sdk.opticalRelay.get i).toInt

/-- The assignment of one word. No statement assigns an optical relay. -/
def store (sdk : SdkParam) : ParsedField × Int → SdkParam
  | (.hw, v) => { sdk with hw := v }
  | (.sw, v) => { sdk with sw := v }
  | (.selfTemp, v) => { sdk with selfTemp := v }
  | (.relay, v) => { sdk with relay := v }
  | (.dryContact i, v) => { sdk with dryContact := sdk.dryContact.set i v }

/-- The parameters are their words. -/
theorem ext_word {sdk sdk' : SdkParam} (h : ∀ field, sdk.word field = sdk'.word field) :
    sdk = sdk' := by
  obtain ⟨hw, sw, selfTemp, relay, opticalRelay, dryContact⟩ := sdk
  obtain ⟨hw', sw', selfTemp', relay', opticalRelay', dryContact'⟩ := sdk'
  -- the two arrays are compared element by element
  have hoptical : opticalRelay = opticalRelay' :=
    Vector.ext fun i hi => Int32.toInt_inj.mp (h (.opticalRelay ⟨i, hi⟩))
  have hdry : dryContact = dryContact' :=
    Vector.ext fun i hi => h (.parsed (.dryContact ⟨i, hi⟩))
  have h1 := h (.parsed .hw)
  have h2 := h (.parsed .sw)
  have h3 := h (.parsed .selfTemp)
  have h4 := h (.parsed .relay)
  simp only [word] at h1 h2 h3 h4
  rw [hoptical, hdry, h1, h2, h3, h4]

end SdkParam

/-- A word to be stored, with its place among all words. -/
def stored (w : ParsedField × Int) : SdkField × Int := (.parsed w.1, w.2)

theorem SdkParam.word_store (sdk : SdkParam) (w : ParsedField × Int) :
    (sdk.store w).word = assign sdk.word (stored w) := by
  obtain ⟨field, v⟩ := w
  funext other
  by_cases hsame : other = .parsed field
  · subst hsame
    -- the word that is stored
    rw [assign, stored, Function.update_self]
    cases field with
    | hw | sw | selfTemp | relay => rfl
    | dryContact i => exact Vector.getElem_set_self i.isLt
  · -- every other word is left alone
    rw [assign, stored, Function.update_of_ne hsame]
    cases field with
    | hw | sw | selfTemp | relay =>
      rcases other with (_ | _ | _ | _ | _) | _ <;> first | rfl | exact absurd rfl hsame
    | dryContact i =>
      rcases other with (_ | _ | _ | _ | j) | _
      case parsed.dryContact =>
        -- another contact of the same array
        have hne : (i : Nat) ≠ j := fun h => hsame (by rw [Fin.ext h])
        exact Vector.getElem_set_ne i.isLt j.isLt hne
      all_goals rfl

/-- The stores after a status request, in the order of the program. -/
def parsedWords (answer : Mem) (behind : Behind) : List (ParsedField × Int) :=
  [(.selfTemp, asciiToInt (tmpBuf answer 40 behind.selfTemp)),
    (.hw, asciiToInt (tmpBuf answer 6 behind.hw)),
    (.sw, asciiToInt (tmpBuf answer 8 behind.sw)),
    (.relay, char (answer 19))] ++
  List.ofFn fun i : Fin 20 => (.dryContact i, char (answer (i + 20)))

/-- The words that an answer fills. -/
def parsedFields : List ParsedField :=
  [.selfTemp, .hw, .sw, .relay] ++ List.ofFn ParsedField.dryContact

theorem map_fst_parsedWords (answer : Mem) (behind : Behind) :
    (parsedWords answer behind).map Prod.fst = parsedFields := rfl

theorem nodup_parsedFields : parsedFields.Nodup := by decide

/-- The places of the words are distinct as well. -/
theorem nodup_stored (answer : Mem) (behind : Behind) :
    (((parsedWords answer behind).map stored).map Prod.fst).Nodup := by
  have hplaces : ((parsedWords answer behind).map stored).map Prod.fst =
      ((parsedWords answer behind).map Prod.fst).map SdkField.parsed := by
    simp only [List.map_map]
    rfl
  rw [hplaces, map_fst_parsedWords]
  exact nodup_parsedFields.map fun _ _ h => SdkField.parsed.inj h

theorem SdkParam.word_foldl (sdk : SdkParam) (words : List (ParsedField × Int)) :
    (words.foldl SdkParam.store sdk).word = (words.map stored).foldl assign sdk.word := by
  induction words generalizing sdk with
  | nil => rfl
  | cons w words ih => rw [List.foldl_cons, ih, SdkParam.word_store, List.map_cons, List.foldl_cons]

/-- One after another, the stores make up the sample. -/
theorem foldl_store_parsedWords (sdk : SdkParam) (answer : Mem) (behind : Behind) :
    (parsedWords answer behind).foldl SdkParam.store sdk = sdk.parse answer behind := by
  apply SdkParam.ext_word
  intro field
  rw [SdkParam.word_foldl]
  cases field with
  | opticalRelay i =>
    -- no word of an answer is an optical relay
    apply Lib.foldl_assign_of_not_mem
    simp [stored]
  | parsed field =>
    -- each other word is stored once, so that the order does not matter
    have hmem : ∀ v, (field, v) ∈ parsedWords answer behind →
        ((parsedWords answer behind).map stored).foldl assign sdk.word (.parsed field) = v :=
      fun v hv => Lib.foldl_assign_of_mem (w := stored (field, v)) (nodup_stored answer behind)
        (List.mem_map_of_mem hv) sdk.word
    cases field with
    | hw | sw | selfTemp | relay => exact hmem _ (by simp [parsedWords, SdkParam.word, SdkParam.parse])
    | dryContact i =>
      have hword : (sdk.parse answer behind).word (.parsed (.dryContact i)) =
          char (answer (i + 20)) := Vector.getElem_ofFn i.isLt
      rw [hword]
      exact hmem _ (List.mem_append_right _ (List.mem_ofFn.mpr ⟨i, rfl⟩))

/-! ## The thread -/

/-- The sensor thread between two stores. `samples` are the parameters that it has begun to store,
    the latest first; the program keeps no record of them. -/
structure Sensor where
  thread : SdkThread
  pending : List (ParsedField × Int)
  samples : List SdkParam

inductive SensorMove where
  | request (event : SdkEvent)
  | store

namespace Sensor

/-- The thread before its first request. -/
def start (answer : Mem) (sdk : SdkParam) : Sensor := ⟨⟨.status, answer, sdk⟩, [], [sdk]⟩

/-- A request, once all is stored. -/
def request (sensor : Sensor) (event : SdkEvent) : Sensor :=
  match sensor.pending with
  | _ :: _ => sensor
  | [] =>
      let entry := sensor.thread.step event
      match entry.stored with
      | none => { sensor with thread := entry.after }
      | some sdk =>
          { thread := { entry.after with sdk := sensor.thread.sdk }
            pending := parsedWords entry.after.answer event.behind
            samples := sdk :: sensor.samples }

/-- Store the next word. -/
def store (sensor : Sensor) : Sensor :=
  match sensor.pending with
  | [] => sensor
  | w :: rest =>
      { sensor with
        thread := { sensor.thread with sdk := sensor.thread.sdk.store w }
        pending := rest }

def move (sensor : Sensor) : SensorMove → Sensor
  | .request event => sensor.request event
  | .store => sensor.store

def moves (sensor : Sensor) (ms : List SensorMove) : Sensor := ms.foldl move sensor

end Sensor

/-! ## Stores as a step of the thread -/

/-- A request that stores: the sample is parsed from the buffer that the request leaves. -/
theorem SdkThread.step_stored {thread : SdkThread} {event : SdkEvent} {sdk : SdkParam}
    (h : (thread.step event).stored = some sdk) :
    sdk = thread.sdk.parse (thread.step event).after.answer event.behind ∧
      (thread.step event).after.sdk = sdk := by
  unfold step at h ⊢
  cases hphase : thread.phase with
  | status | retry =>
    simp only [hphase] at h ⊢
    -- only a positive result is parsed
    split at h
    · cases h
    · rename_i hpositive
      cases h
      simp only [if_neg hpositive, and_self]
  | word2 | word3 =>
    simp only [hphase] at h
    cases h

/-- A request that stores nothing leaves the parameters. -/
theorem SdkThread.step_unstored {thread : SdkThread} {event : SdkEvent}
    (h : (thread.step event).stored = none) : (thread.step event).after.sdk = thread.sdk := by
  unfold step at h ⊢
  cases hphase : thread.phase with
  | status | retry =>
    simp only [hphase] at h ⊢
    split at h
    · rename_i hvalue
      simp only [if_pos hvalue]
    · cases h
  | word2 | word3 => rfl

/-- A request as it changes the thread and the samples that it has stored, the latest first. -/
def SdkThread.record (state : SdkThread × List SdkParam) (event : SdkEvent) :
    SdkThread × List SdkParam :=
  ((state.1.step event).after, (state.1.step event).stored.toList ++ state.2)

/-- Recorded one after another, requests are the entries of the loop. -/
theorem SdkThread.foldl_record (thread : SdkThread) (samples : List SdkParam)
    (events : List SdkEvent) :
    events.foldl SdkThread.record (thread, samples) =
      (((thread.entries events).getLast?.map SdkEntry.after).getD thread,
        ((thread.entries events).filterMap SdkEntry.stored).reverse ++ samples) := by
  induction events generalizing thread samples with
  | nil => rfl
  | cons event events ih =>
    have hrecord : SdkThread.record (thread, samples) event =
        ((thread.step event).after, (thread.step event).stored.toList ++ samples) := rfl
    rw [List.foldl_cons, hrecord, ih, entries, List.getLast?_cons, List.filterMap_cons]
    -- the state after the last request, and the samples in reverse order
    refine Prod.ext ?_ ?_
    · cases (SdkThread.entries (thread.step event).after events).getLast? <;> rfl
    · cases (thread.step event).stored <;> simp

namespace Sensor

/-- The thread once all that is pending is stored. -/
def settled (sensor : Sensor) : SdkThread :=
  { sensor.thread with sdk := sensor.pending.foldl SdkParam.store sensor.thread.sdk }

/-- The request that a move makes. While words are pending there is none. -/
def requested (sensor : Sensor) : SensorMove → Option SdkEvent
  | .request event => if sensor.pending.isEmpty then some event else none
  | .store => none

/-- The requests of a run. -/
def requests (sensor : Sensor) (ms : List SensorMove) : List SdkEvent :=
  Lib.shown move requested sensor ms

theorem settled_of_empty {sensor : Sensor} (h : sensor.pending = []) :
    sensor.settled = sensor.thread := by
  rw [settled, h]
  rfl

/-- A store changes nothing in the end, and a request does all its stores at once. -/
theorem settled_move (sensor : Sensor) (m : SensorMove) :
    ((sensor.move m).settled, (sensor.move m).samples) =
      (sensor.requested m).elim (sensor.settled, sensor.samples)
        (SdkThread.record (sensor.settled, sensor.samples)) := by
  cases m with
  | store =>
    -- a word that is stored was to be stored
    cases hpending : sensor.pending <;>
      simp only [move, store, requested, settled, hpending, List.foldl_cons, Option.elim]
  | request event =>
    cases hpending : sensor.pending with
    -- the thread makes no request before all is stored
    | cons w rest => simp [move, request, requested, hpending]
    | nil =>
      rw [settled_of_empty hpending]
      cases hstored : (sensor.thread.step event).stored with
      | none => simp [move, request, requested, settled, SdkThread.record, hpending, hstored]
      | some sdk =>
        -- The pending words are those of the sample, which the step has stored.
        obtain ⟨hparse, hafter⟩ := SdkThread.step_stored hstored
        simp only [move, request, requested, settled, SdkThread.record, hpending, hstored,
          List.isEmpty_nil, if_true, Option.elim, Option.toList, List.cons_append,
          List.nil_append, foldl_store_parsedWords]
        rw [← hparse, ← hafter]

/-- The moves of a run, as the requests that were made in it. -/
theorem moves_record (sensor : Sensor) (ms : List SensorMove) :
    ((sensor.moves ms).settled, (sensor.moves ms).samples) =
      (sensor.requests ms).foldl SdkThread.record (sensor.settled, sensor.samples) :=
  Lib.foldl_shown (f := fun sensor : Sensor => (sensor.settled, sensor.samples))
    settled_move sensor ms

/-- **The loop, word by word.** At every moment the thread is, but for the words it has yet to
    store, where `threading_sdk_serial` is after the requests made so far, and it has begun to
    store exactly what the loop has stored. -/
theorem moves_entries (sensor : Sensor) (ms : List SensorMove) :
    (sensor.moves ms).settled =
        (((sensor.settled.entries (sensor.requests ms)).getLast?.map SdkEntry.after).getD
          sensor.settled) ∧
      (sensor.moves ms).samples =
        ((sensor.settled.entries (sensor.requests ms)).filterMap SdkEntry.stored).reverse ++
          sensor.samples := by
  have hrun := sensor.moves_record ms
  rw [SdkThread.foldl_record] at hrun
  exact Prod.ext_iff.mp hrun

/-- A sample is one of the start, or one of the requests has stored it. -/
theorem exists_entry_of_mem {sensor : Sensor} {ms : List SensorMove} {sample : SdkParam}
    (h : sample ∈ (sensor.moves ms).samples) :
    sample ∈ sensor.samples ∨
      ∃ entry ∈ sensor.settled.entries (sensor.requests ms), entry.stored = some sample := by
  have hrun := congrArg Prod.snd (sensor.moves_record ms)
  rw [SdkThread.foldl_record] at hrun
  -- the samples are those of the entries, before those of the start
  dsimp only at hrun
  rw [hrun, List.mem_append, List.mem_reverse, List.mem_filterMap] at h
  exact h.symm

/-! ## The thread as a writer of records -/

def registers (sensor : Sensor) : Registers SdkField Int :=
  ⟨sensor.thread.sdk.word, sensor.pending.map stored, sensor.samples.map SdkParam.word⟩

/-- What a move does to the registers: most requests do nothing. -/
def writes (sensor : Sensor) : SensorMove → List (Move SdkField Int)
  | .store => [.store]
  | .request event =>
      match sensor.pending, (sensor.thread.step event).stored with
      | [], some _ =>
          [.start ((parsedWords (sensor.thread.step event).after.answer event.behind).map stored)]
      | _, _ => []

theorem distinct_writes (sensor : Sensor) (m : SensorMove) :
    ∀ w ∈ sensor.writes m, w.Distinct := by
  cases m with
  | store => simp [writes, Move.Distinct]
  | request event =>
    rw [writes]
    split
    · rw [List.forall_mem_singleton]
      -- one sample has each word once
      exact nodup_stored _ _
    · exact fun _ h => absurd h List.not_mem_nil

theorem registers_move (sensor : Sensor) (m : SensorMove) :
    (sensor.move m).registers = sensor.registers.moves (sensor.writes m) := by
  cases m with
  | store =>
    cases hpending : sensor.pending with
    | nil => simp [move, store, writes, Registers.moves, Registers.move, Registers.store, registers,
        hpending]
    | cons w rest =>
      simp only [move, store, writes, Registers.moves, List.foldl_cons, List.foldl_nil,
        Registers.move, Registers.store, registers, hpending, List.map_cons, SdkParam.word_store]
  | request event =>
    cases hpending : sensor.pending with
    | cons w rest => simp only [move, request, writes, hpending, Registers.moves, List.foldl_nil]
    | nil =>
      cases hstored : (sensor.thread.step event).stored with
      | none =>
        simp only [move, request, writes, hpending, hstored, Registers.moves, List.foldl_nil,
          registers, SdkThread.step_unstored hstored]
      | some sdk =>
        obtain ⟨hparse, -⟩ := SdkThread.step_stored hstored
        -- the record that is started is the sample, word by word
        rw [← foldl_store_parsedWords] at hparse
        simp only [move, request, writes, hpending, hstored, Registers.moves, List.foldl_cons,
          List.foldl_nil, Registers.move, Registers.start, registers, List.map_nil, List.map_cons]
        rw [hparse, SdkParam.word_foldl]

end Sensor

end SdkSnmpd
