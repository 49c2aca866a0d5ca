import Mathlib.Data.List.Forall2
import Mathlib.Logic.Function.Basic

/-!
# Records in Shared Memory

One thread stores records word by word, and another reads a record word by word, without a lock.
A single word is stored or read at once. Between two reads, any number of stores may take place.

## Contents

- `Registers`: the memory, what is still to be stored, and all records that were ever stored.
- `Regular`: every word in memory belongs to one of the two latest records.
- `Regular.readAll`: every word that is read belongs to a record that was begun in the meantime,
  or to one of the two before.
- `readAll_of_idle`: while nothing is stored, the words are those of one record.
-/

namespace SdkSnmpd.Lib

variable {κ ν : Type}

/-- Store one word. -/
def assign [DecidableEq κ] (memory : κ → ν) (w : κ × ν) : κ → ν :=
  Function.update memory w.1 w.2

/-- The memory between two stores. The latest record comes first. -/
structure Registers (κ ν : Type) where
  memory : κ → ν
  pending : List (κ × ν)
  records : List (κ → ν)

/-- What the writer does next: begin with a record, or store its next word. -/
inductive Move (κ ν : Type) where
  | start (words : List (κ × ν))
  | store

namespace Registers

section

variable [DecidableEq κ]

/-- The memory once everything is stored. -/
def target (r : Registers κ ν) : κ → ν := r.pending.foldl assign r.memory

/-- Begin with a record when the one before is complete. -/
def start (r : Registers κ ν) (words : List (κ × ν)) : Registers κ ν :=
  match r.pending with
  | [] => ⟨r.memory, words, words.foldl assign r.memory :: r.records⟩
  | _ => r

/-- Store the next word. -/
def store (r : Registers κ ν) : Registers κ ν :=
  match r.pending with
  | [] => r
  | w :: rest => ⟨assign r.memory w, rest, r.records⟩

def move (r : Registers κ ν) : Move κ ν → Registers κ ν
  | .start words => r.start words
  | .store => r.store

def moves (r : Registers κ ν) (ms : List (Move κ ν)) : Registers κ ν := ms.foldl move r

/-- Read words one after another, each after some moves of the writer. -/
def readAll : List (List (Move κ ν) × κ) → Registers κ ν → List (κ × ν) × Registers κ ν
  | [], r => ([], r)
  | (between, k) :: plan, r =>
      let r := r.moves between
      let (words, r') := readAll plan r
      ((k, r.memory k) :: words, r')

/-- The latest record is the one being stored, no word of it is stored twice, and every word in
    memory belongs to it or to the one before. -/
structure Regular (r : Registers κ ν) : Prop where
  distinct : (r.pending.map Prod.fst).Nodup
  latest : r.records.head? = some r.target
  mixed : ∀ k, ∃ record ∈ r.records.take 2, r.memory k = record k

end

end Registers

/-- A move that stores no word twice. -/
def Move.Distinct : Move κ ν → Prop
  | .start words => (words.map Prod.fst).Nodup
  | .store => True

/-! ## One move -/

section

variable [DecidableEq κ]

/-- A word that is not stored is left as it is. -/
theorem foldl_assign_of_not_mem {k : κ} {words : List (κ × ν)} (h : k ∉ words.map Prod.fst)
    (memory : κ → ν) : words.foldl assign memory k = memory k := by
  induction words generalizing memory with
  | nil => rfl
  | cons w words ih =>
    rw [List.map_cons, List.mem_cons, not_or] at h
    rw [List.foldl_cons, ih h.2, assign, Function.update_of_ne h.1]

/-- A word that is stored once is in memory afterwards. -/
theorem foldl_assign_of_mem {w : κ × ν} {words : List (κ × ν)}
    (hdistinct : (words.map Prod.fst).Nodup) (h : w ∈ words) (memory : κ → ν) :
    words.foldl assign memory w.1 = w.2 := by
  induction words generalizing memory with
  | nil => exact absurd h List.not_mem_nil
  | cons v words ih =>
    rw [List.map_cons, List.nodup_cons] at hdistinct
    rcases List.mem_cons.mp h with rfl | hrest
    · rw [List.foldl_cons, foldl_assign_of_not_mem hdistinct.1, assign, Function.update_self]
    · exact ih hdistinct.2 hrest _

end

namespace Registers

variable {r : Registers κ ν}

/-- The records that a read may meet which begins in one state and ends in another: those begun in
    between, and the two before. -/
def window (r r' : Registers κ ν) : List (κ → ν) :=
  r'.records.take (r'.records.length - r.records.length + 2)

theorem window_eq {r r' : Registers κ ν} {new : List (κ → ν)}
    (h : new ++ r.records = r'.records) : window r r' = new ++ r.records.take 2 := by
  rw [window, ← h, List.length_append, Nat.add_sub_cancel, List.take_length_add_append]

/-- A window only grows when it begins earlier, or ends later. -/
theorem window_subset {a b b' c : Registers κ ν} (hab : a.records <:+ b.records)
    (hbb' : b.records <:+ b'.records) (hbc : b'.records <:+ c.records) :
    window b b' ⊆ window a c := by
  obtain ⟨x, hx⟩ := hab
  obtain ⟨y, hy⟩ := hbb'
  obtain ⟨z, hz⟩ := hbc
  -- what was added before, during and after the shorter window
  have hall : (z ++ y ++ x) ++ a.records = c.records := by
    rw [← hz, ← hy, ← hx]
    simp only [List.append_assoc]
  rw [window_eq hy, window_eq hall]
  intro record h
  rw [List.mem_append] at h
  simp only [List.append_assoc, List.mem_append]
  rcases h with hnew | hold
  · exact .inr (.inl hnew)
  · -- of the two records before, some may be new for the longer window
    rw [← hx, List.take_append, List.mem_append] at hold
    rcases hold with hold | hold
    · exact .inr (.inr (.inl (List.mem_of_mem_take hold)))
    · exact .inr (.inr (.inr (List.take_subset_take_left _ (Nat.sub_le _ _) hold)))

variable [DecidableEq κ]

/-- Records are only added. -/
theorem suffix_move (r : Registers κ ν) (m : Move κ ν) : r.records <:+ (r.move m).records := by
  cases m with
  | start words =>
    rw [move, start]
    split
    · exact List.suffix_cons _ _
    · exact List.suffix_refl _
  | store =>
    rw [move, store]
    split <;> exact List.suffix_refl _

/-- Beginning with a record: the memory is the record before. -/
theorem Regular.start (h : r.Regular) {words : List (κ × ν)}
    (hwords : (words.map Prod.fst).Nodup) : (r.start words).Regular := by
  rw [Registers.start]
  split
  · rename_i hnone
    have hmemory : r.records.head? = some r.memory := by
      rw [h.latest, target, hnone, List.foldl_nil]
    obtain ⟨older, holder⟩ := List.head?_eq_some_iff.mp hmemory
    refine ⟨hwords, rfl, fun k => ⟨r.memory, ?_, rfl⟩⟩
    -- every word is still that of the record before, which is now the second
    rw [holder]
    simp
  · exact h

/-- Storing a word: it is one of the latest record. -/
theorem Regular.store (h : r.Regular) : r.store.Regular := by
  rw [Registers.store]
  split
  · exact h
  · rename_i w rest hpending
    have hdistinct := h.distinct
    have hlatest := h.latest
    rw [hpending, List.map_cons, List.nodup_cons] at hdistinct
    rw [target, hpending, List.foldl_cons] at hlatest
    refine ⟨hdistinct.2, hlatest, fun k => ?_⟩
    -- only the word that is stored changes its record
    by_cases hk : k = w.1
    · obtain ⟨older, holder⟩ := List.head?_eq_some_iff.mp hlatest
      refine ⟨rest.foldl assign (assign r.memory w), ?_, ?_⟩
      · rw [holder]
        exact List.mem_cons_self
      · rw [hk]
        exact (foldl_assign_of_not_mem hdistinct.1 _).symm
    · obtain ⟨record, hrecord, heq⟩ := h.mixed k
      exact ⟨record, hrecord, (Function.update_of_ne hk _ _).trans heq⟩

theorem Regular.move (h : r.Regular) {m : Move κ ν} (hm : m.Distinct) : (r.move m).Regular := by
  cases m with
  | start words => exact h.start hm
  | store => exact h.store

theorem Regular.moves (h : r.Regular) {ms : List (Move κ ν)} (hms : ∀ m ∈ ms, m.Distinct) :
    (r.moves ms).Regular ∧ r.records <:+ (r.moves ms).records := by
  induction ms generalizing r with
  | nil => exact ⟨h, List.suffix_refl _⟩
  | cons m ms ih =>
    obtain ⟨hm, hrest⟩ := List.forall_mem_cons.mp hms
    obtain ⟨hregular, hsuffix⟩ := ih (h.move hm) hrest
    exact ⟨hregular, (suffix_move r m).trans hsuffix⟩

/-! ## Reading a record -/

/-- **Reading without a lock.** Every word that is read belongs to a record begun during the
    reading, or to one of the two before. The induction is on the reads. -/
theorem Regular.readAll {plan : List (List (Move κ ν) × κ)}
    (hms : ∀ read ∈ plan, ∀ m ∈ read.1, m.Distinct) (h : r.Regular) :
    (readAll plan r).2.Regular ∧ r.records <:+ (readAll plan r).2.records ∧
      ∀ w ∈ (readAll plan r).1, ∃ record ∈ window r (readAll plan r).2, w.2 = record w.1 := by
  induction plan generalizing r with
  | nil => exact ⟨h, List.suffix_refl _, fun _ hw => absurd hw List.not_mem_nil⟩
  | cons read plan ih =>
    obtain ⟨between, k⟩ := read
    obtain ⟨hbetween, hrest⟩ := List.forall_mem_cons.mp hms
    obtain ⟨hregular, hsuffix⟩ := h.moves hbetween
    obtain ⟨hend, hlater, hwords⟩ := ih hrest hregular
    refine ⟨hend, hsuffix.trans hlater, fun w hw => ?_⟩
    rcases List.mem_cons.mp hw with rfl | hw
    · -- the memory at the time of the read
      obtain ⟨record, hrecord, heq⟩ := hregular.mixed k
      have hwindow : window (r.moves between) (r.moves between) =
          (r.moves between).records.take 2 := window_eq (List.nil_append _)
      exact ⟨record, window_subset hsuffix (List.suffix_refl _) hlater (hwindow ▸ hrecord), heq⟩
    · obtain ⟨record, hrecord, heq⟩ := hwords w hw
      -- the reads that follow have a shorter window
      exact ⟨record, window_subset hsuffix hlater (List.suffix_refl _) hrecord, heq⟩

/-! ## Reading while nothing is stored -/

theorem suffix_moves (r : Registers κ ν) (ms : List (Move κ ν)) :
    r.records <:+ (r.moves ms).records := by
  induction ms generalizing r with
  | nil => exact List.suffix_refl _
  | cons m ms ih => exact (suffix_move r m).trans (ih (r.move m))

theorem suffix_readAll (plan : List (List (Move κ ν) × κ)) (r : Registers κ ν) :
    r.records <:+ (Registers.readAll plan r).2.records := by
  induction plan generalizing r with
  | nil => exact List.suffix_refl _
  | cons read plan ih => exact (suffix_moves r read.1).trans (ih (r.moves read.1))

/-- With nothing to store, every move but the beginning of a record does nothing. -/
theorem move_of_idle (hpending : r.pending = []) {m : Move κ ν}
    (hsame : (r.move m).records = r.records) : r.move m = r := by
  cases m with
  | start words =>
    rw [move, Registers.start, hpending] at hsame
    exact absurd hsame (List.cons_ne_self _ _)
  | store => rw [move, Registers.store, hpending]

theorem moves_of_idle (hpending : r.pending = []) {ms : List (Move κ ν)}
    (hsame : (r.moves ms).records = r.records) : r.moves ms = r := by
  induction ms with
  | nil => rfl
  | cons m ms ih =>
    have hsplit : r.moves (m :: ms) = (r.move m).moves ms := rfl
    rw [hsplit] at hsame ⊢
    have hlater := suffix_moves (r.move m) ms
    rw [hsame] at hlater
    have hidle : r.move m = r := move_of_idle hpending
      (hlater.sublist.antisymm (suffix_move r m).sublist)
    rw [hidle] at hsame ⊢
    exact ih hsame

/-- **A consistent reading.** If nothing is being stored when the reading begins, and no record is
    begun before it ends, then all words are those in memory. -/
theorem readAll_of_idle (hpending : r.pending = []) {plan : List (List (Move κ ν) × κ)}
    (hsame : (Registers.readAll plan r).2.records = r.records) :
    ∀ w ∈ (Registers.readAll plan r).1, w.2 = r.memory w.1 := by
  induction plan with
  | nil => exact fun _ hw => absurd hw List.not_mem_nil
  | cons read plan ih =>
    obtain ⟨between, k⟩ := read
    have hlater := suffix_readAll plan (r.moves between)
    change (Registers.readAll plan (r.moves between)).2.records = r.records at hsame
    rw [hsame] at hlater
    have hidle : r.moves between = r := moves_of_idle hpending
      (hlater.sublist.antisymm (suffix_moves r between).sublist)
    rw [hidle] at hsame
    intro w hw
    rw [Registers.readAll, hidle] at hw
    rcases List.mem_cons.mp hw with rfl | hw
    · rfl
    · exact ih hsame w hw

/-- The reads name the words. -/
theorem map_fst_readAll (plan : List (List (Move κ ν) × κ)) (r : Registers κ ν) :
    (Registers.readAll plan r).1.map Prod.fst = plan.map Prod.snd := by
  induction plan generalizing r with
  | nil => rfl
  | cons read plan ih => rw [Registers.readAll, List.map_cons, List.map_cons, ih]

end Registers

end SdkSnmpd.Lib
