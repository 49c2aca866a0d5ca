import Mathlib.Data.List.Nodup
import Mathlib.Data.List.Sublists

/-!
# Tables Revised in One Pass

Entries of a table are looked up by their keys and revised, with a cursor that only moves
forward: every search starts where the one before has ended.

## Contents

- `Revision`, `revise`: the pass. It fails at the first key that is not found.
- `revise_eq`: a pass over keys in the order of the table succeeds, and revises exactly the
  entries with these keys.
- `map_revised_eq_zipWith`: a pass over all keys revises every entry.
-/

namespace SdkSnmpd.Lib

variable {κ α : Type} [DecidableEq κ]

/-- What becomes of the entry with a key. -/
structure Revision (κ α : Type) where
  key : κ
  apply : α → α

/-- The first index from `pos` on with the key, or the end of the table. -/
def seek (key : α → κ) (k : κ) (pos : Nat) (table : List α) : Nat :=
  pos + (table.drop pos).findIdx fun a => decide (key a = k)

/-- Revise entries one after another. -/
def revise (key : α → κ) : (pos : Nat) → List (Revision κ α) → List α → Option (List α)
  | _, [], table => some table
  | pos, r :: rs, table =>
      match table[seek key r.key pos table]? with
      | none => none
      | some a =>
          revise key (seek key r.key pos table) rs
            (table.set (seek key r.key pos table) (r.apply a))

/-- The entry after all revisions of a pass. -/
def revised (key : α → κ) (rs : List (Revision κ α)) (a : α) : α :=
  match rs.find? fun r => decide (r.key = key a) with
  | none => a
  | some r => r.apply a

section

variable {key : α → κ}

/-- Keys that follow in order are still to come once the first of them is found. -/
theorem sublist_drop_findIdx {k : κ} {ks keys : List κ} (h : (k :: ks).Sublist keys) :
    ks.Sublist (keys.drop (keys.findIdx (fun k' => decide (k' = k)) + 1)) := by
  induction keys with
  | nil => cases h
  | cons k' keys ih =>
    rw [List.findIdx_cons]
    by_cases hk : k' = k
    · -- found at the head
      simp only [hk, decide_true, cond_true, Nat.zero_add, List.drop_succ_cons, List.drop_zero]
      rw [hk] at h
      exact List.cons_sublist_cons.mp h
    · simp only [hk, decide_false, cond_false, List.drop_succ_cons]
      cases h with
      | cons _ htail => exact ih htail
      | cons_cons _ _ => exact absurd rfl hk

/-- A key that is still to come is found. -/
theorem seek_spec {k : κ} {ks : List κ} {pos : Nat} {table : List α}
    (h : (k :: ks).Sublist ((table.drop pos).map key)) :
    ∃ a, table[seek key k pos table]? = some a ∧ key a = k ∧
      ks.Sublist ((table.drop (seek key k pos table + 1)).map key) := by
  have hmem : k ∈ (table.drop pos).map key := h.subset List.mem_cons_self
  obtain ⟨b, hb, hkey⟩ := List.mem_map.mp hmem
  have hlt : (table.drop pos).findIdx (fun a => decide (key a = k)) < (table.drop pos).length :=
    List.findIdx_lt_length_of_exists ⟨b, hb, decide_eq_true hkey⟩
  have hget := List.getElem?_eq_getElem hlt
  have hfound : key ((table.drop pos)[(table.drop pos).findIdx fun a => decide (key a = k)]) = k :=
    by simpa using List.findIdx_getElem (w := hlt)
  rw [List.getElem?_drop] at hget
  refine ⟨_, hget, hfound, ?_⟩
  have hrest := sublist_drop_findIdx h
  rwa [List.findIdx_map, ← List.map_drop, List.drop_drop, ← Nat.add_assoc] at hrest

theorem revised_nil (a : α) : revised key [] a = a := rfl

theorem revised_cons_of_eq {r : Revision κ α} {a : α} (h : r.key = key a)
    (rs : List (Revision κ α)) : revised key (r :: rs) a = r.apply a := by
  simp [revised, h]

theorem revised_cons_of_ne {r : Revision κ α} {a : α} (h : r.key ≠ key a)
    (rs : List (Revision κ α)) : revised key (r :: rs) a = revised key rs a := by
  simp [revised, h]

/-- An entry with another key than those of the pass stays as it is. -/
theorem revised_of_not_mem {rs : List (Revision κ α)} {a : α} (h : key a ∉ rs.map Revision.key) :
    revised key rs a = a := by
  induction rs with
  | nil => rfl
  | cons r rs ih =>
    rw [List.map_cons, List.mem_cons, not_or] at h
    rw [revised_cons_of_ne (Ne.symm h.1), ih h.2]

omit [DecidableEq κ] in
/-- Revising one entry leaves the keys as they are. -/
theorem map_key_set {table : List α} {i : Nat} {a b : α} (hget : table[i]? = some a)
    (hkey : key b = key a) : (table.set i b).map key = table.map key := by
  obtain ⟨hlt, rfl⟩ := List.getElem?_eq_some_iff.mp hget
  apply List.ext_getElem (by simp)
  intro j hj hj'
  rw [List.getElem_map, List.getElem_map, List.getElem_set]
  split
  · rename_i heq
    subst heq
    exact hkey
  · rfl

/-- Revising the entry with the first key, and then those with the other keys. -/
theorem map_revised_set {r : Revision κ α} {rs : List (Revision κ α)} {table : List α} {i : Nat}
    {a : α} (hnodup : (table.map key).Nodup) (hget : table[i]? = some a) (hkey : key a = r.key)
    (hfresh : key (r.apply a) ∉ rs.map Revision.key) :
    (table.set i (r.apply a)).map (revised key rs) = table.map (revised key (r :: rs)) := by
  obtain ⟨hlt, hat⟩ := List.getElem?_eq_some_iff.mp hget
  apply List.ext_getElem (by simp)
  intro j hj hj'
  rw [List.getElem_map, List.getElem_map, List.getElem_set]
  rw [List.length_map] at hj'
  split
  · -- the entry that was found
    rename_i heq
    subst heq
    rw [revised_of_not_mem hfresh, hat, revised_cons_of_eq hkey.symm]
  · rename_i hne
    rw [revised_cons_of_ne]
    intro heq
    -- no other entry has the key
    have hi : i < (table.map key).length := by
      rwa [List.length_map]
    have hj : j < (table.map key).length := by
      rwa [List.length_map]
    have hsame : (table.map key)[i] = (table.map key)[j] := by
      rw [List.getElem_map, List.getElem_map, hat, hkey, heq]
    exact hne (hnodup.getElem_inj_iff.mp hsame)

/-- **A pass in the order of the table.** The induction is on the revisions; each leaves the
    keys as they are. -/
theorem revise_eq {rs : List (Revision κ α)} {pos : Nat} {table : List α}
    (hnodup : (table.map key).Nodup)
    (hkeys : (rs.map Revision.key).Sublist ((table.drop pos).map key))
    (hkeep : ∀ r ∈ rs, ∀ a, key (r.apply a) = key a) :
    revise key pos rs table = some (table.map (revised key rs)) := by
  induction rs generalizing pos table with
  | nil => rw [revise, List.map_id'' revised_nil]
  | cons r rs ih =>
    rw [List.map_cons] at hkeys
    obtain ⟨a, hget, hkey, hrest⟩ := seek_spec hkeys
    have hsame : key (r.apply a) = key a := hkeep r List.mem_cons_self a
    have hmap := map_key_set hget hsame
    rw [revise]
    simp only [hget]
    -- the keys that follow are still to come
    have hlater : (rs.map Revision.key).Sublist
        (((table.set (seek key r.key pos table) (r.apply a)).drop
          (seek key r.key pos table)).map key) := by
      rw [List.map_drop, hmap, ← List.map_drop]
      exact hrest.trans ((List.drop_sublist_drop_left table (Nat.le_succ _)).map key)
    have hfresh : key (r.apply a) ∉ rs.map Revision.key := by
      rw [hsame, hkey]
      exact (List.nodup_cons.mp (hkeys.nodup (hnodup.sublist
        ((List.drop_sublist pos table).map key)))).1
    rw [ih (by rwa [hmap]) hlater fun r' hr' => hkeep r' (List.mem_cons_of_mem _ hr'),
      map_revised_set hnodup hget hkey hfresh]

/-- A pass over all the keys of a table revises every entry. -/
theorem map_revised_eq_zipWith {rs : List (Revision κ α)} {table : List α}
    (hnodup : (table.map key).Nodup) (hkeys : rs.map Revision.key = table.map key) :
    table.map (revised key rs) = List.zipWith Revision.apply rs table := by
  induction rs generalizing table with
  | nil =>
    cases table with
    | nil => rfl
    | cons => cases hkeys
  | cons r rs ih =>
    cases table with
    | nil => cases hkeys
    | cons a table =>
      rw [List.map_cons, List.map_cons, List.cons.injEq] at hkeys
      rw [List.map_cons, List.nodup_cons] at hnodup
      have htail : table.map (revised key (r :: rs)) = table.map (revised key rs) := by
        apply List.map_congr_left
        intro b hb
        apply revised_cons_of_ne
        rw [hkeys.1]
        exact fun heq => hnodup.1 (heq ▸ List.mem_map_of_mem hb)
      rw [List.map_cons, revised_cons_of_eq hkeys.1, htail, ih hnodup.2 hkeys.2,
        List.zipWith_cons_cons]

end

end SdkSnmpd.Lib
