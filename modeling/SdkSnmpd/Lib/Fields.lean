import Mathlib.Data.List.Infix

/-!
# Texts with Labels

A text consists of lines, each of a label, a separator and a body. A label is searched for together
with the separator behind it.

## Contents

- `behind`: the text behind the first occurrence of a word.
- `behind_label`: the search passes from one separator to the next.
- `behind_lines`: it ends at the first line whose label ends in the label that is searched for.
-/

namespace SdkSnmpd.Lib

variable {α : Type}

/-! ## Separators -/

section

variable {sep newline : α} {label : List α}

/-- The first separator is where it is. -/
theorem append_sep_inj {xs ys us vs : List α} (hx : sep ∉ xs) (hy : sep ∉ ys)
    (h : xs ++ sep :: us = ys ++ sep :: vs) : xs = ys := by
  rcases List.append_eq_append_iff.mp h with ⟨as, rfl, has⟩ | ⟨as, rfl, has⟩
  · cases as with
    | nil => exact (List.append_nil _).symm
    | cons a as =>
      rw [List.cons_append, List.cons.injEq] at has
      exact absurd (has.1 ▸ List.mem_append_right _ List.mem_cons_self) hy
  · cases as with
    | nil => exact List.append_nil _
    | cons a as =>
      rw [List.cons_append, List.cons.injEq] at has
      exact absurd (has.1 ▸ List.mem_append_right _ List.mem_cons_self) hx

/-- A label stands in front of a separator exactly if it is the text before it. -/
theorem label_sep_isPrefix_iff (hlabel : sep ∉ label) {before : List α} (hbefore : sep ∉ before)
    (rest : List α) : label ++ [sep] <+: before ++ sep :: rest ↔ label = before := by
  constructor
  · rintro ⟨tail, h⟩
    rw [List.append_assoc, List.singleton_append] at h
    exact append_sep_inj hlabel hbefore h
  · rintro rfl
    exact ⟨rest, by rw [List.append_assoc, List.singleton_append]⟩

/-- A label does not begin in the line before. -/
theorem suffix_append_newline (hlabel : newline ∉ label) (before rest : List α) :
    label <:+ before ++ newline :: rest ↔ label <:+ rest := by
  have hline : newline :: rest <:+ before ++ newline :: rest := List.suffix_append before _
  constructor
  · intro h
    rcases List.suffix_or_suffix_of_suffix h hline with hshort | hlong
    · rcases List.suffix_cons_iff.mp hshort with rfl | hrest
      · exact absurd List.mem_cons_self hlabel
      · exact hrest
    · exact absurd (hlong.subset List.mem_cons_self) hlabel
  · intro h
    exact h.trans ((List.suffix_cons newline rest).trans hline)

end

/-! ## Search -/

variable [DecidableEq α]

/-- The text behind the first occurrence of a word. -/
def behind (word text : List α) : Option (List α) := (text.dropInfix? word).map Prod.snd

theorem map_snd_go (word text before : List α) :
    (List.dropInfix?.go word text before).map Prod.snd = behind word text := by
  induction text generalizing before with
  | nil =>
    unfold behind List.dropInfix? List.dropInfix?.go
    split <;> rfl
  | cons a text ih =>
    unfold behind List.dropInfix? List.dropInfix?.go
    split
    · rw [ih, ih]
    · rfl

theorem behind_nil {word : List α} (h : word ≠ []) : behind word [] = none := by
  unfold behind List.dropInfix? List.dropInfix?.go
  rw [if_neg (by simpa using h)]
  rfl

/-- A word is found at once, or in what follows. -/
theorem behind_cons (word : List α) (a : α) (text : List α) :
    behind word (a :: text) =
      match (a :: text).dropPrefix? word with
      | some rest => some rest
      | none => behind word text := by
  rw [← map_snd_go word (a :: text) [], List.dropInfix?.go]
  cases (a :: text).dropPrefix? word with
  | none => exact map_snd_go word text [a]
  | some rest => rfl

theorem behind_of_eq_append {word text rest : List α} (h : text = word ++ rest) :
    behind word text = some rest := by
  subst h
  unfold behind
  have hfound : (word ++ rest).dropInfix? word = some ([], rest) := by
    rw [List.dropInfix?_eq_some_iff]
    exact ⟨⟨word, rfl, beq_self_eq_true word⟩, fun _ _ _ _ _ => Nat.zero_le _⟩
  rw [hfound]
  rfl

theorem behind_cons_of_not {word text : List α} {a : α} (h : ¬ word <+: a :: text) :
    behind word (a :: text) = behind word text := by
  rw [behind_cons]
  cases hdrop : (a :: text).dropPrefix? word with
  | none => rfl
  | some rest =>
    obtain ⟨word', heq, hword⟩ := List.dropPrefix?_eq_some_iff.mp hdrop
    rw [eq_of_beq hword] at heq
    exact absurd ⟨rest, heq.symm⟩ h

/-! ## Labels -/

section

variable {sep : α} {label : List α}

/-- The search up to the next separator. The induction is on the text before it. -/
theorem behind_label (hlabel : sep ∉ label) {before : List α} (hbefore : sep ∉ before)
    (rest : List α) :
    behind (label ++ [sep]) (before ++ sep :: rest) =
      if label <:+ before then some rest else behind (label ++ [sep]) rest := by
  induction before with
  | nil =>
    by_cases hempty : label = []
    · subst hempty
      rw [if_pos (List.suffix_refl _)]
      exact behind_of_eq_append rfl
    · rw [if_neg (by simpa using hempty), List.nil_append]
      refine behind_cons_of_not fun hfound => hempty ?_
      exact (label_sep_isPrefix_iff hlabel List.not_mem_nil rest).mp hfound
  | cons a before ih =>
    have hrest : sep ∉ before := fun h => hbefore (List.mem_cons_of_mem a h)
    by_cases hsame : label = a :: before
    · subst hsame
      rw [if_pos (List.suffix_refl _)]
      exact behind_of_eq_append (by simp)
    · rw [List.cons_append, behind_cons_of_not, ih hrest]
      · simp only [List.suffix_cons_iff, hsame, false_or]
      · rw [← List.cons_append, label_sep_isPrefix_iff hlabel hbefore]
        exact hsame

/-- Without a separator nothing is found. -/
theorem behind_of_not_mem {text : List α} (h : sep ∉ text) :
    behind (label ++ [sep]) text = none := by
  induction text with
  | nil => exact behind_nil (by simp)
  | cons a text ih =>
    rw [behind_cons_of_not, ih fun hmem => h (List.mem_cons_of_mem a hmem)]
    intro hfound
    exact h (hfound.subset (List.mem_append_right _ (List.mem_singleton_self sep)))

end

/-! ## Lines -/

/-- A label and what stands behind its separator. -/
structure Line (α : Type) where
  label : List α
  body : List α

section

variable {sep newline : α}

/-- The text of a line, its end included. -/
def Line.text (sep newline : α) (line : Line α) : List α :=
  line.label ++ sep :: (line.body ++ [newline])

/-- A line with one separator. -/
structure Line.Plain (sep : α) (line : Line α) : Prop where
  label : sep ∉ line.label
  body : sep ∉ line.body

/-- **A label among lines.** What is found is the body of the first line whose label ends in the
    label. `before` is a heading, or empty. The induction is on the lines. -/
theorem behind_lines {label : List α} (hsep : sep ∉ label) (hnewline : newline ∉ label)
    (hne : sep ≠ newline) {lines : List (Line α)} (hlines : ∀ line ∈ lines, line.Plain sep)
    {before : List α} (hbefore : sep ∉ before)
    (hstart : before = [] ∨ ∃ heading, before = heading ++ [newline]) :
    match lines.find? fun line => label <:+ line.label with
    | none => behind (label ++ [sep]) (before ++ lines.flatMap (Line.text sep newline)) = none
    | some line => ∃ rest, behind (label ++ [sep])
        (before ++ lines.flatMap (Line.text sep newline)) =
          some (line.body ++ newline :: rest) := by
  induction lines generalizing before with
  | nil => exact behind_of_not_mem (by simpa using hbefore)
  | cons line lines ih =>
    obtain ⟨hline, hlines⟩ := List.forall_mem_cons.mp hlines
    have htext : before ++ (line :: lines).flatMap (Line.text sep newline) =
        (before ++ line.label) ++
          sep :: ((line.body ++ [newline]) ++ lines.flatMap (Line.text sep newline)) := by
      simp only [List.flatMap_cons, Line.text, List.append_assoc, List.cons_append]
    have hsuffix : label <:+ before ++ line.label ↔ label <:+ line.label := by
      rcases hstart with rfl | ⟨heading, rfl⟩
      · rfl
      · rw [List.append_assoc, List.singleton_append, suffix_append_newline hnewline]
    rw [htext, behind_label hsep (by simpa using ⟨hbefore, hline.label⟩)]
    by_cases hfound : label <:+ line.label
    · rw [if_pos (hsuffix.mpr hfound), List.find?_cons_of_pos (by simpa using hfound)]
      exact ⟨_, by rw [List.append_assoc, List.singleton_append]⟩
    · rw [if_neg (mt hsuffix.mp hfound), List.find?_cons_of_neg (by simpa using hfound)]
      exact ih hlines (by simpa using ⟨hline.body, hne⟩) (.inr ⟨line.body, rfl⟩)

end

end SdkSnmpd.Lib
