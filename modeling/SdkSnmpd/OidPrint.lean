import SdkSnmpd.Printf

/-!
# Object Identifiers to Text

`oid_ntoa` of `utils.c` prints the subids with a sign, into a static buffer of ten characters for
each subid and two more. A text that is too long is cut off.

## Contents

- `oidNtoa`: the text in the buffer.
- `oidNtoa_bytes`: the text that is meant, or its start.
- `oidAtonFrom_cut`: no OID is read back from a part of its text.
- `lossless_iff`: which OIDs are read back.
-/

namespace SdkSnmpd

/-! ## `oid_ntoa` -/

/-- The size of the static buffer. -/
def oidNtoaSize : Nat := maxNrSubids * 10 + 2

/-- The loop over the subids, after `text` has been printed. It ends early when the buffer is
    full. -/
def oidNtoaFrom : (text : List UInt8) → List UInt32 → List UInt8
  | text, [] => text
  | text, subid :: subids =>
      let piece := 0x2E :: intText subid.toInt32
      let printed := text ++ piece.take (oidNtoaSize - text.length - 1)
      if text.length + piece.length ≥ oidNtoaSize then printed else oidNtoaFrom printed subids

def oidNtoa (oid : Oid) : CString := .ofList (oidNtoaFrom [] oid.subidList)

/-- The text that is meant. -/
def dottedText (subids : List UInt32) : List UInt8 :=
  subids.flatMap fun subid => 0x2E :: intText subid.toInt32

theorem dottedText_cons (subid : UInt32) (subids : List UInt32) :
    dottedText (subid :: subids) = 0x2E :: (intText subid.toInt32 ++ dottedText subids) := rfl

/-- What follows a number in the text is a dot, if anything. -/
theorem endsNumber_dottedText (subids : List UInt32) : EndsNumber (dottedText subids) := by
  cases subids with
  | nil => exact endsNumber_nil
  | cons subid subids => exact endsNumber_dot _

/-- The loop prints the text, as far as the buffer goes. The induction is on the subids. -/
theorem oidNtoaFrom_eq (subids : List UInt32) {text : List UInt8} (h : text.length < oidNtoaSize) :
    oidNtoaFrom text subids = (text ++ dottedText subids).take (oidNtoaSize - 1) := by
  induction subids generalizing text with
  | nil =>
    rw [dottedText, List.flatMap_nil, List.append_nil, List.take_of_length_le (by omega)]
    rfl
  | cons subid subids ih =>
    rw [oidNtoaFrom]
    split
    · -- the piece is cut off
      rename_i hfull
      have htext : text.take (oidNtoaSize - 1) = text := List.take_of_length_le (by omega)
      rw [dottedText, List.flatMap_cons, ← List.append_assoc, List.take_append_of_le_length
        (by rw [List.length_append]; omega), List.take_append, htext, Nat.sub_right_comm]
    · rename_i hfits
      have hpiece : (0x2E :: intText subid.toInt32).take (oidNtoaSize - text.length - 1) =
          0x2E :: intText subid.toInt32 := List.take_of_length_le (by omega)
      rw [hpiece, ih (by rw [List.length_append]; omega), List.append_assoc]
      rfl

theorem zero_notMem_dottedText (subids : List UInt32) : (0 : UInt8) ∉ dottedText subids := by
  intro h
  obtain ⟨subid, -, hpiece⟩ := List.mem_flatMap.mp h
  rw [List.mem_cons] at hpiece
  rcases hpiece with hdot | htext
  · exact absurd hdot (by decide)
  · exact zero_notMem_intText _ htext

/-- **What is printed**: the text, as far as there is room in front of the NUL. -/
theorem oidNtoa_bytes (oid : Oid) :
    (oidNtoa oid).bytes = (dottedText oid.subidList).take (oidNtoaSize - 1) := by
  have hloop := oidNtoaFrom_eq oid.subidList (show ([] : List UInt8).length < oidNtoaSize by decide)
  rw [List.nil_append] at hloop
  change (oidNtoaFrom [] oid.subidList).takeWhile (· ≠ 0) = _
  rw [hloop, List.takeWhile_eq_self_iff]
  intro b hb
  have hne : b ≠ 0 := fun h => zero_notMem_dottedText oid.subidList (h ▸ List.mem_of_mem_take hb)
  simpa using hne

/-! ## The text read back -/

/-- The whole text is read back, if the list has room for the subids. -/
theorem oidAtonFrom_dottedText {subids : List UInt32} {room : Nat} (h : subids.length ≤ room) :
    oidAtonFrom room (dottedText subids) = some subids := by
  induction subids generalizing room with
  | nil => cases room <;> rfl
  | cons subid subids ih =>
    obtain ⟨room, rfl⟩ := Nat.exists_eq_add_of_le' (Nat.le_trans (Nat.le_add_left 1 _) h)
    have hne : intText subid.toInt32 ++ dottedText subids ≠ [] := by
      rw [ne_eq, List.append_eq_nil_iff, not_and_or]
      exact .inl (intText_ne_nil _)
    rw [dottedText_cons, oidAtonFrom, if_neg (by decide), if_neg hne,
      strtoul_intText _ (endsNumber_dottedText subids)]
    exact congrArg (Option.map (subid :: ·)) (ih (Nat.le_of_succ_le_succ h))

/-- **A part of the text** is not read back as the OID, however much room there is. The induction is
    on the subids: the cut is in the first one, or the first one is complete. -/
theorem oidAtonFrom_cut {subids : List UInt32} {text tail : List UInt8} (htail : tail ≠ [])
    (h : dottedText subids = text ++ tail) (room : Nat) : oidAtonFrom room text ≠ some subids := by
  induction subids generalizing text room with
  | nil => exact absurd (List.append_eq_nil_iff.mp h.symm).2 htail
  | cons subid subids ih =>
    cases text with
    | nil => cases room <;> simp [oidAtonFrom]
    | cons c text =>
      rw [dottedText_cons, List.cons_append, List.cons.injEq] at h
      obtain ⟨rfl, h⟩ := h
      cases room with
      | zero => simp [oidAtonFrom]
      | succ room =>
        rw [oidAtonFrom, if_neg (by decide)]
        split_ifs with hnil
        · simp
        dsimp only
        intro hsome
        obtain ⟨subids', hrest, hcons⟩ := Option.map_eq_some_iff.mp hsome
        rw [List.cons.injEq] at hcons
        obtain ⟨hvalue, rfl⟩ := hcons
        rcases List.append_eq_append_iff.mp h with ⟨rest, rfl, htext⟩ | ⟨rest, hint, rfl⟩
        · -- the first number is complete
          have hends : EndsNumber rest := by
            intro b hb
            apply endsNumber_dottedText subids' b
            rw [htext]
            cases rest with
            | nil => cases hb
            | cons c rest => exact hb
          rw [strtoul_intText _ hends] at hrest
          exact ih htext room hrest
        · by_cases hcut : rest = []
          · -- nothing of the second number is left
            subst hcut
            rw [List.append_nil] at hint
            have hread := strtoul_intText subid.toInt32 endsNumber_nil
            rw [List.append_nil, hint] at hread
            rw [hread] at hrest
            exact ih rfl room hrest
          · rcases strtoul_of_cut hnil hcut hint with hminus | hother
            · -- the minus sign is no dot
              rw [hminus] at hrest
              cases room <;> simp [oidAtonFrom] at hrest
            · exact hother hvalue

/-! ## The length of the text -/

/-- The characters that are printed for a subid: a dot, a sign if it is negative as an `int`, and
    decimal digits. -/
def printedWidth (subid : UInt32) : Nat :=
  (if subid.toInt32 < 0 then 2 else 1) + (Nat.log 10 subid.toInt32.toInt.natAbs + 1)

def printedLength : List UInt32 → Nat
  | [] => 0
  | subid :: subids => printedWidth subid + printedLength subids

theorem length_dottedText (subids : List UInt32) :
    (dottedText subids).length = printedLength subids := by
  induction subids with
  | nil => rfl
  | cons subid subids ih =>
    rw [dottedText_cons, List.length_cons, List.length_append, ih, printedLength, printedWidth,
      intText]
    split
    · rw [List.length_cons, length_decimal]
      omega
    · rw [length_decimal]
      omega

/-! ## Printing without a loss -/

/-- The buffer has room for the whole text. -/
def PrintsAll (oid : Oid) : Prop := (oidNtoa oid).bytes = dottedText oid.subidList

/-- `oid_aton` finds the subids in the printed text. -/
def ReadsBack (oid : Oid) : Prop :=
  ∃ oid', oidAton (oidNtoa oid) = some oid' ∧ oid'.subidList = oid.subidList

theorem printsAll_iff (oid : Oid) : PrintsAll oid ↔ printedLength oid.subidList < oidNtoaSize := by
  have hsize : 1 ≤ oidNtoaSize := by decide
  rw [PrintsAll, oidNtoa_bytes, List.take_eq_self_iff, length_dottedText]
  omega

/-- The text of an OID is accepted if its first two subids make up an octet. -/
theorem oidAton_of_bytes {str : CString} {oid : Oid} (hbytes : str.bytes = dottedText oid.subidList)
    (htwo : 2 ≤ oid.subidList.length) (hroom : oid.subidList.length ≤ maxNrSubids)
    (hstart : (oid.subidList.getD 0 0).toNat * 40 + (oid.subidList.getD 1 0).toNat ≤ 0xFF) :
    oidAton str = some ⟨oid.subidList, 0⟩ := by
  have hoctet : ¬ oid.subidList.getD 0 0 * 40 + oid.subidList.getD 1 0 > 0xFF := by
    rw [gt_iff_lt, UInt32.lt_iff_toNat_lt, UInt32.toNat_add, UInt32.toNat_mul]
    simp only [UInt32.reduceToNat]
    omega
  unfold oidAton
  rw [hbytes, oidAtonFrom_dottedText hroom]
  dsimp only
  rw [if_neg (not_or.mpr ⟨Nat.not_lt.mpr htwo, hoctet⟩)]

/-- What is read from a text are the subids that the loop has found. -/
theorem oidAtonFrom_of_oidAton {str : CString} {oid : Oid} (h : oidAton str = some oid) :
    oidAtonFrom maxNrSubids str.bytes = some oid.subidList := by
  unfold oidAton at h
  split at h
  · cases h
  · rename_i subids hsubids
    split_ifs at h
    cases h
    exact hsubids

/-- The text is read back exactly if all of it is printed. -/
theorem readsBack_iff_printsAll {oid : Oid} (htwo : 2 ≤ oid.subidList.length)
    (hroom : oid.subidList.length ≤ maxNrSubids)
    (hstart : (oid.subidList.getD 0 0).toNat * 40 + (oid.subidList.getD 1 0).toNat ≤ 0xFF) :
    ReadsBack oid ↔ PrintsAll oid := by
  constructor
  · rintro ⟨oid', haton, hsame⟩
    by_contra hcut
    -- the rest of the text was cut off
    have hsplit := List.take_append_drop (oidNtoaSize - 1) (dottedText oid.subidList)
    have hread := oidAtonFrom_of_oidAton haton
    rw [oidNtoa_bytes, hsame] at hread
    have htail : (dottedText oid.subidList).drop (oidNtoaSize - 1) ≠ [] := by
      intro hnil
      rw [hnil, List.append_nil] at hsplit
      exact hcut ((oidNtoa_bytes oid).trans hsplit)
    exact oidAtonFrom_cut htail hsplit.symm maxNrSubids hread
  · intro hbytes
    exact ⟨_, oidAton_of_bytes hbytes htwo hroom hstart, rfl⟩

/-- **Printing OIDs.** An OID with 2 to 16 subids, the first two of which make up an octet, is
    printed completely, and is read back, exactly if its text is shorter than the buffer. -/
theorem lossless_iff (oid : Oid) (htwo : 2 ≤ oid.subidList.length)
    (hroom : oid.subidList.length ≤ maxNrSubids)
    (hstart : (oid.subidList.getD 0 0).toNat * 40 + (oid.subidList.getD 1 0).toNat ≤ 0xFF) :
    (PrintsAll oid ↔ printedLength oid.subidList < maxNrSubids * 10 + 2) ∧
      (ReadsBack oid ↔ printedLength oid.subidList < maxNrSubids * 10 + 2) := by
  have hall : PrintsAll oid ↔ printedLength oid.subidList < maxNrSubids * 10 + 2 :=
    printsAll_iff oid
  exact ⟨hall, (readsBack_iff_printsAll htwo hroom hstart).trans hall⟩

/-- `.1.3` and fourteen times `2 ^ 31`, which is printed as `-2147483648`. -/
def wideOid : Oid := ⟨[1, 3] ++ List.replicate 14 0x80000000, 0⟩

/-- Its text takes 172 characters, and only the dot is left of the last subid. -/
theorem wideOid_not_lossless : ¬ PrintsAll wideOid ∧ ¬ ReadsBack wideOid := by
  have hcut : ¬ PrintsAll wideOid := by
    rw [printsAll_iff]
    decide
  exact ⟨hcut, fun h => hcut ((readsBack_iff_printsAll (by decide) (by decide) (by decide)).mp h)⟩

theorem lossless_iff_sdk :
    (PrintsAll ⟨[1, 3, 6, 1, 4, 1, 126, 3], 10⟩ ↔
        printedLength [1, 3, 6, 1, 4, 1, 126, 3] < maxNrSubids * 10 + 2) ∧
      (ReadsBack ⟨[1, 3, 6, 1, 4, 1, 126, 3], 10⟩ ↔
        printedLength [1, 3, 6, 1, 4, 1, 126, 3] < maxNrSubids * 10 + 2) :=
  lossless_iff ⟨[1, 3, 6, 1, 4, 1, 126, 3], 10⟩ (by decide) (by decide) (by decide)

end SdkSnmpd
