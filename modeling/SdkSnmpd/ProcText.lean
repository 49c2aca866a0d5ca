import SdkSnmpd.Lib.Fields
import SdkSnmpd.Printf

/-!
# Numbers in Text Files

`read_file`, `read_value` and `read_values` of `utils.c`, and what `get_meminfo` and `get_netinfo`
of `linux.c` read from the files below `/proc`.

## Contents

- `readFile`, `readValue`, `readValues`, `getMeminfo`, `getNetinfo`: the functions.
- `TextLine`, `fileText`: files of lines with a label and numbers.
- `readNumbers_printed`: printed numbers are read back, up to the largest that can be read.
- `getNetinfo_fileText`, `getMeminfo_fileText`: the numbers are those of the first line whose label
  ends in the name.
-/

namespace SdkSnmpd

open Lib (behind Line)

/-! ## Reading -/

/-- The string that is read from a file, unless there is no such file or nothing in it. -/
def readFile (size : Nat) (file : Option (List UInt8)) : Option (List UInt8) :=
  match file with
  | none => none
  | some bytes =>
      if bytes.take (size - 1) = [] then none
      else some ((bytes.take (size - 1)).takeWhile (· ≠ 0))

/-- The number behind a label, or 0. -/
def readValue (buffer label : List UInt8) : UInt32 :=
  match behind label buffer with
  | none => 0
  | some rest =>
      match rest.dropWhile isspace with
      | [] => 0
      | b :: text => (strtoul (b :: text)).1

/-- The loop of `read_values`. Where no number can be read, it does not get any further. -/
def readNumbers : (count : Nat) → List UInt8 → List UInt32
  | 0, _ => []
  | count + 1, text =>
      match text.dropWhile isspace with
      | [] => 0 :: readNumbers count []
      | b :: rest => (strtoul (b :: rest)).1 :: readNumbers count (strtoul (b :: rest)).2

/-- The numbers behind a label, or zeros. -/
def readValues (buffer label : List UInt8) (count : Nat) : List UInt32 :=
  match behind label buffer with
  | none => List.replicate count 0
  | some rest => readNumbers count rest

structure Meminfo where
  total : UInt32
  free : UInt32
  shared : UInt32
  buffers : UInt32
  cached : UInt32
  deriving DecidableEq

/-- `get_meminfo`, with the content of `/proc/meminfo`. -/
def getMeminfo (bufsiz : Nat) (file : Option (List UInt8)) : Meminfo :=
  match readFile bufsiz file with
  | none => ⟨0, 0, 0, 0, 0⟩
  | some buffer =>
      { total := readValue buffer (ascii "MemTotal:")
        free := readValue buffer (ascii "MemFree:")
        shared := readValue buffer (ascii "MemShared:")
        buffers := readValue buffer (ascii "Buffers:")
        cached := readValue buffer (ascii "Cached:") }

/-- What is known of one interface. -/
structure Netinfo where
  status : UInt32
  rxBytes : UInt32
  rxPackets : UInt32
  rxErrors : UInt32
  rxDrops : UInt32
  txBytes : UInt32
  txPackets : UInt32
  txErrors : UInt32
  txDrops : UInt32
  deriving DecidableEq

def iffUp : UInt16 := 0x1

def iffRunning : UInt16 := 0x40

/-- The status of an interface whose flags `ioctl` has stored, if there is a socket and it does. -/
def netStatus (flags : Option UInt16) : UInt32 :=
  match flags with
  | none => 4
  | some flags =>
      if flags &&& iffUp ≠ 0 then if flags &&& iffRunning ≠ 0 then 1 else 7
      else 2

/-- The columns of a device that are kept. -/
def netinfoOf (flags : Option UInt16) (values : List UInt32) : Netinfo where
  status := netStatus flags
  rxBytes := values.getD 0 0
  rxPackets := values.getD 1 0
  rxErrors := values.getD 2 0
  rxDrops := values.getD 3 0
  txBytes := values.getD 8 0
  txPackets := values.getD 9 0
  txErrors := values.getD 10 0
  txDrops := values.getD 11 0

/-- What `snprintf` stores into `name`, which has 16 bytes. -/
def deviceLabel (interface : List UInt8) : List UInt8 := (interface ++ ascii ":").take 15

/-- `get_netinfo`, with the content of `/proc/net/dev` and the flags of the interfaces. -/
def getNetinfo (bufsiz : Nat) (file : Option (List UInt8)) (flags : List UInt8 → Option UInt16)
    (interfaces : List (List UInt8)) : List Netinfo :=
  let buffer := (readFile bufsiz file).getD []
  interfaces.map fun interface =>
    netinfoOf (flags interface)
      (if buffer ≠ [] then readValues buffer (deviceLabel interface) 16 else List.replicate 16 0)

/-! ## Printed numbers -/

/-- Numbers in decimal, each behind some blanks. -/
def numbersText (fields : List (List UInt8 × Nat)) : List UInt8 :=
  fields.flatMap fun field => field.1 ++ decimal field.2

/-- Blanks keep the numbers apart. -/
structure Printed (fields : List (List UInt8 × Nat)) : Prop where
  blanks : ∀ field ∈ fields, ∀ b ∈ field.1, isspace b = true
  apart : ∀ field ∈ fields.tail, field.1 ≠ []

/-- The number as it is read: `strtoul` knows none beyond the largest `unsigned long`. -/
def readBack (n : Nat) : UInt32 := .ofNat (min n ulongMax)

/-- A blank ends a number. -/
theorem stops_of_isspace {rest : List UInt8} (h : ∀ b ∈ rest.head?, isspace b = true) :
    Stops rest := by
  intro b hb
  have hspace := h b hb
  have hsmall : b.toNat ≤ 0x20 := by
    simp only [isspace, Bool.or_eq_true, Bool.and_eq_true, decide_eq_true_eq, ← UInt8.toNat_inj,
      UInt8.le_iff_toNat_le, UInt8.reduceToNat] at hspace
    omega
  refine ⟨fun base _ => ?_, ?_, ?_⟩
  · have hnone : ¬ (0x30 ≤ b ∧ b ≤ 0x39) ∧ ¬ (0x41 ≤ b ∧ b ≤ 0x5A) ∧ ¬ (0x61 ≤ b ∧ b ≤ 0x7A) := by
      simp only [UInt8.le_iff_toNat_le, UInt8.reduceToNat]
      omega
    simp [digitValue, hnone.1, hnone.2.1, hnone.2.2]
  · rintro rfl
    exact absurd hsmall (by decide)
  · rintro rfl
    exact absurd hsmall (by decide)

/-- A printed number is read, and the text behind it is left. -/
theorem strtoul_decimal (n : Nat) {rest : List UInt8} (hrest : Stops rest) :
    strtoul (decimal n ++ rest) = (readBack n, rest) := by
  -- a printed number starts with no 0 and no sign, so that its base is 10
  rw [decimal, strtoul_unsigned (Lib.Radix.digits_ne_nil n)
    (fun d => Lib.Radix.digits_lt (by decide)) Lib.Radix.digits_eq_of_head hrest,
    Lib.Radix.number_digits, readBack]

/-- Blanks in front of a number are passed over. -/
theorem dropWhile_decimal {blanks : List UInt8} (h : ∀ b ∈ blanks, isspace b = true) (n : Nat)
    (rest : List UInt8) :
    (blanks ++ (decimal n ++ rest)).dropWhile isspace = decimal n ++ rest := by
  obtain ⟨b, tail, hcons⟩ := List.exists_cons_of_ne_nil (decimal_ne_nil n)
  obtain ⟨d, hd, hdigit⟩ := List.mem_map.mp (show b ∈ decimal n from hcons ▸ List.mem_cons_self)
  -- a digit is no blank
  have hspace := (asciiDigit_spec (Lib.Radix.digits_lt (by decide) hd)).1
  rw [List.dropWhile_append_of_pos h, hcons, List.cons_append,
    List.dropWhile_cons_of_neg (by rw [← hdigit, hspace]; exact Bool.false_ne_true)]

/-- **Numbers are read back**, from the first on. The induction is on the numbers. -/
theorem readNumbers_printed {fields : List (List UInt8 × Nat)} (h : Printed fields)
    {rest : List UInt8} (hrest : ∀ b ∈ rest.head?, isspace b = true) {count : Nat}
    (hcount : count ≤ fields.length) :
    readNumbers count (numbersText fields ++ rest) =
      (fields.take count).map fun field => readBack field.2 := by
  induction fields generalizing count with
  | nil =>
    obtain rfl := Nat.le_zero.mp hcount
    rfl
  | cons field fields ih =>
    cases count with
    | zero => rfl
    | succ count =>
      obtain ⟨hblanks, hlater⟩ := List.forall_mem_cons.mp h.blanks
      have hprinted : Printed fields :=
        ⟨hlater, fun field hfield => h.apart field (List.mem_of_mem_tail hfield)⟩
      -- the number ends where the blanks of the next one begin
      have hends : ∀ b ∈ (numbersText fields ++ rest).head?, isspace b = true := by
        cases fields with
        | nil => exact hrest
        | cons next fields =>
          obtain ⟨b, blanks, hcons⟩ :=
            List.exists_cons_of_ne_nil (h.apart next List.mem_cons_self)
          intro b' hb'
          simp only [numbersText, List.flatMap_cons, hcons, List.cons_append, List.head?_cons,
            Option.mem_def, Option.some.injEq] at hb'
          exact hb' ▸ hlater next List.mem_cons_self b (hcons ▸ List.mem_cons_self)
      have htext : numbersText (field :: fields) ++ rest =
          field.1 ++ (decimal field.2 ++ (numbersText fields ++ rest)) := by
        simp only [numbersText, List.flatMap_cons, List.append_assoc]
      have hstrtoul := strtoul_decimal field.2 (stops_of_isspace hends)
      have hdrop := dropWhile_decimal hblanks field.2 (numbersText fields ++ rest)
      obtain ⟨b, tail, hcons⟩ := List.exists_cons_of_ne_nil (decimal_ne_nil field.2)
      rw [hcons, List.cons_append] at hdrop hstrtoul
      rw [htext, readNumbers, hcons, List.cons_append, hdrop]
      simp only [hstrtoul]
      rw [ih hprinted (Nat.le_of_succ_le_succ hcount), List.take_succ_cons, List.map_cons]

/-! ## Files of labelled numbers -/

/-- A line of a label, numbers and a unit. -/
structure TextLine where
  label : List UInt8
  fields : List (List UInt8 × Nat)
  unit : List UInt8

def TextLine.line (l : TextLine) : Line UInt8 := ⟨l.label, numbersText l.fields ++ l.unit⟩

/-- The lines of a file, behind a heading. -/
def fileText (heading : List UInt8) (lines : List TextLine) : List UInt8 :=
  heading ++ (lines.map TextLine.line).flatMap (Line.text 0x3A 0x0A)

/-- The only colon of a line is the one behind its label. -/
structure TextLine.Regular (l : TextLine) : Prop where
  label : 0x3A ∉ l.label
  printed : Printed l.fields
  unit : 0x3A ∉ l.unit
  apart : ∀ b ∈ l.unit.head?, isspace b = true

/-- A file that `read_file` reads as a whole. -/
structure ReadsWhole (bufsiz : Nat) (heading : List UInt8) (lines : List TextLine) : Prop where
  plain : 0x3A ∉ heading
  start : heading = [] ∨ ∃ text, heading = text ++ [0x0A]
  regular : ∀ l ∈ lines, l.Regular
  nonempty : fileText heading lines ≠ []
  string : 0 ∉ fileText heading lines
  fits : (fileText heading lines).length < bufsiz

/-- The numbers of the first line whose label ends in a name. -/
def numbersOf (lines : List TextLine) (name : List UInt8) (count : Nat) : List UInt32 :=
  match lines.find? fun l => name <:+ l.label with
  | none => List.replicate count 0
  | some l => (l.fields.take count).map fun field => readBack field.2

theorem decimal_no_colon (n : Nat) : (0x3A : UInt8) ∉ decimal n := by
  intro h
  obtain ⟨d, hd, hcolon⟩ := List.mem_map.mp h
  have hlt := Lib.Radix.digits_lt (by decide) hd
  have hdigit := toNat_asciiDigit hlt
  rw [hcolon] at hdigit
  simp only [UInt8.reduceToNat] at hdigit
  omega

theorem TextLine.Regular.plain {l : TextLine} (h : l.Regular) : l.line.Plain 0x3A where
  label := h.label
  body := by
    intro hmem
    rcases List.mem_append.mp hmem with hnumbers | hunit
    · obtain ⟨field, hfield, hmem⟩ := List.mem_flatMap.mp hnumbers
      rcases List.mem_append.mp hmem with hblank | hnumber
      · exact absurd (h.printed.blanks field hfield _ hblank) (by decide)
      · exact decimal_no_colon field.2 hnumber
    · exact h.unit hunit

/-- **Numbers behind a label**, if every line has enough of them. -/
theorem readValues_fileText {bufsiz : Nat} {heading : List UInt8} {lines : List TextLine}
    (h : ReadsWhole bufsiz heading lines) {name : List UInt8}
    (hname : 0x3A ∉ name ∧ 0x0A ∉ name) {count : Nat}
    (hcount : ∀ l ∈ lines, count ≤ l.fields.length) :
    readValues (fileText heading lines) (name ++ [0x3A]) count = numbersOf lines name count := by
  -- the only colon of a line is behind its label, so that the first match is a label
  have hplain : ∀ line ∈ lines.map TextLine.line, line.Plain 0x3A := by
    intro line hline
    obtain ⟨l, hl, rfl⟩ := List.mem_map.mp hline
    exact (h.regular l hl).plain
  have hbehind := Lib.behind_lines hname.1 hname.2 (by decide) hplain h.plain h.start
  rw [List.find?_map] at hbehind
  unfold readValues fileText numbersOf
  cases hfind : lines.find? fun l => name <:+ l.label with
  | none =>
    have hnone : lines.find? ((fun line : Line UInt8 => decide (name <:+ line.label)) ∘
        TextLine.line) = none := hfind
    rw [hnone] at hbehind
    change behind _ _ = none at hbehind
    rw [hbehind]
  | some l =>
    have hsome : lines.find? ((fun line : Line UInt8 => decide (name <:+ line.label)) ∘
        TextLine.line) = some l := hfind
    rw [hsome] at hbehind
    obtain ⟨rest, hbehind⟩ := hbehind
    have hl := List.mem_of_find?_eq_some hfind
    have hregular := h.regular l hl
    -- a blank of the unit or the end of the line is behind the last number
    have hends : ∀ b ∈ (l.unit ++ 0x0A :: rest).head?, isspace b = true := by
      cases hunit : l.unit with
      | nil =>
        intro b hb
        obtain rfl : 0x0A = b := by simpa using hb
        rfl
      | cons b unit =>
        intro b' hb'
        exact hregular.apart b' (by rw [hunit]; simpa using hb')
    have htext : l.line.body ++ 0x0A :: rest = numbersText l.fields ++ (l.unit ++ 0x0A :: rest) :=
      List.append_assoc _ _ _
    rw [hbehind]
    dsimp only
    rw [htext, readNumbers_printed hregular.printed hends (hcount l hl)]

/-- One value, and the first of several. -/
theorem readValues_one (buffer label : List UInt8) :
    readValues buffer label 1 = [readValue buffer label] := by
  unfold readValues readValue
  cases behind label buffer with
  | none => rfl
  | some rest =>
    simp only [readNumbers]
    split <;> rfl

/-- The file is read as it is. -/
theorem ReadsWhole.readFile {bufsiz : Nat} {heading : List UInt8} {lines : List TextLine}
    (h : ReadsWhole bufsiz heading lines) :
    readFile bufsiz (some (fileText heading lines)) = some (fileText heading lines) := by
  have hfits := h.fits
  -- without a NUL, the string is the whole buffer
  have hstring : (fileText heading lines).takeWhile (· ≠ 0) = fileText heading lines := by
    rw [List.takeWhile_eq_self_iff]
    intro b hb
    have hb0 : b ≠ 0 := fun hzero => h.string (hzero ▸ hb)
    simpa using hb0
  have htake : (fileText heading lines).take (bufsiz - 1) = fileText heading lines :=
    List.take_of_length_le (by omega)
  simp only [SdkSnmpd.readFile, htake, if_neg h.nonempty, hstring]

/-! ## Interfaces -/

/-- The name of an interface that leaves room for the colon. -/
structure DeviceName (name : List UInt8) : Prop where
  colon : 0x3A ∉ name
  newline : 0x0A ∉ name
  length : name.length ≤ 14

/-- The record of an interface does not depend on the others. -/
theorem getNetinfo_getElem? {bufsiz : Nat} {file : Option (List UInt8)}
    {flags : List UInt8 → Option UInt16} {interfaces : List (List UInt8)} {i : Nat}
    {name : List UInt8} (hname : interfaces[i]? = some name) :
    (getNetinfo bufsiz file flags interfaces)[i]? = some (netinfoOf (flags name)
      (if (readFile bufsiz file).getD [] ≠ []
        then readValues ((readFile bufsiz file).getD []) (deviceLabel name) 16
        else List.replicate 16 0)) := by
  rw [getNetinfo, List.getElem?_map, hname]
  rfl

/-- **Interfaces.** In a file with 16 numbers for each device, every interface whose name leaves room
    for the colon gets the numbers of the first device whose name ends in its own, or zeros if there
    is none. -/
theorem getNetinfo_fileText {bufsiz : Nat} {heading : List UInt8} {lines : List TextLine}
    (h : ReadsWhole bufsiz heading lines) (hcount : ∀ l ∈ lines, 16 ≤ l.fields.length)
    (flags : List UInt8 → Option UInt16) (interfaces : List (List UInt8)) :
    (getNetinfo bufsiz (some (fileText heading lines)) flags interfaces).length =
        interfaces.length ∧
      ∀ (i : Nat) (name : List UInt8), interfaces[i]? = some name → DeviceName name →
        (getNetinfo bufsiz (some (fileText heading lines)) flags interfaces)[i]? =
          some (netinfoOf (flags name) (numbersOf lines name 16)) := by
  refine ⟨List.length_map _, fun i name hname hdevice => ?_⟩
  obtain ⟨hcolon, hnewline, hlength⟩ := hdevice
  -- the label is not cut
  have hlabel : deviceLabel name = name ++ [0x3A] := by
    rw [deviceLabel, List.take_of_length_le (by simp [ascii]; omega)]
    rfl
  rw [getNetinfo_getElem? hname, h.readFile, Option.getD_some, if_pos h.nonempty, hlabel,
    readValues_fileText h ⟨hcolon, hnewline⟩ hcount]

/-- One device. -/
def loopback : TextLine := ⟨ascii "  lo", List.replicate 16 (ascii " ", 7), []⟩

theorem readsWhole_loopback : ReadsWhole 8192 (ascii "face\n") [loopback] where
  plain := by decide
  start := .inr ⟨ascii "face", rfl⟩
  regular := by
    intro l hl
    obtain rfl := List.mem_singleton.mp hl
    exact ⟨by decide, ⟨by decide +kernel, by decide⟩, by decide, by decide +kernel⟩
  nonempty := by decide
  string := by decide +kernel
  fits := by decide +kernel

/-- A device whose name has 15 characters. -/
def longDevice : List UInt8 := ascii "wlan0123456789a"

/-- The long name changes nothing for the others. -/
theorem getNetinfo_fileText_loopback :
    (getNetinfo 8192 (some (fileText (ascii "face\n") [loopback])) (fun _ => some 0x41)
        [longDevice, ascii "lo"])[1]? =
      some (netinfoOf (some 0x41) (numbersOf [loopback] (ascii "lo") 16)) :=
  (getNetinfo_fileText readsWhole_loopback (by decide) _ _).2 1 (ascii "lo") rfl
    ⟨by decide, by decide, by decide⟩

/-- `strtoul` does not get past a colon. -/
theorem readNumbers_colon (count : Nat) (text : List UInt8) :
    readNumbers count (0x3A :: text) = List.replicate count 0 := by
  have hdrop : (0x3A :: text).dropWhile isspace = 0x3A :: text :=
    List.dropWhile_cons_of_neg (by decide)
  have hsign : ¬ ((0x3A :: text).head? = some 0x2B ∨ (0x3A :: text).head? = some 0x2D) := by
    rintro (h | h) <;> exact absurd (Option.some.inj h) (by decide)
  have hbase : numberBase (0x3A :: text) = (10, 0x3A :: text) := by
    match text with
    | [] => rfl
    | [_] => rfl
    | _ :: _ :: _ => rfl
  have hdigits : readDigits 10 (0x3A :: text) = ([], 0x3A :: text) := rfl
  have hstuck : strtoul (0x3A :: text) = (0, 0x3A :: text) := by
    simp only [strtoul, hdrop, if_neg hsign, hbase, hdigits]
  induction count with
  | zero => rfl
  | succ count ih =>
    simp only [readNumbers, hdrop, hstuck, ih]
    rfl

/-- **Long names.** A name of 15 characters leaves no room for the colon. Where the file has it with
    a colon behind it, the colon is then taken for the first number, and all numbers are zeros. -/
theorem getNetinfo_longName (bufsiz : Nat) (file : Option (List UInt8))
    (flags : List UInt8 → Option UInt16) (interfaces : List (List UInt8)) {i : Nat}
    {name : List UInt8} (hname : interfaces[i]? = some name) (hlength : name.length = 15)
    (hfile : ∀ buffer, readFile bufsiz file = some buffer →
      ∀ before rest, buffer = before ++ name ++ rest → rest.head? = some 0x3A) :
    (getNetinfo bufsiz file flags interfaces)[i]? =
      some (netinfoOf (flags name) (List.replicate 16 0)) := by
  -- the cut takes the colon off
  have hlabel : deviceLabel name = name := by
    rw [deviceLabel, ← hlength, List.take_left]
  rw [getNetinfo_getElem? hname, hlabel]
  refine congrArg (fun values => some (netinfoOf (flags name) values)) ?_
  split
  · rename_i hne
    cases hread : readFile bufsiz file with
    | none => exact absurd (by rw [hread]; rfl) hne
    | some buffer =>
      rw [Option.getD_some, readValues]
      cases hbehind : behind name buffer with
      | none => rfl
      | some rest =>
        -- wherever the name is found, the colon is next
        obtain ⟨found, hfound, rfl⟩ := Option.map_eq_some_iff.mp hbehind
        obtain ⟨⟨word, htext, hword⟩, -⟩ := List.dropInfix?_eq_some_iff.mp hfound
        rw [eq_of_beq hword] at htext
        have hcolon := hfile buffer hread found.1 found.2 htext
        obtain ⟨text, hrest⟩ := List.head?_eq_some_iff.mp hcolon
        rw [hrest]
        exact readNumbers_colon 16 text
  · rfl

theorem getNetinfo_longName_longDevice :
    (getNetinfo 8192 (some (longDevice ++ ascii ": 5 6\n")) (fun _ => none)
        [ascii "lo", longDevice])[1]? =
      some (netinfoOf none (List.replicate 16 0)) := by
  refine getNetinfo_longName 8192 _ _ _ rfl rfl fun buffer hread before rest hsplit => ?_
  have hbuffer : readFile 8192 (some (longDevice ++ ascii ": 5 6\n")) =
      some (longDevice ++ ascii ": 5 6\n") := by decide +kernel
  rw [hbuffer, Option.some.injEq] at hread
  subst hread
  -- the name is found at one place only
  have hall : ∀ k < 7, ((longDevice ++ ascii ": 5 6\n").drop k).take 15 = longDevice →
      ((longDevice ++ ascii ": 5 6\n").drop (k + 15)).head? = some 0x3A := by decide +kernel
  have hlength := congrArg List.length hsplit
  have hdevice : longDevice.length = 15 := rfl
  have htail : (ascii ": 5 6\n").length = 6 := rfl
  simp only [List.length_append, hdevice, htail] at hlength
  have hfound := hall before.length (by omega)
  rw [hsplit, List.append_assoc, List.drop_left, List.take_left' hdevice, ← List.append_assoc,
    List.drop_left' (by rw [List.length_append, hdevice])] at hfound
  exact hfound rfl

/-! ## Memory -/

/-- The number of the first line whose label ends in a name. -/
def numberOf (lines : List TextLine) (name : String) : UInt32 :=
  (numbersOf lines (ascii name) 1).headD 0

/-- **Memory.** Every value is the number of the first line whose label ends in its name, or 0 if
    there is none. -/
theorem getMeminfo_fileText {bufsiz : Nat} {heading : List UInt8} {lines : List TextLine}
    (h : ReadsWhole bufsiz heading lines) (hcount : ∀ l ∈ lines, 1 ≤ l.fields.length) :
    getMeminfo bufsiz (some (fileText heading lines)) =
      { total := numberOf lines "MemTotal"
        free := numberOf lines "MemFree"
        shared := numberOf lines "MemShared"
        buffers := numberOf lines "Buffers"
        cached := numberOf lines "Cached" } := by
  have hvalue : ∀ name : String, 0x3A ∉ ascii name ∧ 0x0A ∉ ascii name →
      readValue (fileText heading lines) (ascii name ++ [0x3A]) = numberOf lines name := by
    intro name hname
    rw [numberOf, ← readValues_fileText h hname hcount, readValues_one]
    rfl
  rw [getMeminfo, h.readFile]
  dsimp only
  rw [← hvalue "MemTotal" (by decide), ← hvalue "MemFree" (by decide),
    ← hvalue "MemShared" (by decide), ← hvalue "Buffers" (by decide),
    ← hvalue "Cached" (by decide)]
  rfl

/-- `Cached` is the end of another label, too. -/
def cachedLines : List TextLine :=
  [⟨ascii "SwapCached", [(ascii "  ", 9)], ascii " kB"⟩,
    ⟨ascii "Cached", [(ascii "   ", 7)], ascii " kB"⟩]

theorem getMeminfo_fileText_cachedLines :
    getMeminfo 8192 (some (fileText [] cachedLines)) =
      { total := numberOf cachedLines "MemTotal"
        free := numberOf cachedLines "MemFree"
        shared := numberOf cachedLines "MemShared"
        buffers := numberOf cachedLines "Buffers"
        cached := numberOf cachedLines "Cached" } := by
  have hwhole : ReadsWhole 8192 [] cachedLines := {
    plain := List.not_mem_nil
    start := .inl rfl
    regular := by
      intro l hl
      simp only [cachedLines, List.mem_cons, List.not_mem_nil, or_false] at hl
      rcases hl with rfl | rfl <;>
        exact ⟨by decide, ⟨by decide +kernel, by decide⟩, by decide, by decide +kernel⟩
    nonempty := by decide
    string := by decide +kernel
    fits := by decide +kernel }
  exact getMeminfo_fileText hwhole (by decide)

end SdkSnmpd
