import SdkSnmpd.Printf
import SdkSnmpd.ParserSdk

/-!
# The Control Server

`threadworker` of `server.c` reads a command into a buffer, tests the buffer against one command
after the other, and sends what is in the buffer in the end. A command that is found is overwritten
with a parameter, before the next command is tested.

## Contents

- `Worker.answer`, `threadworker`: one test, and the whole reply.
- `staysInBuffer_iff`: the buffer is a string at every use, unless 256 bytes without a NUL arrive.
- `confined_iff`: every command but `get_optical` reveals its own parameter only.
-/

namespace SdkSnmpd

open Lib (Mem)

/-! ## Commands -/

def bufferSize : Nat := 256

inductive Command where
  | hw
  | sw
  | temp
  | relay
  | optical
  | dry
  deriving DecidableEq

def Command.text : Command → List UInt8
  | .hw => ascii "get_hw"
  | .sw => ascii "get_sw"
  | .temp => ascii "get_temp"
  | .relay => ascii "get_relay"
  | .optical => ascii "get_optical"
  | .dry => ascii "get_dry"

/-- The commands in the order of the tests. -/
def commands : List Command := [.hw, .sw, .temp, .relay, .optical, .dry]

/-- The arrays of `sdk_param`. -/
inductive SdkArray where
  | opticalRelay
  | dryContact
  deriving DecidableEq

def SdkArray.size : SdkArray → Nat
  | .opticalRelay => 4
  | .dryContact => 20

/-- The element that is read at an index. `dry_contact` stands directly behind `optical_relay`, and
    an `int` and a `long` both have four bytes. -/
def SdkParam.element (sdk : SdkParam) : SdkArray → Fin 20 → Int
  | .opticalRelay, i =>
      if h : i.val < 4 then (sdk.opticalRelay.get ⟨i, h⟩).toInt
      else sdk.dryContact.get ⟨i - 4, by omega⟩
  | .dryContact, i => sdk.dryContact.get i

/-- The elements that are copied to the buffer. Both loops run up to 20. -/
def Command.elements : Command → List (SdkArray × Fin 20)
  | .optical => List.ofFn fun i => (.opticalRelay, i)
  | .dry => List.ofFn fun i => (.dryContact, i)
  | _ => []

/-- What a command stores at the start of the buffer. -/
def Command.stores (sdk : SdkParam) : Command → List UInt8
  | .hw => sprintf (intText (.ofInt sdk.hw))
  | .sw => sprintf (intText (.ofInt sdk.sw))
  | .temp => sprintf (intText (.ofInt sdk.selfTemp))
  | .relay => sprintf (intText (.ofInt sdk.relay))
  | .optical => Command.optical.elements.map fun e => .ofInt (sdk.element e.1 e.2)
  | .dry => Command.dry.elements.map fun e => .ofInt (sdk.element e.1 e.2)

/-! ## The worker -/

/-- The buffer of a thread, with memory behind it. `strings` are the buffers given to `printf`,
    `strcmp` and `strlen` so far, and `elements` what has been read from the arrays. -/
structure Worker where
  buffer : Mem
  strings : List Mem
  elements : List (SdkArray × Fin 20)

namespace Worker

/-- The buffer is taken for a string. -/
def use (worker : Worker) : Worker :=
  { worker with strings := worker.strings ++ [worker.buffer] }

/-- `strcmp` finds the text in the buffer. -/
def hears (worker : Worker) (command : Command) : Bool :=
  worker.buffer.slice 0 (command.text.length + 1) = command.text ++ [0]

/-- One of the independent `if`s. -/
def answer (sdk : SdkParam) (worker : Worker) (command : Command) : Worker :=
  if worker.hears command then
    { worker.use with
      -- the next command is tested against what is stored here
      buffer := (worker.buffer.write 0 (.replicate bufferSize 0)).write 0 (command.stores sdk)
      elements := worker.elements ++ command.elements }
  else worker.use

/-- The bytes that `strlen` counts, when `mapped` bytes can be read. -/
def reply (worker : Worker) (mapped : Nat) : List UInt8 :=
  (worker.buffer.slice 0 mapped).takeWhile (· ≠ 0)

end Worker

/-- The buffer after one `read`, which takes at most `bufferSize` bytes of what has arrived. -/
def receive (heap : Mem) (arrived : List UInt8) : Mem :=
  (heap.write 0 (.replicate bufferSize 0)).write 0 (arrived.take bufferSize)

/-- What the thread makes of a message, from the `read` to the `strlen`. If the `read` fails, it
    ends at once, and there is no reply. -/
def threadworker (sdk : SdkParam) (heap : Mem) (arrived : List UInt8) : Worker :=
  (commands.foldl (Worker.answer sdk) (Worker.use ⟨receive heap arrived, [], []⟩)).use

/-! ## Strings in the buffer -/

/-- There is a NUL within the buffer. -/
def Terminated (buffer : Mem) : Prop := ∃ i < bufferSize, buffer i = 0

/-- The buffer holds the message, with zeros behind it. -/
theorem agreeBelow_receive (heap : Mem) (bytes : List UInt8) :
    Mem.AgreeBelow bufferSize (receive heap bytes) (Mem.ofList bytes) := by
  intro i hi
  by_cases hlen : i < bytes.length
  · have hmin : i < (bytes.take bufferSize).length := by
      rw [List.length_take]
      omega
    have hbyte := Mem.write_add (heap.write 0 (.replicate bufferSize 0)) _ 0 hmin
    rw [Nat.zero_add, List.getElem_take] at hbyte
    rw [receive, hbyte, Mem.ofList_of_lt hlen]
  · -- behind the message, the zero fill is left
    have hfill := Mem.write_add heap (.replicate bufferSize 0) 0
      (show i < (List.replicate bufferSize (0 : UInt8)).length by rwa [List.length_replicate])
    rw [Nat.zero_add, List.getElem_replicate] at hfill
    rw [receive, Mem.write_of_ge _ _ (by rw [List.length_take]; omega), hfill,
      Mem.ofList_of_ge (Nat.not_lt.mp hlen)]

theorem terminated_receive_iff (heap : Mem) (arrived : List UInt8) :
    Terminated (receive heap arrived) ↔
      arrived.length < bufferSize ∨ 0 ∈ arrived.take bufferSize := by
  have hbyte := agreeBelow_receive heap arrived
  constructor
  · rintro ⟨i, hi, hzero⟩
    by_cases hlen : i < arrived.length
    · rw [hbyte i hi, Mem.ofList_of_lt hlen] at hzero
      exact .inr (List.mem_take_iff_getElem.mpr ⟨i, by omega, hzero⟩)
    · exact .inl (by omega)
  · rintro (hshort | hmem)
    · -- the last byte of the buffer is left from the zero fill
      refine ⟨bufferSize - 1, by decide, ?_⟩
      rw [hbyte _ (by decide), Mem.ofList_of_ge (by omega)]
    · obtain ⟨i, hi, hzero⟩ := List.mem_take_iff_getElem.mp hmem
      refine ⟨i, by omega, ?_⟩
      rw [hbyte i (by omega), Mem.ofList_of_lt (by omega), hzero]

/-- A command stores far less than the buffer takes. -/
theorem Command.length_stores_lt (sdk : SdkParam) (command : Command) :
    (command.stores sdk).length < bufferSize := by
  -- eleven characters of a number, and its NUL
  have htext : ∀ v, (sprintf (intText v)).length < bufferSize := by
    intro v
    have hlen := length_intText_le v
    rw [sprintf, List.length_append, List.length_singleton, bufferSize]
    omega
  cases command with
  | hw | sw | temp | relay => exact htext _
  | optical | dry =>
    rw [Command.stores, List.length_map, Command.elements, List.length_ofFn]
    decide

/-- What is stored over the zero fill leaves a NUL at the end. -/
theorem terminated_stores (sdk : SdkParam) (command : Command) (buffer : Mem) :
    Terminated ((buffer.write 0 (.replicate bufferSize 0)).write 0 (command.stores sdk)) := by
  have hlen := command.length_stores_lt sdk
  have hcleared := (terminated_receive_iff buffer (command.stores sdk)).mpr (.inl hlen)
  rwa [receive, List.take_of_length_le hlen.le] at hcleared

theorem Worker.buffer_answer (sdk : SdkParam) (worker : Worker) (command : Command) :
    (worker.answer sdk command).buffer =
      if worker.hears command then
        (worker.buffer.write 0 (.replicate bufferSize 0)).write 0 (command.stores sdk)
      else worker.buffer := by
  unfold answer
  split <;> rfl

theorem Worker.strings_answer (sdk : SdkParam) (worker : Worker) (command : Command) :
    (worker.answer sdk command).strings = worker.strings ++ [worker.buffer] := by
  unfold answer
  split <;> rfl

theorem Worker.elements_answer (sdk : SdkParam) (worker : Worker) (command : Command) :
    (worker.answer sdk command).elements =
      worker.elements ++ if worker.hears command then command.elements else [] := by
  unfold answer
  split
  · rfl
  · exact (List.append_nil _).symm

/-! ### What one test preserves -/

/-- The buffer is a string now, and was one at every use. -/
structure Worker.AllTerminated (worker : Worker) : Prop where
  buffer : Terminated worker.buffer
  strings : ∀ buffer ∈ worker.strings, Terminated buffer

namespace Worker

/-- A use of a string. -/
theorem AllTerminated.strings_append {worker : Worker} (h : worker.AllTerminated) :
    ∀ buffer ∈ worker.strings ++ [worker.buffer], Terminated buffer := by
  intro buffer hmem
  rcases List.mem_append.mp hmem with hbefore | hnow
  · exact h.strings buffer hbefore
  · rw [List.mem_singleton] at hnow
    exact hnow ▸ h.buffer

theorem AllTerminated.use {worker : Worker} (h : worker.AllTerminated) :
    worker.use.AllTerminated := ⟨h.buffer, h.strings_append⟩

theorem AllTerminated.answer {worker : Worker} (h : worker.AllTerminated) (sdk : SdkParam)
    (command : Command) : (worker.answer sdk command).AllTerminated := by
  constructor
  · rw [buffer_answer]
    split
    · exact terminated_stores sdk command worker.buffer
    · exact h.buffer
  · rw [strings_answer]
    exact h.strings_append

/-- All tests preserve it. The induction is on the commands. -/
theorem AllTerminated.foldl {worker : Worker} (h : worker.AllTerminated) (sdk : SdkParam)
    (cmds : List Command) : (cmds.foldl (Worker.answer sdk) worker).AllTerminated := by
  induction cmds generalizing worker with
  | nil => exact h
  | cons command cmds ih => exact ih (h.answer sdk command)

/-- What has been used and read stays on the record. -/
theorem subset_foldl (sdk : SdkParam) (worker : Worker) (cmds : List Command) :
    worker.strings ⊆ (cmds.foldl (Worker.answer sdk) worker).strings ∧
      worker.elements ⊆ (cmds.foldl (Worker.answer sdk) worker).elements := by
  induction cmds generalizing worker with
  | nil => exact ⟨List.Subset.refl _, List.Subset.refl _⟩
  | cons command cmds ih =>
    obtain ⟨hstrings, helements⟩ := ih (worker.answer sdk command)
    rw [strings_answer] at hstrings
    rw [elements_answer] at helements
    exact ⟨List.Subset.trans (List.subset_append_left _ _) hstrings,
      List.Subset.trans (List.subset_append_left _ _) helements⟩

/-- A string in the buffer ends before the memory behind the buffer. -/
theorem reply_of_terminated {worker : Worker} (h : Terminated worker.buffer) (mapped : Nat) :
    worker.reply mapped =
      (worker.buffer.slice 0 (min mapped bufferSize)).takeWhile (· ≠ 0) := by
  unfold reply
  by_cases hmapped : mapped ≤ bufferSize
  · rw [Nat.min_eq_left hmapped]
  · obtain ⟨i, hi, hzero⟩ := h
    obtain ⟨rest, rfl⟩ := Nat.exists_eq_add_of_le (Nat.le_of_not_le hmapped)
    rw [Nat.min_eq_right (Nat.le_add_right _ _), Mem.slice_add, List.takeWhile_append, if_neg]
    -- not all of the buffer comes before the NUL
    intro hall
    have hsame := (List.takeWhile_prefix (· ≠ (0 : UInt8))
      (l := worker.buffer.slice 0 bufferSize)).eq_of_length hall
    have hmem : (0 : UInt8) ∈ worker.buffer.slice 0 bufferSize := by
      refine List.mem_of_getElem (i := i) (h := by rwa [Mem.length_slice]) ?_
      rw [Mem.getElem_slice, Nat.zero_add, hzero]
    rw [← hsame] at hmem
    exact absurd (List.mem_takeWhile_imp hmem) (by decide)

end Worker

/-- The buffer is a string at every use, and the reply is no longer than the buffer. -/
def StaysInBuffer (worker : Worker) : Prop :=
  (∀ buffer ∈ worker.strings, Terminated buffer) ∧
    ∀ mapped, (worker.reply mapped).length ≤ bufferSize

/-- The first use is the `printf`. -/
theorem terminated_of_staysInBuffer {sdk : SdkParam} {heap : Mem} {arrived : List UInt8}
    (h : StaysInBuffer (threadworker sdk heap arrived)) : Terminated (receive heap arrived) := by
  have hfirst := (Worker.subset_foldl sdk (Worker.use ⟨receive heap arrived, [], []⟩) commands).1
    (List.mem_singleton_self _)
  exact h.1 _ (List.mem_append_left _ hfirst)

/-- A string that is received stays a string in all tests. -/
theorem allTerminated_threadworker (sdk : SdkParam) {heap : Mem} {arrived : List UInt8}
    (h : Terminated (receive heap arrived)) : (threadworker sdk heap arrived).AllTerminated := by
  have hstart : Worker.AllTerminated ⟨receive heap arrived, [], []⟩ :=
    ⟨h, fun _ hmem => absurd hmem List.not_mem_nil⟩
  exact (hstart.use.foldl sdk commands).use

/-- **The buffer as a string.** Only a message that fills the whole buffer, without a NUL, is used
    beyond its end. -/
theorem staysInBuffer_iff (sdk : SdkParam) (heap : Mem) (arrived : List UInt8) :
    StaysInBuffer (threadworker sdk heap arrived) ↔
      arrived.length < bufferSize ∨ 0 ∈ arrived.take bufferSize := by
  rw [← terminated_receive_iff heap]
  constructor
  · exact terminated_of_staysInBuffer
  · intro h
    have hend := allTerminated_threadworker sdk h
    refine ⟨hend.strings, fun mapped => ?_⟩
    rw [Worker.reply_of_terminated hend.buffer]
    calc _ ≤ (Mem.slice _ 0 (min mapped bufferSize)).length :=
          (List.takeWhile_sublist _).length_le
      _ = min mapped bufferSize := Mem.length_slice _ _ _
      _ ≤ bufferSize := Nat.min_le_right _ _

/-- A message of 256 letters leaves no room for the NUL. -/
theorem fullBuffer_not_staysInBuffer :
    ∃ arrived : List UInt8, arrived.length ≤ bufferSize ∧
      ¬ StaysInBuffer (threadworker noSdkParam (fun _ => 0x61) arrived) := by
  refine ⟨.replicate bufferSize 0x61, List.length_replicate.le, fun h => ?_⟩
  have hstring := (terminated_receive_iff _ _).mp (terminated_of_staysInBuffer h)
  rw [List.take_replicate, Nat.min_self, List.length_replicate, List.mem_replicate] at hstring
  exact absurd hstring (by decide)

/-! ## The text in the buffer -/

/-- A text stands in front of the first NUL of a message, exactly if the buffer starts with it and
    its NUL. The induction is on the text. -/
theorem slice_ofList_eq_iff {text : List UInt8} (htext : 0 ∉ text) (bytes : List UInt8) :
    (Mem.ofList bytes).slice 0 (text.length + 1) = text ++ [0] ↔
      bytes.takeWhile (· ≠ 0) = text := by
  induction text generalizing bytes with
  | nil =>
    cases bytes with
    | nil => exact iff_of_true rfl rfl
    | cons b bytes =>
      rw [List.length_nil, Mem.slice_ofList_cons, Mem.slice_zero]
      by_cases hb : b = 0 <;> simp [hb]
  | cons t text ih =>
    rw [List.mem_cons, not_or] at htext
    cases bytes with
    | nil =>
      refine iff_of_false (fun h => htext.1 ?_) (List.cons_ne_nil t text).symm
      rw [List.length_cons, Mem.slice_succ, List.cons_append, List.cons.injEq] at h
      exact h.1
    | cons b bytes =>
      rw [List.length_cons, Mem.slice_ofList_cons, List.cons_append, List.cons.injEq,
        ih htext.2]
      by_cases hb : b = 0
      · subst hb
        exact iff_of_false (fun h => htext.1 h.1) (by simp)
      · simp [hb]

theorem Command.text_spec (command : Command) :
    0 ∉ command.text ∧ command.text.length < bufferSize ∧ command.text.head? = some 0x67 := by
  cases command <;> decide

theorem Command.text_injective {command command' : Command} (h : command.text = command'.text) :
    command = command' := by
  revert h
  cases command <;> cases command' <;> decide

/-- The message is the command, up to its first NUL. -/
def Names (bytes : List UInt8) (command : Command) : Prop :=
  bytes.takeWhile (· ≠ 0) = command.text

/-- A command is found exactly if the buffer was filled with it. -/
theorem Worker.hears_iff {worker : Worker} {heap : Mem} {bytes : List UInt8}
    (h : worker.buffer = receive heap bytes) (command : Command) :
    worker.hears command = true ↔ Names bytes command := by
  obtain ⟨hnul, hlen, -⟩ := command.text_spec
  rw [hears, decide_eq_true_iff, h, (agreeBelow_receive heap bytes).slice_eq (by omega),
    slice_ofList_eq_iff hnul, Names]

/-- Tests that find nothing leave the buffer and read nothing. -/
theorem Worker.foldl_of_silent {cmds : List Command} {worker : Worker} {heap : Mem}
    {bytes : List UInt8} (h : worker.buffer = receive heap bytes)
    (hsilent : ∀ command ∈ cmds, ¬ Names bytes command) (sdk : SdkParam) :
    (cmds.foldl (Worker.answer sdk) worker).buffer = worker.buffer ∧
      (cmds.foldl (Worker.answer sdk) worker).elements = worker.elements := by
  induction cmds generalizing worker with
  | nil => exact ⟨rfl, rfl⟩
  | cons command cmds ih =>
    obtain ⟨hhead, htail⟩ := List.forall_mem_cons.mp hsilent
    -- the next test sees the same buffer
    have hdeaf : ¬ worker.hears command = true := fun hears => hhead ((hears_iff h _).mp hears)
    have hbuffer : (worker.answer sdk command).buffer = worker.buffer := by
      rw [buffer_answer, if_neg hdeaf]
    have helements : (worker.answer sdk command).elements = worker.elements := by
      rw [elements_answer, if_neg hdeaf, List.append_nil]
    obtain ⟨hrest, hrest'⟩ := ih (hbuffer.trans h) htail
    exact ⟨hrest.trans hbuffer, hrest'.trans helements⟩

/-- The tests before and behind the one for a command. -/
theorem Command.exists_split (command : Command) : ∃ before after,
    commands = before ++ command :: after ∧ command ∉ before ∧ (command = .dry → after = []) := by
  cases command with
  | hw => exact ⟨[], _, rfl, by decide, by decide⟩
  | sw => exact ⟨[.hw], _, rfl, by decide, by decide⟩
  | temp => exact ⟨[.hw, .sw], _, rfl, by decide, by decide⟩
  | relay => exact ⟨[.hw, .sw, .temp], _, rfl, by decide, by decide⟩
  | optical => exact ⟨[.hw, .sw, .temp, .relay], _, rfl, by decide, by decide⟩
  | dry => exact ⟨[.hw, .sw, .temp, .relay, .optical], _, rfl, by decide, fun _ => rfl⟩

/-- What `sprintf` stores for a number is no command. -/
theorem not_names_intText (v : Int32) (command : Command) :
    ¬ Names (sprintf (intText v)) command := by
  intro hnames
  -- a command starts with a letter, and a number with its sign or a digit
  obtain ⟨-, -, hhead⟩ := command.text_spec
  have hfirst : (intText v).head? = some 0x67 := by
    obtain ⟨b, rest, hcons⟩ := List.exists_cons_of_ne_nil (intText_ne_nil v)
    rw [← hnames, sprintf, hcons, List.cons_append, List.takeWhile_cons] at hhead
    split at hhead
    · rwa [hcons]
    · cases hhead
  unfold intText at hfirst
  split at hfirst
  · rw [List.head?_cons, Option.some.injEq] at hfirst
    exact absurd hfirst (by decide)
  · rw [decimal, List.head?_map, Option.map_eq_some_iff] at hfirst
    obtain ⟨d, hd, hletter⟩ := hfirst
    have hlt := Lib.Radix.digits_lt (by decide) (List.mem_of_head? hd)
    have hdigit := toNat_asciiDigit hlt
    rw [hletter] at hdigit
    simp only [UInt8.reduceToNat] at hdigit
    omega

section

variable (sdk : SdkParam) (heap : Mem) {arrived : List UInt8} {command : Command}

/-- The worker behind the test that finds the command. -/
theorem exists_answered (h : Names arrived command) : ∃ worker after,
    threadworker sdk heap arrived = (after.foldl (Worker.answer sdk) worker).use ∧
      worker.buffer = receive (receive heap arrived) (command.stores sdk) ∧
      worker.elements = command.elements ∧ (command = .dry → after = []) := by
  obtain ⟨before, after, hcommands, hnotMem, hdry⟩ := command.exists_split
  -- the tests before find nothing: a message names one command
  have hsilent : ∀ other ∈ before, ¬ Names arrived other := fun other hmem hother =>
    hnotMem (Command.text_injective (h.symm.trans hother) ▸ hmem)
  obtain ⟨hbuffer, helements⟩ := Worker.foldl_of_silent
    (show (Worker.use ⟨receive heap arrived, [], []⟩).buffer = receive heap arrived from rfl)
    hsilent sdk
  refine ⟨_, after, by rw [threadworker, hcommands, List.foldl_append, List.foldl_cons], ?_, ?_,
    hdry⟩
  · rw [Worker.buffer_answer, if_pos ((Worker.hears_iff hbuffer command).mpr h), hbuffer]
    conv_rhs => rw [receive, List.take_of_length_le (command.length_stores_lt sdk).le]
    rfl
  · rw [Worker.elements_answer, if_pos ((Worker.hears_iff hbuffer command).mpr h), helements]
    rfl

/-- No test behind that for a command finds anything in what it stores, unless it copies letters. -/
theorem threadworker_of_names (h : Names arrived command) (hoptical : command ≠ .optical) :
    (threadworker sdk heap arrived).buffer = receive (receive heap arrived) (command.stores sdk) ∧
      (threadworker sdk heap arrived).elements = command.elements := by
  obtain ⟨worker, after, hworker, hbuffer, helements, hdry⟩ := exists_answered sdk heap h
  have hsilent : ∀ other ∈ after, ¬ Names (command.stores sdk) other := by
    intro other hmem
    cases command with
    -- a number is no command, and no test comes behind `get_dry`
    | hw | sw | temp | relay => exact not_names_intText _ other
    | optical => exact absurd rfl hoptical
    | dry => exact absurd (hdry rfl ▸ hmem) List.not_mem_nil
  obtain ⟨hsame, hsame'⟩ := Worker.foldl_of_silent hbuffer hsilent sdk
  rw [hworker]
  exact ⟨hsame.trans hbuffer, hsame'.trans helements⟩

end

/-! ## Two states -/

/-- Both states have the same value in the field that the command names. -/
def SameField (sdk sdk' : SdkParam) : Command → Prop
  | .hw => sdk.hw = sdk'.hw
  | .sw => sdk.sw = sdk'.sw
  | .temp => sdk.selfTemp = sdk'.selfTemp
  | .relay => sdk.relay = sdk'.relay
  | .optical => sdk.opticalRelay = sdk'.opticalRelay
  | .dry => sdk.dryContact = sdk'.dryContact

/-- All elements that have been read are in their array. -/
def Worker.InBounds (worker : Worker) : Prop := ∀ e ∈ worker.elements, e.2.val < e.1.size

/-- The reply to a message is the same in both states if they agree on the field of the command, and
    is built from elements of the arrays. -/
structure Confined (command : Command) (sdk sdk' : SdkParam) (heap heap' : Mem)
    (arrived : List UInt8) : Prop where
  reply : SameField sdk sdk' command →
    ∀ mapped, (threadworker sdk heap arrived).reply mapped =
      (threadworker sdk' heap' arrived).reply mapped
  left : (threadworker sdk heap arrived).InBounds
  right : (threadworker sdk' heap' arrived).InBounds

/-- What a command stores is determined by its own field. -/
theorem Command.stores_eq {command : Command} (hoptical : command ≠ .optical)
    {sdk sdk' : SdkParam} (h : SameField sdk sdk' command) :
    command.stores sdk = command.stores sdk' := by
  cases command with
  | hw | sw | temp | relay =>
    simp only [SameField] at h
    simp only [Command.stores, h]
  | optical => exact absurd rfl hoptical
  | dry =>
    simp only [SameField] at h
    simp only [Command.stores, Command.elements, List.map_ofFn, Function.comp_def,
      SdkParam.element, h]

/-- The same bytes in two buffers make the same reply. -/
theorem Worker.reply_congr {worker worker' : Worker} {heap heap' : Mem} {bytes : List UInt8}
    (h : worker.buffer = receive heap bytes) (h' : worker'.buffer = receive heap' bytes)
    (hlen : bytes.length < bufferSize) (mapped : Nat) :
    worker.reply mapped = worker'.reply mapped := by
  have hstring : ∀ heap, Terminated (receive heap bytes) := fun heap =>
    (terminated_receive_iff heap bytes).mpr (.inl hlen)
  rw [reply_of_terminated (h ▸ hstring heap), reply_of_terminated (h' ▸ hstring heap'), h, h',
    (agreeBelow_receive heap bytes).slice_eq (by omega),
    (agreeBelow_receive heap' bytes).slice_eq (by omega)]

theorem Command.inBounds_elements {command : Command} (hoptical : command ≠ .optical) :
    ∀ e ∈ command.elements, e.2.val < e.1.size := by
  cases command with
  | hw | sw | temp | relay => exact fun e hmem => absurd hmem List.not_mem_nil
  | optical => exact absurd rfl hoptical
  | dry =>
    intro e hmem
    obtain ⟨i, rfl⟩ := List.mem_ofFn.mp hmem
    exact i.isLt

/-- The loop for `get_optical` reads behind the array. -/
theorem not_inBounds_optical (sdk : SdkParam) (heap : Mem) {arrived : List UInt8}
    (h : Names arrived .optical) : ¬ (threadworker sdk heap arrived).InBounds := by
  obtain ⟨worker, after, hworker, -, helements, -⟩ := exists_answered sdk heap h
  intro hall
  -- the first element behind the four
  have hmem : (SdkArray.opticalRelay, (4 : Fin 20)) ∈ worker.elements := by
    rw [helements]
    exact List.mem_ofFn.mpr ⟨4, rfl⟩
  rw [hworker] at hall
  exact absurd (hall _ ((Worker.subset_foldl sdk worker after).2 hmem)) (by decide)

/-- **One parameter for each command.** Only `get_optical` reveals more than its own field. -/
theorem confined_iff {command : Command} {arrived : List UInt8} (h : Names arrived command)
    (sdk sdk' : SdkParam) (heap heap' : Mem) :
    Confined command sdk sdk' heap heap' arrived ↔ command ≠ .optical := by
  constructor
  · rintro hconfined rfl
    exact not_inBounds_optical sdk heap h hconfined.left
  · intro hoptical
    obtain ⟨hbuffer, helements⟩ := threadworker_of_names sdk heap h hoptical
    obtain ⟨hbuffer', helements'⟩ := threadworker_of_names sdk' heap' h hoptical
    refine ⟨fun hfield mapped => ?_, ?_, ?_⟩
    · rw [← Command.stores_eq hoptical hfield] at hbuffer'
      exact Worker.reply_congr hbuffer hbuffer' (command.length_stores_lt sdk) mapped
    · rw [Worker.InBounds, helements]
      exact Command.inBounds_elements hoptical
    · rw [Worker.InBounds, helements']
      exact Command.inBounds_elements hoptical

/-- The relays are on, and all contacts have the same value. -/
def relaysOn (contact : Int) : SdkParam :=
  { noSdkParam with opticalRelay := .replicate 4 1, dryContact := .replicate 20 contact }

theorem confined_iff_getDry :
    Confined .dry (relaysOn 2) (relaysOn 3) (fun _ => 0) (fun _ => 0x61) (ascii "get_dry") ↔
      Command.dry ≠ .optical :=
  confined_iff (show (ascii "get_dry").takeWhile (· ≠ 0) = Command.dry.text by decide) _ _ _ _

/-- The reply to `get_optical` tells the contacts apart. -/
theorem relaysOn_not_confined :
    SameField (relaysOn 2) (relaysOn 3) .optical ∧
      (threadworker (relaysOn 2) (fun _ => 0) (ascii "get_optical")).reply bufferSize ≠
        (threadworker (relaysOn 3) (fun _ => 0) (ascii "get_optical")).reply bufferSize ∧
      ¬ (threadworker (relaysOn 2) (fun _ => 0) (ascii "get_optical")).InBounds := by
  refine ⟨rfl, ?_, not_inBounds_optical _ _ rfl⟩
  decide +kernel

end SdkSnmpd
