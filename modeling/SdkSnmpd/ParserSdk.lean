import SdkSnmpd.Lib.Radix
import SdkSnmpd.OidText
import SdkSnmpd.Serial

/-!
# The Sensor Thread

`threading_sdk_serial` of `parser_sdk.c` polls the device on the serial port, and stores what
it parses from the answer into `sdk_param`. One buffer takes the answers to all commands, and
the numbers are read from two-byte arrays that no NUL terminates.

## Contents

- `strtol`, `asciiToInt`: a number in base 16, and the digits that are converted.
- `SdkThread.step`, `threadingSdkSerial`: one request, and the loop.
- `fromReply_iff`: exactly when every sample that is stored comes from one reply.
- `twoDigits_stored_iff`: exactly when two hex digits are stored as their number.
-/

namespace SdkSnmpd

open Lib (Mem)
open Lib.Radix (number)

/-! ## `strtol` with base 16 -/

/-- The text of a number without the prefix `0x`, if a digit follows it. -/
def withoutPrefix (cs : List UInt8) : List UInt8 :=
  match cs with
  | zero :: x :: digit :: rest =>
      if zero = 0x30 ∧ (x = 0x78 ∨ x = 0x58) ∧ (digitValue 16 digit).isSome then digit :: rest
      else cs
  | _ => cs

/-- The text of a number without its sign. -/
def withoutSign (cs : List UInt8) : List UInt8 :=
  if cs.head? = some 0x2B ∨ cs.head? = some 0x2D then cs.tail else cs

/-- The digits that are converted. -/
def hexDigits (cs : List UInt8) : List Nat :=
  (readDigits 16 (withoutPrefix (withoutSign (cs.dropWhile isspace)))).1

/-- `strtol(data, &ptr, 16)`, limited to the range of a `long`. -/
def strtol (cs : List UInt8) : Int :=
  let value : Int := ((hexDigits cs).foldl (fun acc d => acc * 16 + d) 0 : Nat)
  if (cs.dropWhile isspace).head? = some 0x2D then max (-value) (-longMax - 1)
  else min value longMax

def asciiToInt (data : List UInt8) : Int := strtol data

/-! ### What stands behind a text -/

/-- The digits at the start of a text stay there when the text goes on. -/
theorem readDigits_append (base : Nat) (xs behind : List UInt8) :
    ∃ extra, (readDigits base (xs ++ behind)).1 = (readDigits base xs).1 ++ extra := by
  induction xs with
  | nil => exact ⟨_, rfl⟩
  | cons b xs ih =>
    obtain ⟨extra, hextra⟩ := ih
    cases hdigit : digitValue base b with
    | none => exact ⟨[], by simp only [List.cons_append, readDigits, hdigit, List.append_nil]⟩
    | some d => exact ⟨extra, by simp only [List.cons_append, readDigits, hdigit, hextra]⟩

theorem length_readDigits_le (base : Nat) (cs : List UInt8) :
    (readDigits base cs).1.length ≤ cs.length := by
  induction cs with
  | nil => exact Nat.le_refl 0
  | cons b cs ih =>
    cases hdigit : digitValue base b with
    | none => simp [readDigits, hdigit]
    | some d => simpa [readDigits, hdigit] using ih

theorem digitValue_lt {base : Nat} {b : UInt8} {d : Nat} (h : digitValue base b = some d) :
    d < base := by
  unfold digitValue at h
  dsimp only at h
  split_ifs at h <;> cases h <;> assumption

theorem readDigits_lt (base : Nat) (cs : List UInt8) : ∀ d ∈ (readDigits base cs).1, d < base := by
  induction cs with
  | nil => exact fun _ h => absurd h List.not_mem_nil
  | cons b cs ih =>
    cases hdigit : digitValue base b with
    | none => simp [readDigits, hdigit]
    | some d =>
      simp only [readDigits, hdigit, List.forall_mem_cons]
      exact ⟨digitValue_lt hdigit, ih⟩

/-- A hex digit is no blank, no sign and no `x`. -/
theorem hexDigit_spec {b : UInt8} (h : (digitValue 16 b).isSome) :
    isspace b = false ∧ b ≠ 0x2B ∧ b ≠ 0x2D ∧ b ≠ 0x78 ∧ b ≠ 0x58 := by
  have hall : ∀ i : Fin 256, (digitValue 16 (.ofNat i)).isSome → isspace (.ofNat i) = false ∧
      UInt8.ofNat i ≠ 0x2B ∧ UInt8.ofNat i ≠ 0x2D ∧ UInt8.ofNat i ≠ 0x78 ∧
        UInt8.ofNat i ≠ 0x58 := by
    decide +kernel
  have hb := hall ⟨b.toNat, b.toNat_lt⟩
  rw [UInt8.ofNat_toNat] at hb
  exact hb h

/-- Unless a text is read as 0, its prefix does not depend on what stands behind it. -/
theorem withoutPrefix_append {xs : List UInt8} (behind : List UInt8)
    (h : ∃ d ∈ (readDigits 16 (withoutPrefix xs)).1, d ≠ 0) :
    withoutPrefix (xs ++ behind) = withoutPrefix xs ++ behind := by
  have hzero : digitValue 16 0x30 = some 0 := by decide
  have hx : ∀ b, b = 0x78 ∨ b = 0x58 → digitValue 16 b = none := by
    rintro b (rfl | rfl) <;> decide
  obtain ⟨d, hd, hne⟩ := h
  -- a prefix is judged by three bytes, and the text may have less
  match xs with
  | [] => exact absurd hd List.not_mem_nil
  | [a] =>
    by_cases ha : a = 0x30
    · subst ha
      simp only [withoutPrefix, readDigits, hzero, List.mem_singleton] at hd
      exact absurd hd hne
    · match behind with
      | [] | [_] => rfl
      | _ :: _ :: _ =>
        simp only [List.cons_append, List.nil_append, withoutPrefix, ha, false_and, if_false]
  | [a, b] =>
    by_cases ha : a = 0x30 ∧ (b = 0x78 ∨ b = 0x58)
    · obtain ⟨rfl, hb⟩ := ha
      simp only [withoutPrefix, readDigits, hzero, hx b hb, List.mem_singleton] at hd
      exact absurd hd hne
    · match behind with
      | [] => rfl
      | c :: _ =>
        have hprefix : ¬(a = 0x30 ∧ (b = 0x78 ∨ b = 0x58) ∧ (digitValue 16 c).isSome) :=
          fun hall => ha ⟨hall.1, hall.2.1⟩
        simp only [List.cons_append, List.nil_append, withoutPrefix, if_neg hprefix]
  | a :: b :: c :: rest =>
    simp only [List.cons_append, withoutPrefix]
    split <;> rfl

theorem withoutSign_append {xs : List UInt8} (behind : List UInt8) (h : xs ≠ []) :
    withoutSign (xs ++ behind) = withoutSign xs ++ behind := by
  obtain ⟨a, xs, rfl⟩ := List.exists_cons_of_ne_nil h
  by_cases hsign : a = 0x2B ∨ a = 0x2D
  · have htail : ∀ ys, withoutSign (a :: ys) = ys := fun ys => if_pos (by simpa using hsign)
    rw [List.cons_append, htail, htail]
  · have hsame : ∀ ys, withoutSign (a :: ys) = a :: ys := fun ys => if_neg (by simpa using hsign)
    rw [List.cons_append, hsame, hsame, List.cons_append]

/-- Unless a text is read as 0, what stands behind it can only add digits. -/
theorem hexDigits_append {cs : List UInt8} (behind : List UInt8) (h : ∃ d ∈ hexDigits cs, d ≠ 0) :
    (∃ extra, hexDigits (cs ++ behind) = hexDigits cs ++ extra) ∧
      ((cs ++ behind).dropWhile isspace).head? = (cs.dropWhile isspace).head? := by
  have htext : cs.dropWhile isspace ≠ [] := by
    intro hnil
    obtain ⟨d, hd, -⟩ := h
    rw [hexDigits, hnil] at hd
    exact absurd hd List.not_mem_nil
  have hdrop : (cs ++ behind).dropWhile isspace = cs.dropWhile isspace ++ behind := by
    rw [List.dropWhile_append, if_neg (by simpa using htext)]
  constructor
  · rw [hexDigits, hdrop, withoutSign_append behind htext, withoutPrefix_append behind h]
    exact readDigits_append 16 _ behind
  · rw [hdrop, List.head?_append_of_ne_nil _ htext]

/-! ### The number of a text -/

/-- `strtol` as sign and number. -/
theorem strtol_eq (cs : List UInt8) :
    strtol cs = if (cs.dropWhile isspace).head? = some 0x2D
      then max (-(number 16 (hexDigits cs) : Int)) (-longMax - 1)
      else min (number 16 (hexDigits cs) : Int) longMax := by
  simp only [strtol, Lib.Radix.foldl_eq, Nat.zero_mul, Nat.zero_add]

/-- Exactly the texts with no other digits than zeros are read as 0. -/
theorem strtol_eq_zero_iff (cs : List UInt8) : strtol cs = 0 ↔ ∀ d ∈ hexDigits cs, d = 0 := by
  rw [← Lib.Radix.number_eq_zero_iff (by decide : 0 < 16), strtol_eq, longMax]
  split <;> omega

/-- What stands behind a short text changes its number, unless no more digits are converted, or
    all of them are zeros. -/
theorem strtol_append_iff {cs : List UInt8} (behind : List UInt8)
    (hsmall : (number 16 (hexDigits cs) : Int) < longMax) :
    strtol (cs ++ behind) = strtol cs ↔
      hexDigits (cs ++ behind) = hexDigits cs ∨ ∀ d ∈ hexDigits (cs ++ behind), d = 0 := by
  by_cases hzero : ∀ d ∈ hexDigits cs, d = 0
  · rw [(strtol_eq_zero_iff cs).mpr hzero, strtol_eq_zero_iff]
    exact (or_iff_right_of_imp fun h => h ▸ hzero).symm
  · have hne : number 16 (hexDigits cs) ≠ 0 := fun h =>
      hzero ((Lib.Radix.number_eq_zero_iff (by decide) _).mp h)
    simp only [not_forall] at hzero
    obtain ⟨d, hd, hd0⟩ := hzero
    obtain ⟨⟨extra, hextra⟩, hhead⟩ := hexDigits_append behind ⟨d, hd, hd0⟩
    -- a digit that is not 0 stays in the text
    have hbad : ¬ ∀ d ∈ hexDigits cs ++ extra, d = 0 := fun h =>
      hd0 (h d (List.mem_append_left _ hd))
    rw [hextra, or_iff_left hbad, List.append_right_eq_self, strtol_eq, strtol_eq, hhead, hextra]
    constructor
    · intro heq
      by_contra hmore
      -- more digits make a larger number, also where it is cut off at the limit
      have hlt := Lib.Radix.number_lt_append (by decide : 1 < 16) hne hmore
      rw [longMax] at heq hsmall
      split at heq <;> omega
    · rintro rfl
      rw [List.append_nil]

/-! ## The thread -/

/-- `struct sdk_param` -/
structure SdkParam where
  hw : Int
  sw : Int
  selfTemp : Int
  relay : Int
  opticalRelay : Vector Int32 4
  dryContact : Vector Int 20
  deriving DecidableEq

/-- What stands in memory behind `tmp_buf` each time that it is converted. -/
structure Behind where
  selfTemp : List UInt8
  hw : List UInt8
  sw : List UInt8

/-- `tmp_buf` with two bytes of the answer, and the memory behind it. -/
def tmpBuf (answer : Mem) (i : Nat) (behind : List UInt8) : List UInt8 :=
  answer i :: answer (i + 1) :: behind

/-- A `char` is signed. -/
def char (b : UInt8) : Int := b.toInt8.toInt

/-- Parse the response to the status request. -/
def SdkParam.parse (sdk : SdkParam) (answer : Mem) (behind : Behind) : SdkParam :=
  { sdk with
    selfTemp := asciiToInt (tmpBuf answer 40 behind.selfTemp)
    hw := asciiToInt (tmpBuf answer 6 behind.hw)
    sw := asciiToInt (tmpBuf answer 8 behind.sw)
    relay := char (answer 19)
    dryContact := Vector.ofFn fun i => char (answer (i + 20)) }

/-- The requests of the loop: the status request, the same again without an answer, and the
    commands that follow it. -/
inductive Phase where
  | status
  | retry
  | word2
  | word3
  deriving DecidableEq

def Phase.isStatus : Phase → Bool
  | status | retry => true
  | word2 | word3 => false

/-- The message that is written. -/
def Phase.message : Phase → String
  | status | retry => "TSC10173\r\n"
  | word2 => "TSC11576\r\n"
  | word3 => "TSC1C105000000000005\r\n"

/-- The thread before a request: its buffer, and what it has stored. -/
structure SdkThread where
  phase : Phase
  answer : Mem
  sdk : SdkParam

/-- What a request meets: the port, and the memory behind `tmp_buf`. -/
structure SdkEvent where
  outcome : PortOutcome
  behind : Behind

/-- One request of the loop. -/
structure SdkEntry where
  before : SdkThread
  event : SdkEvent
  /-- What is stored after the request, if anything is. -/
  stored : Option SdkParam
  log : List String
  after : SdkThread

/-- One request, and what the thread does with the answer. A status request is repeated while
    its result is not positive; the results of the commands are not looked at. -/
def SdkThread.step (thread : SdkThread) (event : SdkEvent) : SdkEntry :=
  let reply := requestPort thread.phase.message thread.answer event.outcome
  match thread.phase with
  | .status | .retry =>
      let log := if thread.phase = .retry then reply.log ++ ["Not response from SDK"] else reply.log
      if reply.value ≤ 0 then
        ⟨thread, event, none, log, ⟨.retry, reply.answer, thread.sdk⟩⟩
      else
        let sdk := thread.sdk.parse reply.answer event.behind
        ⟨thread, event, some sdk, log, ⟨.word2, reply.answer, sdk⟩⟩
  | .word2 => ⟨thread, event, none, reply.log, ⟨.word3, reply.answer, thread.sdk⟩⟩
  | .word3 => ⟨thread, event, none, reply.log, ⟨.status, reply.answer, thread.sdk⟩⟩

/-- The requests over a list of events. -/
def SdkThread.entries (thread : SdkThread) : List SdkEvent → List SdkEntry
  | [] => []
  | event :: events => thread.step event :: (thread.step event).after.entries events

/-- The thread: without a port it ends, else it starts with a status request. -/
def threadingSdkSerial (fd : Nat) (answer : Mem) (sdk : SdkParam) (events : List SdkEvent) :
    List SdkEntry :=
  if fd ≠ 0 then SdkThread.entries ⟨.status, answer, sdk⟩ events else []

/-! ## Two bytes in front of other memory -/

theorem length_withoutPrefix_le (cs : List UInt8) : (withoutPrefix cs).length ≤ cs.length := by
  match cs with
  | [] | [_] | [_, _] => exact Nat.le_refl _
  | zero :: x :: digit :: rest =>
    simp only [withoutPrefix]
    split
    · exact Nat.le_add_right (digit :: rest).length 2
    · exact Nat.le_refl _

theorem length_withoutSign_le (cs : List UInt8) : (withoutSign cs).length ≤ cs.length := by
  unfold withoutSign
  split
  · rw [List.length_tail]
    exact Nat.sub_le _ _
  · exact Nat.le_refl _

/-- Every digit comes from a character of the text. -/
theorem length_hexDigits_le (cs : List UInt8) : (hexDigits cs).length ≤ cs.length :=
  calc (hexDigits cs).length
      ≤ (withoutPrefix (withoutSign (cs.dropWhile isspace))).length := length_readDigits_le 16 _
    _ ≤ (withoutSign (cs.dropWhile isspace)).length := length_withoutPrefix_le _
    _ ≤ (cs.dropWhile isspace).length := length_withoutSign_le _
    _ ≤ cs.length := (List.dropWhile_suffix isspace).sublist.length_le

/-- The memory behind two bytes leaves their number: no digit that is converted lies there, or
    only zeros are converted. -/
def Settled (b1 b2 : UInt8) (behind : List UInt8) : Prop :=
  hexDigits (b1 :: b2 :: behind) = hexDigits [b1, b2] ∨
    ∀ d ∈ hexDigits (b1 :: b2 :: behind), d = 0

instance (b1 b2 : UInt8) (behind : List UInt8) : Decidable (Settled b1 b2 behind) :=
  inferInstanceAs (Decidable (_ ∨ _))

theorem asciiToInt_eq_iff (b1 b2 : UInt8) (behind : List UInt8) :
    asciiToInt (b1 :: b2 :: behind) = asciiToInt [b1, b2] ↔ Settled b1 b2 behind := by
  -- two digits are far from the limit of a long
  have hsmall : number 16 (hexDigits [b1, b2]) < 256 :=
    calc number 16 (hexDigits [b1, b2]) < 16 ^ (hexDigits [b1, b2]).length :=
          Lib.Radix.number_lt (by decide) (readDigits_lt 16 _)
      _ ≤ 16 ^ 2 := Nat.pow_le_pow_right (by decide) (length_hexDigits_le [b1, b2])
  have hlong : (number 16 (hexDigits [b1, b2]) : Int) < longMax := by
    rw [longMax]
    omega
  exact strtol_append_iff behind hlong

/-! ## Samples from one reply -/

/-- The store after a request takes its values from the bytes that this request has read, of
    which there are 42 or more, and from no memory behind the two-byte arrays. -/
def SdkEntry.FromReply (entry : SdkEntry) : Prop :=
  ∀ sdk, entry.stored = some sdk → 42 ≤ entry.event.outcome.received.length ∧
    sdk = entry.before.sdk.parse (Mem.ofList entry.event.outcome.received) ⟨[], [], []⟩

/-- What has to be true of a request: a status request that times out finds no positive number
    in place of a result, and one that reads bytes reads at least 42, with three pairs among
    them that the memory behind `tmp_buf` does not change. -/
def SdkEntry.Sound (entry : SdkEntry) : Prop :=
  entry.before.phase.isStatus = true →
    match entry.event.outcome.arrival with
    | .selectFailed | .readFailed => True
    | .timeout value => value ≤ 0
    | .readable arrived => arrived = [] ∨ (42 ≤ arrived.length ∧
        Settled (arrived.getD 40 0) (arrived.getD 41 0) entry.event.behind.selfTemp ∧
        Settled (arrived.getD 6 0) (arrived.getD 7 0) entry.event.behind.hw ∧
        Settled (arrived.getD 8 0) (arrived.getD 9 0) entry.event.behind.sw)

/-- Only the first 42 bytes of the buffer are parsed. -/
theorem SdkParam.parse_congr (sdk : SdkParam) {answer answer' : Mem} (behind : Behind)
    (h : Mem.AgreeBelow 42 answer answer') : sdk.parse answer behind = sdk.parse answer' behind := by
  -- the contacts are the bytes from 20 to 39
  have hcontacts : ∀ i : Fin 20, char (answer (i + 20)) = char (answer' (i + 20)) := fun i => by
    rw [h (i + 20) (by omega)]
  simp only [SdkParam.parse, tmpBuf, h 40 (by decide), h 41 (by decide), h 6 (by decide),
    h 7 (by decide), h 8 (by decide), h 9 (by decide), h 19 (by decide), hcontacts]

/-- The three pairs decide whether the memory behind `tmp_buf` is parsed, too. -/
theorem SdkParam.parse_eq_iff (sdk : SdkParam) (answer : Mem) (behind : Behind) :
    sdk.parse answer behind = sdk.parse answer ⟨[], [], []⟩ ↔
      Settled (answer 40) (answer 41) behind.selfTemp ∧
        Settled (answer 6) (answer 7) behind.hw ∧ Settled (answer 8) (answer 9) behind.sw := by
  simp only [SdkParam.parse, tmpBuf, SdkParam.mk.injEq, and_true, asciiToInt_eq_iff]
  tauto

namespace SdkThread

variable (thread : SdkThread) (event : SdkEvent)

/-- The result of the request that the thread makes. -/
def reply : PortReply := requestPort thread.phase.message thread.answer event.outcome

/-- What a request leads to: something is stored exactly after a status request with a positive
    result. -/
theorem step_spec : (thread.step event).before = thread ∧ (thread.step event).event = event ∧
    (thread.step event).stored =
      if thread.phase.isStatus = true ∧ ¬ (thread.reply event).value ≤ 0
        then some (thread.sdk.parse (thread.reply event).answer event.behind) else none := by
  unfold step reply
  cases thread.phase with
  | status | retry =>
    simp only [Phase.isStatus, true_and]
    split
    · exact ⟨rfl, rfl, rfl⟩
    · exact ⟨rfl, rfl, rfl⟩
  | word2 | word3 => simp only [Phase.isStatus, Bool.false_eq_true, false_and, if_false, and_self]

end SdkThread

/-- A positive count of bytes is a positive `int`. -/
theorem not_ofNat_le_zero {n : Nat} (hpos : n ≠ 0) (hle : n ≤ 56) : ¬ Int32.ofNat n ≤ 0 := by
  have hall : ∀ i : Fin 57, i.val ≠ 0 → ¬ Int32.ofNat i.val ≤ 0 := by decide
  exact hall ⟨n, by omega⟩ hpos

section

variable (thread : SdkThread) {event : SdkEvent}

/-- A status request that reads bytes parses them, however few there are, over what the buffer
    has held before. -/
theorem stored_of_received (hstatus : thread.phase.isStatus = true)
    (h : event.outcome.received ≠ []) :
    (thread.step event).stored =
      some (thread.sdk.parse (thread.answer.write 0 event.outcome.received) event.behind) := by
  have hlen : event.outcome.received.length ≠ 0 := by rwa [ne_eq, List.length_eq_zero_iff]
  obtain ⟨hvalue, hanswer⟩ := requestPort_of_received thread.phase.message thread.answer h
  obtain ⟨-, -, hstored⟩ := thread.step_spec event
  rw [hstored, SdkThread.reply, hvalue, hanswer]
  exact if_pos ⟨hstatus, not_ofNat_le_zero hlen event.outcome.length_received_le⟩

/-- A status request that reads nothing parses the old buffer, unless its result is 0 or
    negative. -/
theorem stored_of_nothing (hstatus : thread.phase.isStatus = true)
    (h : event.outcome.received = []) :
    (thread.step event).stored = if (thread.reply event).value ≤ 0 then none
      else some (thread.sdk.parse thread.answer event.behind) := by
  obtain ⟨-, -, hstored⟩ := thread.step_spec event
  have hreply := requestPort_of_nothing thread.phase.message thread.answer h
  rw [hstored, SdkThread.reply, hreply]
  simp only [hstatus, true_and, ite_not]

/-- Reading nothing: no store is allowed. -/
theorem fromReply_of_nothing (hstatus : thread.phase.isStatus = true)
    (h : event.outcome.received = []) :
    (thread.step event).FromReply ↔ (thread.reply event).value ≤ 0 := by
  obtain ⟨-, hevent, -⟩ := thread.step_spec event
  -- no byte was read, so that a store would take its values from an older answer
  have hshort : ¬ 42 ≤ ([] : List UInt8).length := by decide
  rw [SdkEntry.FromReply, hevent, h, stored_of_nothing thread hstatus h]
  split
  · rename_i hvalue
    exact iff_of_true (fun _ hsome => nomatch hsome) hvalue
  · rename_i hvalue
    exact iff_of_false (fun hall => hshort (hall _ rfl).1) hvalue

/-- What has been read covers the part of the buffer that is parsed. -/
theorem agreeBelow_received (answer : Mem) {received : List UInt8} (hlen : 42 ≤ received.length) :
    Mem.AgreeBelow 42 (answer.write 0 received) (Mem.ofList received) := by
  intro i hi
  have hlt : i < received.length := by omega
  have hwrite := Mem.write_add answer received 0 hlt
  rw [Nat.zero_add] at hwrite
  rw [hwrite, Mem.ofList_of_lt hlt]

/-- Reading bytes: there must be 42 of them, and three pairs that stay by themselves. -/
theorem fromReply_of_received (hstatus : thread.phase.isStatus = true)
    (h : event.outcome.received ≠ []) :
    (thread.step event).FromReply ↔ 42 ≤ event.outcome.received.length ∧
      thread.sdk.parse (Mem.ofList event.outcome.received) event.behind =
        thread.sdk.parse (Mem.ofList event.outcome.received) ⟨[], [], []⟩ := by
  obtain ⟨hbefore, hevent, -⟩ := thread.step_spec event
  rw [SdkEntry.FromReply, hbefore, hevent, stored_of_received thread hstatus h]
  simp only [Option.some.injEq, forall_eq']
  -- with 42 bytes read, nothing of the old answer is left
  refine and_congr_right fun hlen => ?_
  rw [thread.sdk.parse_congr event.behind (agreeBelow_received thread.answer hlen)]

/-- **One request.** What is stored comes from the reply exactly if the request is sound. -/
theorem step_fromReply_iff (event : SdkEvent) :
    (thread.step event).FromReply ↔ (thread.step event).Sound := by
  obtain ⟨hbefore, hevent, hstored⟩ := thread.step_spec event
  rw [SdkEntry.Sound, hbefore, hevent]
  by_cases hstatus : thread.phase.isStatus = true
  · simp only [hstatus, true_implies]
    cases harrival : event.outcome.arrival with
    -- no byte arrives, and only a return value of 0 or less keeps the old answer from being parsed
    | selectFailed | readFailed =>
      have hnothing : event.outcome.received = [] := by
        simp only [PortOutcome.received, harrival]
      rw [fromReply_of_nothing thread hstatus hnothing, SdkThread.reply,
        requestPort_of_nothing _ _ hnothing, harrival]
      exact iff_of_true (show (-1 : Int32) ≤ 0 by decide) trivial
    | timeout value =>
      have hnothing : event.outcome.received = [] := by
        simp only [PortOutcome.received, harrival]
      rw [fromReply_of_nothing thread hstatus hnothing, SdkThread.reply,
        requestPort_of_nothing _ _ hnothing, harrival]
    | readable arrived =>
      have hreceived : event.outcome.received = arrived.take 56 := by
        simp only [PortOutcome.received, harrival]
      by_cases hnothing : arrived = []
      · have hnone : event.outcome.received = [] := by rw [hreceived, hnothing, List.take_nil]
        rw [fromReply_of_nothing thread hstatus hnone, SdkThread.reply,
          requestPort_of_nothing _ _ hnone, harrival]
        exact iff_of_true (show (-1 : Int32) ≤ 0 by decide) (.inl hnothing)
      · have hsome : event.outcome.received ≠ [] := by
          rw [hreceived, ne_eq, List.take_eq_nil_iff, not_or]
          exact ⟨by decide, hnothing⟩
        have hpos := fun {i} => event.outcome.ofList_received harrival (i := i)
        have hlen : 42 ≤ event.outcome.received.length ↔ 42 ≤ arrived.length := by
          rw [hreceived, List.length_take]
          omega
        dsimp only
        rw [fromReply_of_received thread hstatus hsome, thread.sdk.parse_eq_iff, hlen,
          or_iff_right hnothing, hpos (by decide), hpos (by decide), hpos (by decide),
          hpos (by decide), hpos (by decide), hpos (by decide)]
  · -- the answer to a command is not parsed
    rw [if_neg fun h => hstatus h.1] at hstored
    refine iff_of_true (fun sdk hsdk => ?_) fun h => absurd h hstatus
    rw [hstored] at hsdk
    cases hsdk

end

/-- Every request of a run is a step of the thread. The induction is on the events. -/
theorem SdkThread.exists_step_of_mem {entry : SdkEntry} (events : List SdkEvent)
    (thread : SdkThread) (h : entry ∈ thread.entries events) :
    ∃ thread' event, entry = SdkThread.step thread' event := by
  induction events generalizing thread with
  | nil => exact absurd h List.not_mem_nil
  | cons event events ih =>
    rcases List.mem_cons.mp h with rfl | hrest
    · exact ⟨thread, event, rfl⟩
    · exact ih _ hrest

/-- **Samples.** Over every run of the thread, all that is stored comes from the reply to the
    request exactly if every status request is sound. -/
theorem fromReply_iff (fd : Nat) (answer : Mem) (sdk : SdkParam) (events : List SdkEvent) :
    (∀ entry ∈ threadingSdkSerial fd answer sdk events, entry.FromReply) ↔
      ∀ entry ∈ threadingSdkSerial fd answer sdk events, entry.Sound := by
  apply forall₂_congr
  intro entry hentry
  unfold threadingSdkSerial at hentry
  split at hentry
  · obtain ⟨thread, event, rfl⟩ := SdkThread.exists_step_of_mem events _ hentry
    exact step_fromReply_iff thread event
  · exact absurd hentry List.not_mem_nil

/-- Nothing has been stored yet. -/
def noSdkParam : SdkParam := ⟨0, 0, 0, 0, .replicate 4 0, .replicate 20 0⟩

/-- The port has one byte to read. -/
def shortReply : SdkEvent := ⟨⟨false, .readable [0x54]⟩, ⟨[], [], []⟩⟩

/-- One byte is enough for a sample to be stored. -/
theorem shortReply_not_fromReply :
    ∃ entry ∈ threadingSdkSerial 3 (fun _ => 0) noSdkParam [shortReply], ¬ entry.FromReply := by
  refine ⟨SdkThread.step ⟨.status, fun _ => 0, noSdkParam⟩ shortReply, List.mem_cons_self, ?_⟩
  rw [fromReply_of_received ⟨.status, fun _ => 0, noSdkParam⟩ rfl (by decide)]
  exact fun h => absurd h.1 (by decide)

/-! ## Pairs of hex digits -/

/-- Two hex digits stand at `i`. -/
def HexPair (bytes : List UInt8) (i d1 d2 : Nat) : Prop :=
  digitValue 16 (bytes.getD i 0) = some d1 ∧ digitValue 16 (bytes.getD (i + 1) 0) = some d2

/-- The number of two digits ends with them: no hex digit follows, or all are zeros. -/
def DigitsEnd (d1 d2 : Nat) (behind : List UInt8) : Prop :=
  (readDigits 16 behind).1 = [] ∨ (d1 = 0 ∧ d2 = 0 ∧ ∀ d ∈ (readDigits 16 behind).1, d = 0)

section

variable {b1 b2 : UInt8} {d1 d2 : Nat}

/-- Behind two digits, the conversion goes on with every digit that follows. -/
theorem hexDigits_pair (h1 : digitValue 16 b1 = some d1) (h2 : digitValue 16 b2 = some d2)
    (behind : List UInt8) :
    hexDigits (b1 :: b2 :: behind) = d1 :: d2 :: (readDigits 16 behind).1 := by
  obtain ⟨hspace, hplus, hminus, -⟩ := hexDigit_spec (b := b1) (by rw [h1]; rfl)
  obtain ⟨-, -, -, hx, hX⟩ := hexDigit_spec (b := b2) (by rw [h2]; rfl)
  have htext : (b1 :: b2 :: behind).dropWhile isspace = b1 :: b2 :: behind :=
    List.dropWhile_cons_of_neg (by rw [hspace]; decide)
  have hsign : withoutSign (b1 :: b2 :: behind) = b1 :: b2 :: behind :=
    if_neg (by simp [hplus, hminus])
  have hprefix : withoutPrefix (b1 :: b2 :: behind) = b1 :: b2 :: behind := by
    cases behind with
    | nil => rfl
    | cons b3 behind => exact if_neg (by simp [hx, hX])
  rw [hexDigits, htext, hsign, hprefix]
  simp only [readDigits, h1, h2]

theorem asciiToInt_pair (h1 : digitValue 16 b1 = some d1) (h2 : digitValue 16 b2 = some d2) :
    asciiToInt [b1, b2] = 16 * d1 + d2 := by
  obtain ⟨hspace, -, hminus, -⟩ := hexDigit_spec (b := b1) (by rw [h1]; rfl)
  have htext : [b1, b2].dropWhile isspace = [b1, b2] :=
    List.dropWhile_cons_of_neg (by rw [hspace]; decide)
  have hlt1 := digitValue_lt h1
  have hlt2 := digitValue_lt h2
  have hnumber : number 16 (hexDigits [b1, b2]) = 16 * d1 + d2 := by
    rw [hexDigits_pair h1 h2]
    simp only [readDigits, Lib.Radix.number_cons, Lib.Radix.number_nil, List.length_cons,
      List.length_nil]
    omega
  rw [asciiToInt, strtol_eq, htext, if_neg (by simpa using hminus), hnumber, longMax]
  omega

theorem asciiToInt_pair_iff (h1 : digitValue 16 b1 = some d1) (h2 : digitValue 16 b2 = some d2)
    (behind : List UInt8) :
    asciiToInt (b1 :: b2 :: behind) = 16 * d1 + d2 ↔ DigitsEnd d1 d2 behind := by
  rw [← asciiToInt_pair h1 h2, asciiToInt_eq_iff, Settled, DigitsEnd, hexDigits_pair h1 h2,
    hexDigits_pair h1 h2]
  simp only [readDigits, List.cons.injEq, true_and, List.forall_mem_cons]

end

/-- **Two digits.** Let a status request read hex digits at 6, 8 and 40. Then each of the three
    fields is stored as the number of its two digits exactly if this number ends with them. -/
theorem twoDigits_stored_iff (thread : SdkThread) {event : SdkEvent} {arrived : List UInt8}
    {h1 h2 s1 s2 t1 t2 : Nat} (hstatus : thread.phase.isStatus = true)
    (harrival : event.outcome.arrival = .readable arrived) (hhw : HexPair arrived 6 h1 h2)
    (hsw : HexPair arrived 8 s1 s2) (htemp : HexPair arrived 40 t1 t2) :
    ∃ sdk, (thread.step event).stored = some sdk ∧
      (sdk.hw = 16 * h1 + h2 ↔ DigitsEnd h1 h2 event.behind.hw) ∧
      (sdk.sw = 16 * s1 + s2 ↔ DigitsEnd s1 s2 event.behind.sw) ∧
      (sdk.selfTemp = 16 * t1 + t2 ↔ DigitsEnd t1 t2 event.behind.selfTemp) := by
  -- there is a digit at 41, so that all fields have arrived
  have hlen : 42 ≤ event.outcome.received.length := by
    by_contra hshort
    have hend : arrived.getD 41 0 = 0 := by
      rw [PortOutcome.received, harrival, List.length_take] at hshort
      rw [List.getD_eq_getElem?_getD, List.getElem?_eq_none (by omega), Option.getD_none]
    have hdigit := htemp.2
    rw [hend] at hdigit
    exact absurd hdigit (by simp [digitValue])
  have hsome : event.outcome.received ≠ [] := by
    intro hnil
    rw [hnil] at hlen
    exact absurd hlen (by decide)
  have hat : ∀ {i}, i < 42 →
      thread.answer.write 0 event.outcome.received i = arrived.getD i 0 := fun {i} hi =>
    (agreeBelow_received thread.answer hlen i hi).trans
      (event.outcome.ofList_received harrival (by omega))
  refine ⟨_, stored_of_received thread hstatus hsome, ?_, ?_, ?_⟩
  · rw [← asciiToInt_pair_iff hhw.1 hhw.2, ← hat (by decide), ← hat (by decide)]
    rfl
  · rw [← asciiToInt_pair_iff hsw.1 hsw.2, ← hat (by decide), ← hat (by decide)]
    rfl
  · rw [← asciiToInt_pair_iff htemp.1 htemp.2, ← hat (by decide), ← hat (by decide)]
    rfl

/-- A reply of 42 times the digit 1, with the digit 5 in memory behind it. -/
def onesThenFive : SdkEvent :=
  ⟨⟨false, .readable (.replicate 42 0x31)⟩, ⟨[0x35], [0x35], [0x35]⟩⟩

theorem twoDigits_stored_iff_onesThenFive :
    ∃ sdk, (SdkThread.step ⟨.status, fun _ => 0, noSdkParam⟩ onesThenFive).stored = some sdk ∧
      (sdk.hw = 16 * (1 : Nat) + (1 : Nat) ↔ DigitsEnd 1 1 [0x35]) ∧
      (sdk.sw = 16 * (1 : Nat) + (1 : Nat) ↔ DigitsEnd 1 1 [0x35]) ∧
      (sdk.selfTemp = 16 * (1 : Nat) + (1 : Nat) ↔ DigitsEnd 1 1 [0x35]) :=
  twoDigits_stored_iff ⟨.status, fun _ => 0, noSdkParam⟩ rfl rfl
    ⟨by decide, by decide⟩ ⟨by decide, by decide⟩ ⟨by decide, by decide⟩

/-- The pair 11 with a 5 behind it is stored as 0x115. -/
theorem onesThenFive_stored :
    ∃ sdk, (SdkThread.step ⟨.status, fun _ => 0, noSdkParam⟩ onesThenFive).stored = some sdk ∧
      sdk.hw = 0x115 ∧ sdk.hw ≠ 16 * 1 + 1 := by
  have hsome : onesThenFive.outcome.received ≠ [] := by decide
  exact ⟨_, stored_of_received _ rfl hsome, by decide, by decide⟩

end SdkSnmpd
