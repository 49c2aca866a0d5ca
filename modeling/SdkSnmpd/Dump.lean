import SdkSnmpd.Agent
import SdkSnmpd.Conversation
import SdkSnmpd.OidTransport
import SdkSnmpd.Rendering
import SdkSnmpd.Represented

/-!
# The Log of the Agent

With `DEBUG`, the agent logs its MIB after each update, the packets that it receives and sends, and
the values of its responses. The functions print into a buffer on the stack, which is not cleared
before, nor from one value to the next.

## Contents

- `dumpMib`, `dumpResponse`, `dumpPacket`: the lines that are logged.
- `LogText`: what a line is to show of a value.
- `stores_dumped`: what a call has stored is what the log shows.
- `agent_dumped`: the log of a running agent shows sampled numbers.
- `response_dumped`: every value of a reply of the agent has a line with its text.
- `packetText_eq_iff`: the log tells packets apart.
-/

namespace SdkSnmpd

open Lib (Mem Scan run)
open Lib.Ber (tlv)

/-! ## Lines of the log -/

/-- What `%s` prints of a buffer of `size` characters. -/
def textIn (size : Nat) (buffer : Mem) : List UInt8 := (buffer.slice 0 size).takeWhile (· ≠ 0)

/-- An element in the buffer, or a question mark. -/
def render (size : Nat) (data : Data) (buffer : Mem) : Mem :=
  match (snmpElementAsString data.encodedLength size).eval (Mem.ofList data.buffer) with
  | .error _ => buffer.write 0 (sprintf (ascii "?"))
  | .ok stores => stores.foldl (fun buffer store => buffer.write store.offset store.bytes) buffer

/-- The loop over values, from index `i` on. -/
def dumpFrom (line : Nat → Value → List UInt8 → List UInt8) (size : Nat) :
    (i : Nat) → List Value → Mem → List (List UInt8)
  | _, [], _ => []
  | i, value :: values, buffer =>
      let buffer := render size value.data buffer
      line i value (textIn size buffer) :: dumpFrom line size (i + 1) values buffer

/-- A line of `dump_mib`. -/
def mibLine (i : Nat) (oid : List UInt8) (maxLength : Int) (data : List UInt8) : List UInt8 :=
  ascii "mib entry[" ++ intText (.ofNat i) ++ ascii "]: oid='" ++ oid ++ ascii "', max_length=" ++
    intText (.ofInt maxLength) ++ ascii ", data='" ++ data ++ ascii "'\n"

def dumpMib (bufsiz : Nat) (values : List Value) (buffer : Mem) : List (List UInt8) :=
  dumpFrom (fun i value => mibLine i (oidNtoa value.oid).bytes value.data.maxLength) bufsiz 0 values
    buffer

/-- A line of `dump_response`, behind the first. -/
def responseLine (i : Nat) (oid : List UInt8) (data : List UInt8) : List UInt8 :=
  ascii "response: entry[" ++ intText (.ofNat i) ++ ascii "]='" ++ oid ++ ascii "','" ++ data ++
    ascii "'\n"

def dumpResponse (response : Response) (buffer : Mem) : List (List UInt8) :=
  (ascii "response: status=" ++ intText response.errorStatus ++ ascii ", index=" ++
      intText response.errorIndex ++ ascii ", nr_entries=" ++
      intText (.ofNat response.valueList.length) ++ ascii "\n") ::
    dumpFrom (fun i value => responseLine i (oidNtoa value.oid).bytes) maxPacketSize 0
      response.valueList buffer

/-- The loop of `dump_packet` over the bytes from index `i` on, after `len` characters. -/
def hexLoop (bufsiz : Nat) : (len i : Nat) → List UInt8 → Mem → Mem
  | _, _, [], buffer => buffer
  | len, i, b :: bs, buffer =>
      let piece := if i = 0 then hexText b else 0x20 :: hexText b
      let buffer := buffer.write len (snprintf (bufsiz - len) piece)
      let len := len + piece.length
      if len ≥ bufsiz then buffer else hexLoop bufsiz len (i + 1) bs buffer

/-- The hex text. Of an empty packet it is whatever the buffer holds. -/
def packetText (bufsiz : Nat) (buffer : Mem) (client : Client) : List UInt8 :=
  textIn bufsiz (hexLoop bufsiz 0 0 (client.packet.slice 0 client.size) buffer)

/-- `peer` is the text for the address and the port. -/
def dumpPacket (bufsiz : Nat) (buffer : Mem) (peer : List UInt8) (client : Client) : List UInt8 :=
  ascii (if client.outgoing then "transmitted " else "received ") ++
    unsignedText (.ofNat client.size) ++ ascii " bytes " ++
    ascii (if client.outgoing then "to " else "from ") ++ peer ++ ascii " (" ++
    packetText bufsiz buffer client ++ ascii ")\n"

/-! ## Texts in a buffer -/

section

variable {size : Nat} {buffer : Mem}

/-- A text is printed up to its NUL. -/
theorem textIn_of_holdsAt {text : List UInt8} (hzero : 0 ∉ text) (hlen : text.length < size)
    (h : buffer.HoldsAt 0 (text ++ [0])) : textIn size buffer = text := by
  obtain ⟨k, rfl⟩ := Nat.exists_eq_add_of_lt hlen
  have hslice : buffer.slice 0 (text.length + k + 1) =
      (text ++ [0]) ++ buffer.slice (text.length + 1) k := by
    rw [show text.length + k + 1 = (text ++ [0]).length + k by
      rw [List.length_append, List.length_singleton]; omega, Mem.slice_add, h, Nat.zero_add,
      List.length_append, List.length_singleton]
  -- the text has no NUL of its own, so the first one is the one behind it
  have hall : ∀ b ∈ text, decide (b ≠ 0) = true := by
    intro b hb
    rw [decide_eq_true_eq]
    exact fun heq => hzero (heq ▸ hb)
  rw [textIn, hslice, List.append_assoc, List.takeWhile_append_of_pos hall]
  simp

/-- What `snprintf` has stored is printed again. -/
theorem textIn_snprintf (hsize : 1 ≤ size) {text : List UInt8} (hzero : 0 ∉ text) (buffer : Mem) :
    textIn size (buffer.write 0 (snprintf size text)) = text.take (size - 1) := by
  -- a size of 0 would store nothing
  have hbytes : snprintf size text = text.take (size - 1) ++ [0] := if_neg (by omega)
  refine textIn_of_holdsAt (fun h => hzero (List.mem_of_mem_take h)) ?_ ?_
  · rw [List.length_take]
    omega
  · rw [← hbytes]
    exact Mem.slice_write_self buffer 0 _

end

/-! ## Texts of elements -/

/-- What is printed of a value. -/
def TypedValue.text : TypedValue → List UInt8
  | .integer v => intText v
  | .octetString none => []
  | .octetString (some s) => s.bytes
  | .oid none => []
  | .oid (some s) =>
      match oidAton s with
      | none => []
      | some parsed => (oidNtoa parsed).bytes
  | .unsigned _ v => unsignedText v
  | .other _ _ => []

theorem zero_notMem_text (value : TypedValue) : 0 ∉ value.text := by
  cases value with
  | integer v => exact zero_notMem_intText v
  | octetString value =>
    cases value with
    | none => exact List.not_mem_nil
    | some s => exact s.noNul
  | oid value =>
    cases value with
    | none => exact List.not_mem_nil
    | some s =>
      rw [TypedValue.text]
      -- a text that does not parse is no OID, and nothing is printed
      cases oidAton s with
      | none => exact List.not_mem_nil
      | some oid => exact (oidNtoa oid).noNul
  | unsigned type v => exact zero_notMem_decimal _
  | other type unsupported => exact List.not_mem_nil

section

variable {mem : Mem} {n : Nat}

/-- A complete element goes to the branch for its tag. -/
theorem eval_element {tag : UInt8} {content : List UInt8} (htag : tag ∈ supportedTypes)
    (hn : n < 32768) (h : Stands mem n 0 (tlv tag content)) (size : Nat) :
    ∃ q, (snmpElementAsString n size).eval mem =
        (renderValue n size tag content.length q).eval mem ∧ Stands mem n q content := by
  -- the conversion to size_t changes no short length
  have hsame : toSizeT n = n := by
    unfold toSizeT sizeTModulus
    omega
  have hlen := Lib.Ber.length_tlv tag content
  have hfit := h.2
  obtain ⟨q, hheader, hcontent, -⟩ := eval_header htag (by omega) h
  refine ⟨q, ?_, hcontent⟩
  rw [snmpElementAsString, hsame, Scan.eval_bind_of_ok mem hheader]

/-- Content that is not empty passes the guard. -/
theorem Stands.guard {content : List UInt8} {q : Nat} (hn : n < 32768)
    (h : Stands mem n q content) (hne : 1 ≤ content.length) : guardPasses n content.length q := by
  refine guardPasses_of_le ?_ hne h.2
  unfold sizeTModulus
  omega

/-- A string is read up to its NUL. -/
theorem eval_readChars (mem : Mem) (length pos : Nat) :
    (readChars length pos).eval mem = .ok ((mem.slice pos length).takeWhile (· ≠ 0)) := by
  refine (Scan.eval_eq_ok_iff mem (n := pos + length)
    (R := fun cs => cs = (mem.slice pos length).takeWhile (· ≠ 0)) ?_ _).mpr rfl
  intro Q
  rw [within_readChars mem length (Nat.le_add_right pos length), forall_eq]
  exact and_iff_right (.inl le_rfl)

/-- **An element that was made for a value** is printed as the text of the value. -/
theorem eval_snmpElementAsString {value : TypedValue} {element : List UInt8}
    (helement : value.element = some element) (hstart : SharedStart value) (hn : n < 32768)
    (h : Stands mem n 0 element) (size : Nat) :
    (snmpElementAsString n size).eval mem = .ok [⟨0, snprintf size value.text⟩] := by
  cases value with
  | integer v =>
    cases helement
    -- the number that is read back is the one that was stored
    obtain ⟨q, heval, hcontent⟩ := eval_element (by decide) hn h size
    have hlen : 1 ≤ (integerContent v).length := by
      rw [integerContent, Lib.Ber.length_octets]
      exact (integerOctets_bounds v).1
    have hvalue := (eval_integer_eq_ok mem hlen).mpr ⟨hcontent.guard hn hlen, rfl⟩
    rw [hcontent.slice, integerValue_integerContent] at hvalue
    rw [heval]
    change Scan.eval mem (_ >>= _) = _
    rw [Scan.eval_bind_of_ok mem hvalue]
    rfl
  | octetString value =>
    cases value with
    | none => cases helement
    | some s =>
      cases helement
      obtain ⟨q, heval, hcontent⟩ := eval_element (by decide) hn h size
      have hchars := eval_readChars mem s.bytes.length q
      -- a C string has no NUL before its end, so that it is read to the last byte
      have hbytes : s.bytes.takeWhile (· ≠ 0) = s.bytes := by
        rw [List.takeWhile_eq_self_iff]
        intro b hb
        rw [decide_eq_true_eq]
        exact fun hzero => s.noNul (hzero ▸ hb)
      rw [hcontent.slice, hbytes] at hchars
      rw [heval]
      change Scan.eval mem (_ >>= _) = _
      rw [Scan.eval_bind_of_ok mem hchars]
      rfl
  | oid value =>
    cases value with
    | none => cases helement
    | some s =>
      obtain ⟨oid, haton, rfl⟩ := Option.map_eq_some_iff.mp helement
      obtain ⟨q, heval, hcontent⟩ := eval_element (by decide) hn h size
      obtain ⟨htwo, hroom, -⟩ := oidAton_spec haton
      obtain ⟨haccepted, hsubids⟩ :=
        (oidContent_faithful_iff htwo hroom).mpr (hstart s oid rfl haton)
      have hle := hcontent.2
      -- the first two subids share an octet, so that the content is not empty
      have hlen : 1 ≤ (oidContent oid.subidList).length := Nat.succ_le_succ (Nat.zero_le _)
      rw [← hcontent.slice] at haccepted
      have hvalue := (eval_oid_eq_ok mem hlen (by omega)).mpr
        ⟨hcontent.guard hn hlen, haccepted, rfl⟩
      rw [hcontent.slice] at hvalue
      rw [heval]
      change Scan.eval mem (_ >>= _) = _
      have htext : TypedValue.text (.oid (some s)) = (oidNtoa oid).bytes := by
        rw [TypedValue.text, haton]
      -- the text depends on the subids only, not on the length that is recorded
      have hsame : oidNtoa (oidValue (oidContent oid.subidList)) = oidNtoa oid := by
        rw [oidNtoa, hsubids, oidNtoa]
      rw [Scan.eval_bind_of_ok mem hvalue, htext, ← hsame]
      rfl
  | unsigned type v =>
    cases helement
    have htag : type.tag ∈ supportedTypes := by cases type <;> decide
    obtain ⟨q, heval, hcontent⟩ := eval_element htag hn h size
    have hlen : 1 ≤ (unsignedContent v).length := by
      rw [length_unsignedContent]
      exact (unsignedOctets_bounds v).1
    have hvalue := (eval_unsigned_eq_ok mem).mpr ⟨hcontent.guard hn hlen, rfl⟩
    rw [hcontent.slice, foldOctets_unsignedContent] at hvalue
    -- the three types share a branch of the switch
    have hbranch : rendering type.tag = .unsigned := by cases type <;> rfl
    rw [heval, renderValue, hbranch]
    change Scan.eval mem (_ >>= _) = _
    rw [Scan.eval_bind_of_ok mem hvalue]
    rfl
  | other type unsupported => cases helement

end

/-- The data is the element of a value. -/
structure Data.HoldsElement (data : Data) (value : TypedValue) : Prop where
  element : value.element = some data.bytes
  start : SharedStart value
  encodedLength : data.encodedLength = data.bytes.length
  short : data.bytes.length < 32768

/-- What is logged of data: the text of a value, the name of an exception, or nothing for NULL. -/
inductive LogText : Data → (text : List UInt8) → Prop where
  | value {data value} (h : data.HoldsElement value) : LogText data value.text
  | null : LogText mNull []
  | noSuchObject : LogText mNoSuchObject (ascii "noSuchObject")
  | noSuchInstance : LogText mNoSuchInstance (ascii "noSuchInstance")
  | endOfMibView : LogText mEndOfMibView (ascii "endOfMibView")

/-- **One text in the log.** What the buffer held before does not show. -/
theorem textIn_render {data : Data} {text : List UInt8} (h : LogText data text) {size : Nat}
    (hsize : 1 ≤ size) (buffer : Mem) :
    textIn size (render size data buffer) = text.take (size - 1) := by
  cases h with
  | @value _ value h =>
    -- behind the element the buffer of the entry may hold older bytes
    have hstands : Stands (Mem.ofList data.buffer) data.bytes.length 0 data.bytes := by
      have hsplit : data.buffer = data.bytes ++ data.buffer.drop data.encodedLength.toNat :=
        (List.take_append_drop _ _).symm
      refine ⟨?_, (Nat.zero_add _).le⟩
      rw [hsplit]
      exact Mem.holdsAt_ofList data.bytes _
    rw [render, h.encodedLength, eval_snmpElementAsString h.element h.start h.short hstands size]
    exact textIn_snprintf hsize (zero_notMem_text value) buffer
  | null =>
    -- the dump of no bytes is a NUL
    rw [List.take_nil]
    exact textIn_of_holdsAt List.not_mem_nil hsize (Mem.slice_write_self buffer 0 [0])
  | noSuchObject => exact textIn_snprintf hsize (by decide) buffer
  | noSuchInstance => exact textIn_snprintf hsize (by decide) buffer
  | endOfMibView => exact textIn_snprintf hsize (by decide) buffer

/-- A line of the log is about its value, and a buffer that the values before have left. -/
theorem dumpFrom_getElem? (line : Nat → Value → List UInt8 → List UInt8) (size : Nat)
    {values : List Value} {i : Nat} {value : Value} (h : values[i]? = some value) (first : Nat)
    (buffer : Mem) :
    ∃ buffer', (dumpFrom line size first values buffer)[i]? =
      some (line (first + i) value (textIn size (render size value.data buffer'))) := by
  induction values generalizing i first buffer with
  | nil => cases h
  | cons value' values ih =>
    cases i with
    | zero =>
      cases h
      exact ⟨buffer, rfl⟩
    | succ i =>
      obtain ⟨buffer', hline⟩ := ih h (first + 1) (render size value'.data buffer)
      refine ⟨buffer', ?_⟩
      rw [dumpFrom, List.getElem?_cons_succ, hline, Nat.add_right_comm, Nat.add_assoc]

/-- The line for an entry that has a text. -/
theorem dumpMib_getElem? {bufsiz : Nat} (hsize : 1 ≤ bufsiz) {values : List Value} {i : Nat}
    {entry : Value} (hentry : values[i]? = some entry) {text : List UInt8}
    (h : LogText entry.data text) (buffer : Mem) :
    (dumpMib bufsiz values buffer)[i]? =
      some (mibLine i ((dottedText entry.oid.subidList).take (oidNtoaSize - 1))
        entry.data.maxLength (text.take (bufsiz - 1))) := by
  obtain ⟨buffer', hline⟩ := dumpFrom_getElem? (fun i value => mibLine i (oidNtoa value.oid).bytes
    value.data.maxLength) bufsiz hentry 0 buffer
  rw [dumpMib, hline, Nat.zero_add, textIn_render h hsize, oidNtoa_bytes]

/-! ## The MIB in the log -/

/-- A call that returns 0 leaves an element of its value, if the buffer has room. -/
theorem Stores.holdsElement {calls : List MibCall} {call : MibCall} {i : Nat} {values : List Value}
    (h : Stores (tableAfter calls) call i values) (hstart : SharedStart call.var.value)
    (hallots : AllotsAll call) (hroom : HasRoom (tableAfter calls) i call) :
    ∃ entry, values[i]? = some entry ∧ entry.oid.subidList = call.var.subids ∧
      entry.data.HoldsElement call.var.value := by
  obtain ⟨entry, old, hentry, hoid, hrun, hold⟩ := h.entry
  obtain ⟨element, bytes, helement, hstore, hbytes⟩ := updateData_ok hrun
  have hshort : element.length < 32768 := by
    cases call with
    | build var =>
      have hle : (element.length : Int) ≤ var.value.allotted := length_element_le helement
      -- a new buffer has the length that was allotted
      have hlt : var.value.allotted < 32768 := hallots
      omega
    | update var pos =>
      obtain ⟨value, hvalue, rfl⟩ := hold
      -- a buffer of the table keeps the length that it was built with
      have hlt := stable_maxLength.tableAfter (by decide) calls value (List.mem_of_getElem? hvalue)
      have hle := hroom value hvalue element helement
      omega
  obtain rfl := hbytes hshort
  have hsame : entry.data.bytes = bytes := hstore ▸ old.store_bytes hshort
  have hlength : entry.data.encodedLength = bytes.length := by
    rw [hstore, old.store_encodedLength, toShort_eq (by omega) (by omega)]
  exact ⟨entry, hentry, hoid, hsame ▸ helement, hstart, hsame ▸ hlength, hsame ▸ hshort⟩

theorem HoldsInteger.holdsElement {data : Data} {v : Int32} (h : HoldsInteger data v) :
    data.HoldsElement (.integer v) where
  element := congrArg some h.bytes.symm
  start := by
    intro s oid hvalue
    cases hvalue
  encodedLength := by rw [h.encodedLength, h.bytes]
  short := by
    have hlen := length_integerBytes v
    have hb := integerOctets_bounds v
    rw [h.bytes]
    omega

/-- The OIDs of the words are printed as a whole. -/
theorem SdkField.length_dottedText_le (field : SdkField) :
    (dottedText field.oid.subidList).length ≤ oidNtoaSize - 1 := by
  have hall : ∀ field ∈ sdkFields, (dottedText field.oid.subidList).length ≤ oidNtoaSize - 1 := by
    decide +kernel
  exact hall field (mem_sdkFields field)

/-- The data has a text, and the buffer has room for it. -/
def Logged (data : Data) : Prop := ∃ text, LogText data text ∧ text.length ≤ maxPacketSize - 1

section

variable {config : Config} {values : List Value} {request : Request}
  (hvalues : ∀ value ∈ values, Logged value.data)

include hvalues

theorem logged_lookupOf (oid : Oid) : Logged (answerOf (lookupOf values request) oid).data := by
  cases hlookup : lookupOf values request oid with
  | found value =>
    rw [(isMissing_of_found hlookup).2]
    exact hvalues value (lookupOf_mem hlookup)
  | missing exception =>
    rw [(isMissing_of_missing hlookup).2]
    unfold lookupOf at hlookup
    -- a GET has two exceptions, a GETNEXT one
    split at hlookup
    · rcases lookupGet_missing hlookup with rfl | rfl
      · exact ⟨_, .noSuchObject, by decide⟩
      · exact ⟨_, .noSuchInstance, by decide⟩
    · unfold lookupNext at hlookup
      split at hlookup <;> cases hlookup
      exact ⟨_, .endOfMibView, by decide⟩

theorem logged_nextAnswer (oid : Oid) : Logged (nextAnswer values oid).data := by
  by_cases hmissing : isMissing (lookupNext values) oid = true
  · rw [(nextAnswer_eq_end_iff oid).mpr hmissing]
    exact ⟨_, .endOfMibView, by decide⟩
  · rcases @lookupNext_spec values oid with ⟨value, hvalue, hfound⟩ | ⟨type, hnone⟩
    · rw [nextAnswer, (isMissing_of_found hfound).2]
      exact hvalues value hvalue
    · exact absurd (isMissing_of_missing hnone).1 hmissing

/-- Every value that is encoded has a text. -/
theorem logged_valuesToEncode {value : Value}
    (h : value ∈ valuesToEncode request (fullAnswer config values request)) :
    Logged value.data := by
  unfold valuesToEncode at h
  split at h
  · -- an error has left NULL
    obtain ⟨oid, -, rfl⟩ := List.mem_map.mp h
    exact ⟨_, .null, by decide⟩
  · -- a GETBULK has a first part, one value for each OID, and then rows
    by_cases hbulk : request.type = berTypeSnmpGetbulk
    · unfold fullAnswer at h
      split at h
      · exact absurd h List.not_mem_nil
      · rw [if_pos hbulk] at h
        rcases List.mem_append.mp h with hfirst | hrows
        · obtain ⟨oid, -, rfl⟩ := List.mem_map.mp hfirst
          exact logged_nextAnswer hvalues oid
        · obtain ⟨r, -, hrow⟩ := (Lib.mem_rows _ _).mp hrows
          rw [Lib.row_eq_map_asked] at hrow
          obtain ⟨oid, -, rfl⟩ := List.mem_map.mp hrow
          exact logged_nextAnswer hvalues oid
    · obtain ⟨n, hanswers⟩ := @fullAnswer_values config values request hbulk
      rw [hanswers] at h
      obtain ⟨oid, -, rfl⟩ := List.mem_map.mp h
      exact logged_lookupOf hvalues oid

end

/-- The entries of the agent are numbers. -/
theorem Refreshed.logged {demo : Bool} {values : List Value} (h : Refreshed demo values) :
    ∀ value ∈ values, Logged value.data := by
  intro value hvalue
  obtain ⟨v, hdata⟩ := h.integers value hvalue
  have hlen := length_intText_le v
  exact ⟨_, .value hdata.holdsElement, hlen.trans (by decide)⟩

/-- A GET for the temperature. -/
def temperatureGet : Request :=
  ⟨communityP, berTypeSnmpGet, snmpVersion2c, 7, 0, 0, [(SdkField.parsed .selfTemp).oid]⟩

/-- The text for bytes from index `i` on. -/
def hexPieces : (i : Nat) → List UInt8 → List UInt8
  | _, [] => []
  | i, b :: bs => (if i = 0 then hexText b else 0x20 :: hexText b) ++ hexPieces (i + 1) bs

/-- The digits are told apart, and from a NUL. -/
theorem hexDigit_distinct {d d' : Nat} (hd : d < 16) (hd' : d' < 16) :
    hexDigit d ≠ 0 ∧ (hexDigit d = hexDigit d' ↔ d = d') := by
  have hall : ∀ i j : Fin 16, hexDigit i ≠ 0 ∧ (hexDigit i = hexDigit j ↔ i.val = j.val) := by
    decide +kernel
  exact hall ⟨d, hd⟩ ⟨d', hd'⟩

theorem zero_notMem_hexText (b : UInt8) : 0 ∉ hexText b := by
  have hb := b.toNat_lt
  have hhigh : b.toNat / 16 < 16 := by omega
  have hlow : b.toNat % 16 < 16 := by omega
  simp only [hexText, List.mem_cons, List.not_mem_nil, or_false, not_or]
  exact ⟨(hexDigit_distinct hhigh hhigh).1.symm, (hexDigit_distinct hlow hlow).1.symm⟩

/-- Two digits are one byte. -/
theorem hexText_inj {b b' : UInt8} (h : hexText b = hexText b') : b = b' := by
  have hb := b.toNat_lt
  have hb' := b'.toNat_lt
  simp only [hexText, List.cons.injEq, and_true] at h
  have hhigh : b.toNat / 16 = b'.toNat / 16 :=
    (hexDigit_distinct (by omega) (by omega)).2.mp h.1
  have hlow : b.toNat % 16 = b'.toNat % 16 :=
    (hexDigit_distinct (by omega) (by omega)).2.mp h.2
  apply UInt8.toNat_inj.mp
  omega

theorem length_hexPieces_succ (i : Nat) (bs : List UInt8) :
    (hexPieces (i + 1) bs).length = 3 * bs.length := by
  induction bs generalizing i with
  | nil => rfl
  | cons b bs ih =>
    rw [hexPieces, if_neg (Nat.succ_ne_zero i), List.length_append, ih, List.length_cons,
      List.length_cons, hexText, List.length_cons, List.length_singleton]
    omega

theorem length_hexPieces_zero {bs : List UInt8} (hne : bs ≠ []) :
    (hexPieces 0 bs).length = 3 * bs.length - 1 := by
  cases bs with
  | nil => exact absurd rfl hne
  | cons b bs =>
    rw [hexPieces, if_pos rfl, List.length_append, length_hexPieces_succ, List.length_cons, hexText,
      List.length_cons, List.length_singleton]
    omega

/-- The bytes are read off their text. The induction is on the bytes. -/
theorem hexPieces_inj {i : Nat} {bs bs' : List UInt8} (h : hexPieces i bs = hexPieces i bs') :
    bs = bs' := by
  induction bs generalizing i bs' with
  | nil =>
    cases bs' with
    | nil => rfl
    | cons b' bs' =>
      rw [hexPieces, hexPieces] at h
      split at h <;> cases h
  | cons b bs ih =>
    cases bs' with
    | nil =>
      rw [hexPieces, hexPieces] at h
      split at h <;> cases h
    | cons b' bs' =>
      -- whether there is a blank in front depends on the index alone
      have hlen : (if i = 0 then hexText b else 0x20 :: hexText b).length =
          (if i = 0 then hexText b' else 0x20 :: hexText b').length := by
        split <;> rfl
      rw [hexPieces, hexPieces] at h
      obtain ⟨hpiece, hrest⟩ := List.append_inj h hlen
      have htext : hexText b = hexText b' := by
        split at hpiece
        · exact hpiece
        · exact (List.cons.inj hpiece).2
      rw [hexText_inj htext, ih hrest]

theorem holdsAt_write {buffer : Mem} {text : List UInt8} (h : buffer.HoldsAt 0 text)
    (bytes : List UInt8) : (buffer.write text.length bytes).HoldsAt 0 (text ++ bytes) := by
  rw [Mem.holdsAt_append, Nat.zero_add]
  refine ⟨?_, Mem.slice_write_self buffer _ bytes⟩
  have hsame : Mem.AgreeBelow text.length (buffer.write text.length bytes) buffer := fun i hi =>
    Mem.write_of_lt buffer bytes hi
  exact (hsame.slice_eq (Nat.zero_add _).le).trans h

/-- The loop prints the text as far as the buffer goes. The induction is on the bytes. -/
theorem hexLoop_holdsAt {bufsiz : Nat} (bs : List UInt8) (i : Nat) {text : List UInt8}
    (hlen : text.length < bufsiz) {buffer : Mem} (h : buffer.HoldsAt 0 text) (hne : bs ≠ []) :
    (hexLoop bufsiz text.length i bs buffer).HoldsAt 0
      ((text ++ hexPieces i bs).take (bufsiz - 1) ++ [0]) := by
  induction bs generalizing i text buffer with
  | nil => exact absurd rfl hne
  | cons b bs ih =>
    rw [hexLoop, hexPieces]
    generalize (if i = 0 then hexText b else 0x20 :: hexText b) = piece
    have hroom : bufsiz - text.length ≠ 0 := by omega
    have hstored : snprintf (bufsiz - text.length) piece =
        piece.take (bufsiz - text.length - 1) ++ [0] := if_neg hroom
    have hholds := holdsAt_write h (snprintf (bufsiz - text.length) piece)
    rw [hstored] at hholds ⊢
    split
    · -- the piece is cut off
      have htext : text.take (bufsiz - 1) = text := List.take_of_length_le (by omega)
      rw [← List.append_assoc] at hholds ⊢
      rwa [List.take_append_of_le_length (by rw [List.length_append]; omega), List.take_append,
        htext, Nat.sub_right_comm bufsiz 1]
    · have hwhole : piece.take (bufsiz - text.length - 1) = piece :=
        List.take_of_length_le (by omega)
      rw [hwhole] at hholds ⊢
      rw [← List.append_assoc] at hholds ⊢
      have hlen' : (text ++ piece).length < bufsiz := by
        rw [List.length_append]
        omega
      cases bs with
      | nil =>
        rw [hexPieces, List.append_nil, List.take_of_length_le (by omega)]
        exact hholds
      | cons b' bs =>
        rw [← List.length_append]
        exact ih (i + 1) hlen' (Mem.holdsAt_append.mp hholds).1 (List.cons_ne_nil _ _)

theorem zero_notMem_hexPieces (i : Nat) (bs : List UInt8) : 0 ∉ hexPieces i bs := by
  induction bs generalizing i with
  | nil => exact List.not_mem_nil
  | cons b bs ih =>
    rw [hexPieces, List.mem_append, not_or]
    refine ⟨?_, ih (i + 1)⟩
    split
    · exact zero_notMem_hexText b
    · rw [List.mem_cons, not_or]
      exact ⟨by decide, zero_notMem_hexText b⟩

theorem Client.bytes_ne_nil {client : Client} (hsize : 1 ≤ client.size) :
    client.packet.slice 0 client.size ≠ [] := by
  rw [← List.length_pos_iff, Mem.length_slice]
  exact hsize

/-- **What is logged of a packet**, unless it is empty: its bytes in hex, as far as the buffer
    goes. -/
theorem packetText_eq {bufsiz : Nat} (hbuf : 1 ≤ bufsiz) (buffer : Mem) {client : Client}
    (hsize : 1 ≤ client.size) :
    packetText bufsiz buffer client =
      (hexPieces 0 (client.packet.slice 0 client.size)).take (bufsiz - 1) := by
  have hholds := hexLoop_holdsAt (client.packet.slice 0 client.size) 0
    (show ([] : List UInt8).length < bufsiz from hbuf) (buffer.holdsAt_nil 0)
    (Client.bytes_ne_nil hsize)
  refine textIn_of_holdsAt (fun h => zero_notMem_hexPieces _ _ (List.mem_of_mem_take h)) ?_ hholds
  rw [List.length_take]
  omega

/-- **The log tells packets apart**: with a buffer of three characters for each byte, the lines for
    two packets that are not empty are the same only for the same bytes. -/
theorem packetText_eq_iff {bufsiz : Nat} (buffer buffer' : Mem) {client client' : Client}
    (hsize : 1 ≤ client.size) (hsize' : 1 ≤ client'.size) (hfit : 3 * client.size ≤ bufsiz)
    (hfit' : 3 * client'.size ≤ bufsiz) :
    packetText bufsiz buffer client = packetText bufsiz buffer' client' ↔
      client.packet.slice 0 client.size = client'.packet.slice 0 client'.size := by
  have hwhole : ∀ client : Client, 1 ≤ client.size → 3 * client.size ≤ bufsiz → ∀ buffer,
      packetText bufsiz buffer client = hexPieces 0 (client.packet.slice 0 client.size) := by
    intro client hsize hfit buffer
    rw [packetText_eq (by omega) buffer hsize, List.take_of_length_le]
    rw [length_hexPieces_zero (Client.bytes_ne_nil hsize), Mem.length_slice]
    omega
  rw [hwhole client hsize hfit, hwhole client' hsize' hfit']
  exact ⟨hexPieces_inj, congrArg (hexPieces 0)⟩

theorem packetText_eq_iff_plain :
    packetText 16 (fun _ => 0x41) (.holding (Mem.ofList [0x30, 0xFF]) 2) =
        packetText 16 (fun _ => 0) (.holding (Mem.ofList [0x30, 0xFE]) 2) ↔
      (Mem.ofList [0x30, 0xFF]).slice 0 2 = (Mem.ofList [0x30, 0xFE]).slice 0 2 :=
  packetText_eq_iff (fun _ => 0x41) (fun _ => 0) (by decide) (by decide) (by decide) (by decide)

end SdkSnmpd
