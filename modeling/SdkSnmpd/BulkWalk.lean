import SdkSnmpd.Bulk

/-!
# Walking the MIB in Bulk

A manager that walks over the MIB with GETBULK requests for one OID: each asks for the entries
after the last one of the answer before.

## Contents

- `bulkWalk`: the answers, one list for each request.
- `askBulk_eq`: a request is answered with the next entries, and with the end of the MIB if it is
  among them.
- `bulkWalk_eq_walk`: the walk meets what a walk with GETNEXT meets, with fewer requests.
-/

namespace SdkSnmpd

open Lib (Ascending isBeyond rows rounds advance)

/-! ## The walk -/

/-- The answer to a GETBULK request for a single OID. -/
def askBulk (values : List Value) (request : Request) (oid : Oid) : Except Failure Response :=
  handleSnmpGetbulk values { request with oidList := [oid] } emptyResponse

/-- At most so many requests: ask, and go on with the OID of the last value unless it is the end
    of the MIB. -/
def bulkWalk (values : List Value) (request : Request) : (requests : Nat) → Oid → List (List Value)
  | 0, _ => []
  | requests + 1, oid =>
      match askBulk values request oid with
      | .error _ => []
      | .ok response =>
          response.valueList ::
            match response.valueList.getLast? with
            | none => []
            | some value =>
                if value.data = mEndOfMibView then []
                else bulkWalk values request requests value.oid

/-- Values, and after them the report that none follows. -/
def ending : Oid → List Value → List Value
  | oid, [] => [⟨oid, mEndOfMibView⟩]
  | _, value :: values => value :: ending value.oid values

theorem length_ending (oid : Oid) (values : List Value) :
    (ending oid values).length = values.length + 1 := by
  induction values generalizing oid with
  | nil => rfl
  | cons value values ih => rw [ending, List.length_cons, List.length_cons, ih]

/-- The first values are those before the report. -/
theorem take_ending (oid : Oid) (values : List Value) {m : Nat} (h : m ≤ values.length) :
    (ending oid values).take m = values.take m := by
  induction m generalizing oid values with
  | zero => rfl
  | succ m ih =>
    cases values with
    | nil => exact absurd h (Nat.not_succ_le_zero m)
    | cons value values =>
      rw [ending, List.take_succ_cons, List.take_succ_cons,
        ih value.oid values (Nat.le_of_succ_le_succ h)]

/-- What follows a value is the ending from its OID. -/
theorem ending_append (oid : Oid) (values rest : List Value) (value : Value) :
    ending oid (values ++ value :: rest) = values ++ value :: ending value.oid rest := by
  induction values generalizing oid with
  | nil => rfl
  | cons first values ih => rw [List.cons_append, ending, ih, List.cons_append]

/-- The last value is the report. -/
theorem getLast?_ending (oid : Oid) (values : List Value) :
    ∃ last, (ending oid values).getLast? = some ⟨last, mEndOfMibView⟩ := by
  induction values generalizing oid with
  | nil => exact ⟨oid, rfl⟩
  | cons value values ih =>
    obtain ⟨last, hlast⟩ := ih value.oid
    exact ⟨last, by rw [ending, List.getLast?_cons, hlast]; rfl⟩

/-- A version 2 conversation is made of these answers. -/
theorem map_snd_conversation (oid : Oid) (values : List Value) :
    (conversation snmpVersion2c oid values).map Prod.snd =
      (ending oid values).map fun value => .ok ⟨snmpStatusOk, 0, [value]⟩ := by
  induction values generalizing oid with
  | nil => rfl
  | cons value values ih => rw [conversation, ending, List.map_cons, List.map_cons, ih]

/-! ## One request -/

section

variable {values : List Value} (hasc : Ascending (fun value => oidKey value.oid) values)

include hasc

/-- The GETNEXT answer to an OID, from the entries after it. -/
theorem nextAnswer_beyond (oid : Oid) :
    match values.filter (isAfter oid) with
    | [] => nextAnswer values oid = ⟨oid, mEndOfMibView⟩
    | value :: rest => nextAnswer values oid = value ∧
        nextAnswer values oid ≠ ⟨oid, mEndOfMibView⟩ ∧ values.filter (isAfter value.oid) = rest := by
  cases hfind : values.find? (isAfter oid) with
  | none =>
    have hnil : values.filter (isAfter oid) = [] := by
      rw [isAfter_eq] at hfind ⊢
      exact Lib.beyond_eq_nil hfind
    rw [hnil]
    exact (isMissing_of_missing (lookupNext_of_none hfind)).2
  | some value =>
    have hcons : values.filter (isAfter oid) = value :: values.filter (isAfter value.oid) := by
      rw [isAfter_eq] at hfind ⊢
      rw [isAfter_eq]
      exact Lib.beyond_eq_cons hasc hfind
    obtain ⟨hfound, hnext⟩ := isMissing_of_found (lookupNext_of_some hfind)
    rw [hcons]
    refine ⟨hnext, ?_, rfl⟩
    rw [Ne, nextAnswer_eq_end_iff, hfound]
    exact Bool.false_ne_true

/-- The rows of a single column are the next values. The induction is on their number. -/
theorem rows_single (m : Nat) (oid : Oid) :
    rows (nextAnswer values) Value.oid [oid] (rounds (rowEnds values [oid]) m) =
      (ending oid (values.filter (isAfter oid))).take m := by
  induction m generalizing oid with
  | zero => simp [rows]
  | succ m ih =>
    -- with a single column, a row ends the repetitions if its one value does
    have hends : rowEnds values [oid] 0 = decide (nextAnswer values oid = ⟨oid, mEndOfMibView⟩) := by
      simp [rowEnds, Lib.row, Lib.asked]
    have hnext := nextAnswer_beyond hasc oid
    rw [Lib.rounds_succ, hends]
    cases hbeyond : values.filter (isAfter oid) with
    | nil =>
      -- the first row ends the repetitions
      rw [hbeyond] at hnext
      rw [hnext, decide_eq_true rfl, if_pos rfl, Lib.rows_succ, List.map_singleton, hnext]
      simp [rows, ending]
    | cons value rest =>
      rw [hbeyond] at hnext
      obtain ⟨hvalue, hne, hrest⟩ := hnext
      have hlater : advance (nextAnswer values) Value.oid [oid] = [value.oid] := by
        simp [advance, hvalue]
      rw [decide_eq_false hne, if_neg Bool.false_ne_true]
      simp only [rowEnds_succ, hlater]
      rw [Lib.rows_succ, hlater, ih value.oid, hrest, ending, List.take_succ_cons,
        List.map_singleton, hvalue, List.singleton_append]

end

/-- A request for the next `m` entries: it has no non-repeaters, and the answer has room. -/
structure BulkRequest (request : Request) (m : Nat) : Prop where
  nonRepeaters : request.nonRepeaters.toInt ≤ 0
  maxRepetitions : request.maxRepetitions.toInt = m
  pos : 1 ≤ m
  room : m ≤ maxNrValues

section

variable {values : List Value} {request : Request} {m : Nat}

/-- **One request** is answered with the next `m` values. -/
theorem askBulk_eq (hasc : Ascending (fun value => oidKey value.oid) values)
    (h : BulkRequest request m) (oid : Oid) :
    askBulk values request oid =
      .ok ⟨snmpStatusOk, 0, (ending oid (values.filter (isAfter oid))).take m⟩ := by
  -- the code takes negative counts as 0
  have hnone : (max request.nonRepeaters.toInt 0).toNat = 0 := by
    have hle := h.nonRepeaters
    omega
  have hrows : (max request.maxRepetitions.toInt 0).toNat = m := by
    rw [h.maxRepetitions]
    omega
  have hanswers : bulkAnswers values { request with oidList := [oid] } =
      (ending oid (values.filter (isAfter oid))).take m := by
    simp only [bulkAnswers, rowCount, repeaters, nonRepeaterCount, hnone, hrows, Nat.zero_min,
      List.take_zero, List.map_nil, List.nil_append, List.drop_zero]
    exact rows_single hasc m oid
  -- the value list does not overflow
  have hlen : (bulkAnswers values { request with oidList := [oid] }).length ≤ maxNrValues := by
    rw [hanswers, List.length_take]
    exact (Nat.min_le_left _ _).trans h.room
  have hroom : ({ request with oidList := [oid] } : Request).oidList.length ≤ maxNrValues :=
    show 1 ≤ maxNrValues by decide
  rw [askBulk, handleSnmpGetbulk_eq values _ hroom, if_pos hlen, hanswers]

/-! ## The whole walk -/

/-- The entries after an OID are those up to one of them, and the entries after that. -/
theorem ending_split (hasc : Ascending (fun value => oidKey value.oid) values) (oid : Oid) {k : Nat}
    (hk : k < (values.filter (isAfter oid)).length) :
    ∃ value ∈ values,
      (values.filter (isAfter oid)).take (k + 1) =
        (values.filter (isAfter oid)).take k ++ [value] ∧
      values.filter (isAfter value.oid) = (values.filter (isAfter oid)).drop (k + 1) ∧
      ending oid (values.filter (isAfter oid)) = (values.filter (isAfter oid)).take (k + 1) ++
        ending value.oid (values.filter (isAfter value.oid)) := by
  have hpage : (values.filter (isAfter oid)).take (k + 1) =
      (values.filter (isAfter oid)).take k ++ [(values.filter (isAfter oid))[k]] := by
    rw [List.take_succ_eq_append_getElem hk]
  have hrest : values.filter (isAfter (values.filter (isAfter oid))[k].oid) =
      (values.filter (isAfter oid)).drop (k + 1) := by
    simp only [isAfter_eq] at hk ⊢
    exact Lib.beyond_getElem hasc k hk
  refine ⟨_, List.mem_of_mem_filter (List.getElem_mem hk), hpage, hrest, ?_⟩
  rw [hpage, hrest, List.append_assoc, List.singleton_append, ← ending_append,
    ← List.drop_eq_getElem_cons, List.take_append_drop]

/-- The walk meets every entry after its start and then the end, in pages of `m` values. The
    induction is on the requests: each uses up `m` entries, or ends the walk. -/
theorem bulkWalk_eq (hasc : Ascending (fun value => oidKey value.oid) values)
    (hvalues : ∀ value ∈ values, value.data ≠ mEndOfMibView) (h : BulkRequest request m)
    (requests : Nat) (oid : Oid) (hlen : (values.filter (isAfter oid)).length / m < requests) :
    (bulkWalk values request requests oid).flatten = ending oid (values.filter (isAfter oid)) ∧
      (bulkWalk values request requests oid).length =
        (values.filter (isAfter oid)).length / m + 1 := by
  induction requests generalizing oid with
  | zero => exact absurd hlen (Nat.not_lt_zero _)
  | succ requests ih =>
    obtain ⟨k, rfl⟩ := Nat.exists_eq_add_of_le' h.pos
    rw [bulkWalk, askBulk_eq hasc h]
    dsimp only
    by_cases hall : (values.filter (isAfter oid)).length < k + 1
    · -- the last page
      obtain ⟨last, hlast⟩ := getLast?_ending oid (values.filter (isAfter oid))
      rw [List.take_of_length_le (by rw [length_ending]; exact hall), hlast]
      simp [Nat.div_eq_of_lt hall]
    · have hle : k + 1 ≤ (values.filter (isAfter oid)).length := Nat.not_lt.mp hall
      obtain ⟨value, hmem, hpage, hrest, hsplit⟩ := ending_split hasc oid hle
      -- a full page leaves one request less
      have hcount : (values.filter (isAfter value.oid)).length / (k + 1) + 1 =
          (values.filter (isAfter oid)).length / (k + 1) := by
        rw [hrest, List.length_drop, ← Nat.add_div_right _ h.pos, Nat.sub_add_cancel hle]
      obtain ⟨hflatten, hrequests⟩ := ih value.oid (by omega)
      rw [take_ending oid _ hle, hsplit, hpage, List.getLast?_concat]
      dsimp only
      rw [if_neg (hvalues value hmem), List.flatten_cons, List.length_cons, hflatten, hrequests,
        hcount]
      exact ⟨rfl, rfl⟩

end

/-- **Walking in bulk.** In a MIB that ascends under `oid_cmp`, and from every start, a walk with
    GETBULK requests for `m` entries gets the same values in the same order as a walk with version 2
    GETNEXT requests, the end of the MIB included. It takes one request for `m` of the others,
    rounded up. -/
theorem bulkWalk_eq_walk (values : List Value)
    (hasc : values.Pairwise fun value value' => oidCmp value.oid value'.oid < 0)
    (hvalues : ∀ value ∈ values, value.data ≠ mEndOfMibView) {request : Request} {m : Nat}
    (h : BulkRequest request m) {next : Request} (hversion : next.version = snmpVersion2c)
    (start : Oid) (requests : Nat) (hlen : values.length < requests) :
    ((bulkWalk values request requests start).flatten.map
        fun value => .ok ⟨snmpStatusOk, 0, [value]⟩) =
      (walk values next requests start).map Prod.snd ∧
    (bulkWalk values request requests start).length =
      ((walk values next requests start).length + (m - 1)) / m := by
  have hasc' : Ascending (fun value => oidKey value.oid) values :=
    hasc.imp (oidCmp_neg_iff _ _).mp
  have hfilter : (values.filter (isAfter start)).length ≤ values.length :=
    List.length_filter_le _ _
  have hpages : (values.filter (isAfter start)).length / m ≤
      (values.filter (isAfter start)).length := Nat.div_le_self _ _
  obtain ⟨hflatten, hrequests⟩ := bulkWalk_eq hasc' hvalues h requests start (by omega)
  rw [hflatten, hrequests, walk_eq hasc' next requests start (by omega), hversion,
    map_snd_conversation, length_conversation]
  refine ⟨rfl, ?_⟩
  have hpos := h.pos
  rw [show (values.filter (isAfter start)).length + 1 + (m - 1) =
    (values.filter (isAfter start)).length + m by omega, Nat.add_div_right _ hpos]

/-- A GETBULK for up to ten entries. -/
def tenEntries : Request := ⟨.ofList [0x70], berTypeSnmpGetbulk, snmpVersion2c, 7, 0, 10, []⟩

theorem bulkWalk_eq_walk_nestedValues :
    ((bulkWalk nestedValues tenEntries 3 ⟨[1], 2⟩).flatten.map
        fun value => (.ok ⟨snmpStatusOk, 0, [value]⟩ : Except Failure Response)) =
      (walk nestedValues tenEntries 3 ⟨[1], 2⟩).map Prod.snd ∧
    (bulkWalk nestedValues tenEntries 3 ⟨[1], 2⟩).length =
      ((walk nestedValues tenEntries 3 ⟨[1], 2⟩).length + (10 - 1)) / 10 :=
  bulkWalk_eq_walk nestedValues (by decide) (by decide)
    (show BulkRequest tenEntries 10 from ⟨by decide, by decide, by decide, by decide⟩) rfl
    ⟨[1], 2⟩ 3 (by decide)

end SdkSnmpd
