import SdkSnmpd.Lib.Run
import SdkSnmpd.OidReencoding

/-!
# The Loops of the OID Decoder

`decode_snmp_element_value_oid` of `protocol.c`, step by step. Two nested loops lower one counter:
the outer one tests it, and the inner one tests it before it is lowered. Here the counter is an
`int`, the subids are stored into memory, and nothing bounds the number of steps beforehand.

## Contents

- `OidLoops.step`, `OidLoops.start`: one test of a loop with its body, and what comes before.
- `OidLoops.Sound`: the counter is what is left of the content at every test.
- `OidLoops.outcome_step`: what the loops come to is the outcome of `decodeSubids`.
- `oidLoops_exact`: the loops end, stay in the array, and accept exactly the contents with complete
  subids that the array takes.
-/

namespace SdkSnmpd

open Lib (Mem)
open Lib.Ber (foldGroups rows groupNumber)

/-! ## One step -/

/-- The `oid_t` that is written to. `subidList` goes on with the memory behind the array, and
    `written` are the indices of all stores so far. -/
structure OidMemory where
  subidList : Nat → UInt32
  subidListLength : Nat
  encodedLength : Int
  written : List Nat

/-- A store at an index. -/
def OidMemory.put (value : OidMemory) (i : Nat) (subid : UInt32) : OidMemory :=
  { value with
    subidList := fun j => if j = i then subid else value.subidList j
    written := value.written ++ [i] }

/-- A store at `subid_list_length++`. -/
def OidMemory.push (value : OidMemory) (subid : UInt32) : OidMemory :=
  { value.put value.subidListLength subid with subidListLength := value.subidListLength + 1 }

/-- Where the function is: at the test of one of its loops, or behind a `return`. -/
inductive LoopPlace where
  | outer
  | inner
  | stopped (result : Except Failure Unit)

structure OidLoops where
  place : LoopPlace
  length : Int
  pos : Nat
  value : OidMemory

namespace OidLoops

/-- The function returns -1. -/
def fail (d : OidLoops) (e : Failure) : OidLoops := { d with place := .stopped (.error e) }

/-- The test of a loop, and its body up to the next test. -/
def step (packet : Mem) (d : OidLoops) : OidLoops :=
  match d.place with
  | .outer =>
      if d.length ≠ 0 then
        if d.value.subidListLength < maxNrSubids then
          { d with place := .inner, value := d.value.put d.value.subidListLength 0 }
        else d.fail (efault "overflow for OID byte")
      else { d with place := .stopped (.ok ()) }
  | .inner =>
      -- the counter is lowered behind the test, also if the test ends the loop
      let i := d.value.subidListLength
      let lowered : OidLoops := { d with length := d.length - 1 }
      if d.length ≠ 0 then
        let octet := packet d.pos
        let subid := (d.value.subidList i <<< 7) + (octet &&& 0x7F).toUInt32
        let shifted : OidLoops := { lowered with value := d.value.put i subid }
        if octet &&& 0x80 ≠ 0 then
          if shifted.length = 0 then shifted.fail (einval "underflow for OID byte")
          else { shifted with pos := d.pos + 1 }
        else
          { shifted with
            place := .outer
            pos := d.pos + 1
            value := { shifted.value with subidListLength := i + 1 } }
      else { lowered with place := .outer, value := { d.value with subidListLength := i + 1 } }
  | .stopped _ => d

/-- What comes before the loops. Nothing has been stored so far. -/
def start (packet : Mem) (size pos length : Nat) (value : OidMemory) : OidLoops :=
  let value := { value with written := [] }
  let d : OidLoops := ⟨.outer, length, pos, value⟩
  if guardPasses size length pos then
    if length > 0xFFFF then
      { d with value := { value with encodedLength := toShort length } }.fail
        ⟨none, "could not decode: internal error"⟩
    else
      let value := { value with encodedLength := oidEncodedLength length, subidListLength := 0 }
      if length ≠ 0 then
        if packet pos &&& 0x80 = 0 then
          { d with
            length := d.length - 1
            pos := pos + 1
            value := (value.push (packet pos / 40).toUInt32).push (packet pos % 40).toUInt32 }
        else { d with value := value }.fail (einval "unsupported OID startbyte %02X")
      else { d with value := value }.fail (einval "underflow for OID startbyte")
  else d.fail (einval "underflow for oid")

end OidLoops

/-- The subids in use. -/
def OidMemory.subids (value : OidMemory) : List UInt32 :=
  (List.range value.subidListLength).map value.subidList

/-- A store behind the subids in use leaves them. -/
theorem OidMemory.subids_put (value : OidMemory) (subid : UInt32) :
    (value.put value.subidListLength subid).subids = value.subids := by
  apply List.map_congr_left
  intro i hi
  exact if_neg (Nat.ne_of_lt (List.mem_range.mp hi))

theorem OidMemory.subids_push (value : OidMemory) (subid : UInt32) :
    (value.push subid).subids = value.subids ++ [subid] := by
  have hlast : (value.push subid).subidList value.subidListLength = subid := if_pos rfl
  rw [subids, show (value.push subid).subidListLength = value.subidListLength + 1 from rfl,
    List.range_succ, List.map_append, List.map_singleton, hlast]
  exact congrArg (· ++ [subid]) (value.subids_put subid)

namespace OidLoops

/-! ## What one step preserves -/

/-- The cursor and the counter add up to the end of the content, the inner loop is entered with
    octets left, and all stores are in the array. -/
structure Sound (stop : Nat) (d : OidLoops) : Prop where
  written : ∀ i ∈ d.value.written, i < maxNrSubids
  room : d.value.subidListLength ≤ maxNrSubids
  outer : d.place = .outer → 0 ≤ d.length ∧ d.pos + d.length = stop
  inner : d.place = .inner →
    1 ≤ d.length ∧ d.pos + d.length = stop ∧ d.value.subidListLength < maxNrSubids

/-- The steps that are left, at most. -/
def measure (d : OidLoops) : Nat :=
  match d.place with
  | .outer => 2 * d.length.toNat + 1
  | .inner => 2 * d.length.toNat
  | .stopped _ => 0

/-- The function has returned. -/
def Stopped (d : OidLoops) : Prop := ∃ result, d.place = .stopped result

theorem step_stopped {d : OidLoops} (h : d.Stopped) (packet : Mem) : d.step packet = d := by
  obtain ⟨result, hplace⟩ := h
  simp only [step, hplace]

theorem Sound.written_put {stop : Nat} {d : OidLoops} (h : d.Sound stop)
    (hroom : d.value.subidListLength < maxNrSubids) :
    ∀ i ∈ d.value.written ++ [d.value.subidListLength], i < maxNrSubids := by
  intro i hi
  rcases List.mem_append.mp hi with hbefore | hnow
  · exact h.written i hbefore
  · rw [List.mem_singleton] at hnow
    exact hnow ▸ hroom

/-- A return keeps what has been stored, and no steps are left. -/
theorem sound_of_stopped {stop steps : Nat} {d : OidLoops} {result : Except Failure Unit}
    (hplace : d.place = .stopped result) (hwritten : ∀ i ∈ d.value.written, i < maxNrSubids)
    (hroom : d.value.subidListLength ≤ maxNrSubids) (hsteps : 0 < steps) :
    d.Sound stop ∧ d.measure < steps := by
  refine ⟨⟨hwritten, hroom, fun h => ?_, fun h => ?_⟩, ?_⟩
  · rw [hplace] at h
    cases h
  · rw [hplace] at h
    cases h
  · simp only [measure, hplace]
    exact hsteps

theorem Sound.measure_pos {stop : Nat} {d : OidLoops} (h : d.Sound stop) (hgo : ¬ d.Stopped) :
    0 < d.measure := by
  unfold measure
  cases hplace : d.place with
  | stopped result => exact absurd ⟨result, hplace⟩ hgo
  | outer => exact Nat.succ_pos _
  | inner =>
    have hlen := (h.inner hplace).1
    dsimp only
    omega

/-- **One step** keeps the counter what is left of the content, and there is less left to do. The
    cases are those of the body. -/
theorem Sound.step {stop : Nat} {d : OidLoops} (h : d.Sound stop) (packet : Mem)
    (hgo : ¬ d.Stopped) :
    (d.step packet).Sound stop ∧ (d.step packet).measure < d.measure := by
  have hsteps := h.measure_pos hgo
  cases hplace : d.place with
  | stopped result => exact absurd ⟨result, hplace⟩ hgo
  | outer =>
    obtain ⟨hlen, hpos⟩ := h.outer hplace
    unfold OidLoops.step
    simp only [hplace]
    split_ifs with hzero hroom
    · -- an octet is left, and the array has a place for the subid
      have hleft : 1 ≤ d.length := by omega
      refine ⟨⟨h.written_put hroom, h.room, nofun, fun _ => ⟨hleft, hpos, hroom⟩⟩, ?_⟩
      simp only [measure, hplace]
      omega
    · exact sound_of_stopped rfl h.written h.room hsteps
    · exact sound_of_stopped rfl h.written h.room hsteps
  | inner =>
    obtain ⟨hlen, hpos, hroom⟩ := h.inner hplace
    unfold OidLoops.step
    simp only [hplace]
    split_ifs with hzero hmore hlast
    · -- the content ends inside a subid
      exact sound_of_stopped rfl (h.written_put hroom) h.room hsteps
    · have hleft : 1 ≤ d.length - 1 := by omega
      refine ⟨⟨h.written_put hroom, h.room, nofun, fun _ => ⟨hleft, ?_, hroom⟩⟩, ?_⟩
      · simp only [Nat.cast_add, Nat.cast_one]
        omega
      · simp only [measure, hplace]
        omega
    · -- the subid is complete
      have hleft : 0 ≤ d.length - 1 := by omega
      refine ⟨⟨h.written_put hroom, hroom, fun _ => ⟨hleft, ?_⟩, nofun⟩, ?_⟩
      · simp only [Nat.cast_add, Nat.cast_one]
        omega
      · simp only [measure, hplace]
        omega
    · -- the loop is never entered with a counter of 0
      omega

/-! ## What the loops come to -/

/-- The outcome that a state leads to, by the loops as recursions over the counter. -/
def outcome (packet : Mem) (d : OidLoops) : Except Failure (Oid × Nat) :=
  let room := maxNrSubids - d.value.subidListLength
  let toOid := fun r : List UInt32 × Nat => ((⟨r.1, d.value.encodedLength⟩, r.2) : Oid × Nat)
  match d.place with
  | .outer => ((decodeSubids room d.length.toNat d.pos d.value.subids).eval packet).map toOid
  | .inner =>
      ((decodeRest (room - 1) (d.length.toNat - 1) d.pos
        (d.value.subidList d.value.subidListLength) d.value.subids).eval packet).map toOid
  | .stopped result => result.map fun _ => toOid (d.value.subids, d.pos)

end OidLoops

/-- One octet of the recursions. -/
theorem eval_decodeRest (packet : Mem) (room length pos : Nat) (subid : UInt32)
    (subids : List UInt32) :
    (decodeRest room length pos subid subids).eval packet =
      let acc := (subid <<< 7) + (packet pos &&& 0x7F).toUInt32
      if packet pos &&& 0x80 = 0 then
        (decodeSubids room length (pos + 1) (subids ++ [acc])).eval packet
      else match length with
        | 0 => .error (einval "underflow for OID byte")
        | length + 1 => (decodeRest room length (pos + 1) acc subids).eval packet := by
  rw [decodeRest, decodeSubid, Lib.Scan.eval_bind, Lib.Scan.eval_bind_of_ok packet rfl]
  dsimp only
  split
  · rfl
  · cases length with
    | zero => rfl
    | succ length => exact (Lib.Scan.eval_bind packet _ _).symm

namespace OidLoops

/-- A store at the first free place, which is then in use. -/
theorem subids_step (d : OidLoops) (subid : UInt32) :
    { d.value.put d.value.subidListLength subid with
      subidListLength := d.value.subidListLength + 1 : OidMemory }.subids =
        d.value.subids ++ [subid] := d.value.subids_push subid

/-- **Refinement.** No step changes the outcome. -/
theorem outcome_step {stop : Nat} {d : OidLoops} (h : d.Sound stop) (packet : Mem) :
    (d.step packet).outcome packet = d.outcome packet := by
  cases hplace : d.place with
  | stopped result => rw [step_stopped ⟨result, hplace⟩]
  | outer =>
    obtain ⟨hlen, -⟩ := h.outer hplace
    unfold step
    simp only [hplace]
    split_ifs with hzero hroom
    · obtain ⟨length, hlength⟩ : ∃ length, d.length.toNat = length + 1 :=
        ⟨d.length.toNat - 1, by omega⟩
      obtain ⟨room, hroom⟩ : ∃ room, maxNrSubids - d.value.subidListLength = room + 1 :=
        ⟨maxNrSubids - d.value.subidListLength - 1, by omega⟩
      have hcell : (d.value.put d.value.subidListLength 0).subidList d.value.subidListLength = 0 :=
        if_pos rfl
      have hlist : (d.value.put d.value.subidListLength 0).subidListLength =
        d.value.subidListLength := rfl
      simp only [outcome, hplace, hlist, hcell, hlength, hroom, OidMemory.subids_put,
        Nat.add_sub_cancel, decodeSubids]
      rfl
    · obtain ⟨length, hlength⟩ : ∃ length, d.length.toNat = length + 1 :=
        ⟨d.length.toNat - 1, by omega⟩
      have hfull : maxNrSubids - d.value.subidListLength = 0 := by omega
      simp only [outcome, hplace, fail, hfull, hlength, decodeSubids]
      rfl
    · have hnone : d.length.toNat = 0 := by omega
      simp only [outcome, hplace, hnone, decodeSubids]
      rfl
  | inner =>
    obtain ⟨hlen, -, hroom⟩ := h.inner hplace
    have hbefore : d.outcome packet =
        ((decodeRest (maxNrSubids - d.value.subidListLength - 1) (d.length.toNat - 1) d.pos
          (d.value.subidList d.value.subidListLength) d.value.subids).eval packet).map
            fun r => (⟨r.1, d.value.encodedLength⟩, r.2) := by
      simp only [outcome, hplace]
    have hentered : d.length ≠ 0 := by omega
    rw [hbefore, eval_decodeRest]
    unfold step
    simp only [hplace, if_pos hentered]
    split_ifs with hmore hlast
    · -- the content ends inside a subid
      rw [show d.length.toNat - 1 = 0 by omega]
      rfl
    · obtain ⟨length, hlength⟩ : ∃ length, d.length.toNat - 1 = length + 1 :=
        ⟨d.length.toNat - 2, by omega⟩
      rw [hlength]
      simp only [outcome, OidMemory.subids_put,
        show (d.length - 1).toNat - 1 = length by omega]
      simp only [OidMemory.put, if_true]
    · -- the subid is complete
      simp only [outcome, subids_step, show (d.length - 1).toNat = d.length.toNat - 1 by omega,
        show maxNrSubids - (d.value.subidListLength + 1) =
          maxNrSubids - d.value.subidListLength - 1 by omega]
      rfl
    · rename_i hhigh
      exact absurd hhigh hmore

/-! ## The whole function -/

/-- The loops start with the outcome of the function. -/
theorem outcome_start (packet : Mem) (size pos length : Nat) (value : OidMemory) :
    (start packet size pos length value).outcome packet =
      (decodeSnmpElementValueOid size pos length).eval packet := by
  unfold start decodeSnmpElementValueOid require
  dsimp only
  -- the cases are the branches of the source, and all but one of them return
  by_cases hguard : guardPasses size length pos
  · rw [if_pos hguard, if_pos hguard]
    by_cases hlong : length > 0xFFFF
    · rw [if_pos hlong, if_neg (not_not.mpr hlong)]
      rfl
    · rw [if_neg hlong, if_pos hlong]
      cases length with
      | zero => rfl
      | succ rest =>
        rw [if_pos (Nat.succ_ne_zero rest), Lib.Scan.eval_bind_of_ok packet rfl,
          Lib.Scan.eval_bind_of_ok packet rfl]
        dsimp only
        rw [Lib.Scan.eval_bind_of_ok packet (Lib.Scan.eval_byte packet pos)]
        by_cases hlow : packet pos &&& 0x80 = 0
        · rw [if_pos hlow, if_pos hlow, Lib.Scan.eval_bind_of_ok packet rfl, Lib.Scan.eval_bind]
          simp only [outcome, OidMemory.subids_push,
            show (((rest + 1 : Nat) : Int) - 1).toNat = rest by omega]
          change Except.map _ ((decodeSubids (maxNrSubids - 2) rest (pos + 1)
            [(packet pos / 40).toUInt32, (packet pos % 40).toUInt32]).eval packet) = _
          cases (decodeSubids (maxNrSubids - 2) rest (pos + 1)
            [(packet pos / 40).toUInt32, (packet pos % 40).toUInt32]).eval packet <;> rfl
        · rw [if_neg hlow, if_neg hlow]
          rfl
  · rw [if_neg hguard, if_neg hguard]
    rfl

/-- The loops are entered behind the start octet. -/
theorem sound_start (packet : Mem) {size pos length : Nat} (hsize : size ≤ 0xFFFF)
    (hlen : 1 ≤ length) (hfit : pos + length ≤ size) (value : OidMemory) :
    (start packet size pos length value).Sound (pos + length) ∧
      (start packet size pos length value).measure < 2 * length := by
  have hguard : guardPasses size length pos :=
    guardPasses_of_le (by unfold sizeTModulus; omega) hlen hfit
  unfold start
  dsimp only
  rw [if_pos hguard, if_neg (by omega), if_pos (by omega)]
  split
  · have hstart : ∀ i ∈ [0, 1], i < maxNrSubids := by decide
    have htwo : 2 ≤ maxNrSubids := by decide
    have hleft : (0 : Int) ≤ length - 1 := by omega
    refine ⟨⟨hstart, htwo, fun _ => ⟨hleft, ?_⟩, nofun⟩, ?_⟩
    · simp only [Nat.cast_add, Nat.cast_one]
      omega
    · simp only [measure]
      omega
  · have hnone : 0 ≤ maxNrSubids := Nat.zero_le _
    exact sound_of_stopped rfl (fun i hi => absurd hi List.not_mem_nil) hnone (by omega)

/-- **The run.** The loops end within two steps for each octet, with the outcome of the function. -/
theorem exists_run (packet : Mem) {size pos length : Nat} (hsize : size ≤ 0xFFFF)
    (hlen : 1 ≤ length) (hfit : pos + length ≤ size) (value : OidMemory) :
    ∃ n ≤ 2 * length, ((step packet)^[n] (start packet size pos length value)).Stopped ∧
      ((step packet)^[n] (start packet size pos length value)).Sound (pos + length) ∧
      ((step packet)^[n] (start packet size pos length value)).outcome packet =
        (decodeSnmpElementValueOid size pos length).eval packet := by
  obtain ⟨hsound, hmeasure⟩ := sound_start packet hsize hlen hfit value
  -- the invariant of the run: the counter is sound, and the outcome does not change
  obtain ⟨n, hn, ⟨hend, houtcome⟩, hstopped⟩ := Lib.exists_halted (step packet)
    (fun d => d.Sound (pos + length) ∧
      d.outcome packet = (decodeSnmpElementValueOid size pos length).eval packet)
    Stopped measure
    (fun d hd hgo => ⟨⟨(hd.1.step packet hgo).1, (outcome_step hd.1 packet).trans hd.2⟩,
      (hd.1.step packet hgo).2⟩)
    ⟨hsound, outcome_start packet size pos length value⟩
  exact ⟨n, by omega, hstopped, hend, houtcome⟩

end OidLoops

/-! ## Contents that are accepted -/

theorem getLast?_slice (mem : Mem) (off len : Nat) :
    (mem.slice off (len + 1)).getLast? = some (mem (off + len)) := by
  rw [Mem.slice_add, Mem.slice_succ, Mem.slice_zero, List.getLast?_concat]

/-- Content is accepted by its first octet, its last octet, and the number of its subids. -/
theorem oidContent_slice_iff (packet : Mem) {pos length : Nat} (hlen : 1 ≤ length) :
    OidContent (packet.slice pos length) ↔
      (packet pos).toNat < 128 ∧ (packet (pos + length - 1)).toNat < 128 ∧
        stops (packet.slice (pos + 1) (length - 1)) ≤ maxNrSubids - 2 := by
  obtain ⟨rest, rfl⟩ := Nat.exists_eq_add_of_le' hlen
  have hhead : (packet.slice pos (rest + 1)).headD 0 = packet pos := rfl
  have htail : (packet.slice pos (rest + 1)).tail = packet.slice (pos + 1) rest := rfl
  rw [Nat.add_sub_cancel, show pos + (rest + 1) - 1 = pos + rest by omega]
  -- with one octet, the last one is the start octet
  have hlast : (packet pos).toNat < 128 →
      (Closed (packet.slice (pos + 1) rest) ↔ (packet (pos + rest)).toNat < 128) := by
    intro hlow
    cases rest with
    | zero => exact iff_of_true nofun hlow
    | succ rest =>
      rw [Closed, getLast?_slice, show pos + 1 + rest = pos + (rest + 1) by omega]
      simp only [Option.mem_some_iff, forall_eq']
  constructor
  · rintro ⟨hstart, hclosed, hroom⟩
    rw [hhead] at hstart
    rw [htail] at hclosed hroom
    exact ⟨hstart, (hlast hstart).mp hclosed, hroom⟩
  · rintro ⟨hstart, hclosed, hroom⟩
    exact ⟨by rwa [hhead], by rw [htail]; exact (hlast hstart).mpr hclosed, by rwa [htail]⟩

theorem stops_row {row : List UInt8} (h : Lib.Ber.Row row) : stops row = 1 := by
  induction h with
  | last hlow => rw [stops_cons, if_pos hlow]; rfl
  | more hhigh hrow ih => rw [stops_cons, if_neg (Nat.not_lt.mpr hhigh), ih]

/-- Each row ends with the one octet that is below 128. -/
theorem stops_flatten {rs : List (List UInt8)} (h : ∀ row ∈ rs, Lib.Ber.Row row) :
    stops rs.flatten = rs.length := by
  induction rs with
  | nil => rfl
  | cons row rs ih =>
    obtain ⟨hrow, hrs⟩ := List.forall_mem_cons.mp h
    rw [List.flatten_cons, stops_append, stops_row hrow, ih hrs, List.length_cons, Nat.add_comm]

/-- The subids of accepted octets: one for each row, the number of the row modulo `2 ^ 32`. -/
theorem subidsOf_eq_map_rows {bs : List UInt8} (hclosed : Closed bs) :
    subidsOf 0 bs = (rows bs).map (fun row => .ofNat (groupNumber row)) ∧
      (rows bs).length = stops bs := by
  obtain ⟨hrows, hflatten⟩ := Lib.Ber.rows_spec hclosed
  constructor
  · conv_lhs => rw [← hflatten, subidsOf_flatten hrows]
    apply List.map_congr_left
    intro row hrow
    rw [← UInt32.toNat_inj, Lib.Ber.toNat_foldGroups_eq, UInt32.toNat_zero, Nat.zero_mul,
      Nat.zero_add, UInt32.toNat_ofNat']
  · conv_rhs => rw [← hflatten, stops_flatten hrows]

/-- What a run comes to in the end. -/
structure OidLoops.Exact (packet : Mem) (pos length : Nat) (d : OidLoops) : Prop where
  /-- The function has returned. -/
  stopped : d.Stopped
  /-- Nothing was stored behind the array. -/
  written : ∀ i ∈ d.value.written, i < maxNrSubids
  /-- It returns 0 for the contents with complete subids that the array takes. -/
  accepts : d.place = .stopped (.ok ()) ↔
    (packet pos).toNat < 128 ∧ (packet (pos + length - 1)).toNat < 128 ∧
      stops (packet.slice (pos + 1) (length - 1)) ≤ maxNrSubids - 2
  /-- The cursor is behind the content then. -/
  cursor : d.place = .stopped (.ok ()) → d.pos = pos + length
  /-- Each octet below 128 has ended a subid. -/
  subids : d.place = .stopped (.ok ()) →
    d.value.subids = [(packet pos / 40).toUInt32, (packet pos % 40).toUInt32] ++
        (rows (packet.slice (pos + 1) (length - 1))).map (fun row => .ofNat (groupNumber row)) ∧
      (rows (packet.slice (pos + 1) (length - 1))).length =
        stops (packet.slice (pos + 1) (length - 1))

/-- A function that returns with the outcome of the decoder is exact. -/
theorem OidLoops.Exact.of_outcome {packet : Mem} {size pos length : Nat} (hsize : size ≤ 0xFFFF)
    (hlen : 1 ≤ length) (hfit : pos + length ≤ size) {d : OidLoops} (hstopped : d.Stopped)
    (hwritten : ∀ i ∈ d.value.written, i < maxNrSubids)
    (houtcome : d.outcome packet = (decodeSnmpElementValueOid size pos length).eval packet) :
    d.Exact packet pos length := by
  have hguard : guardPasses size length pos :=
    guardPasses_of_le (by unfold sizeTModulus; omega) hlen hfit
  have hok : ∀ r, (decodeSnmpElementValueOid size pos length).eval packet = .ok r ↔ _ :=
    fun r => eval_oid_eq_ok packet hlen (by omega)
  simp only [← houtcome, hguard, true_and, oidContent_slice_iff packet hlen] at hok
  obtain ⟨result, hplace⟩ := hstopped
  cases result with
  | error e =>
    -- the outcome is an error, too, and the content is none that is accepted
    have herror : d.outcome packet = .error e := by simp only [outcome, hplace, Except.map]
    have hfailed : d.place ≠ .stopped (.ok ()) := by rw [hplace]; nofun
    refine ⟨⟨_, hplace⟩, hwritten, iff_of_false hfailed fun haccepted => ?_,
      fun h => absurd h hfailed, fun h => absurd h hfailed⟩
    have hvalue := (hok _).mpr ⟨haccepted, rfl⟩
    rw [herror] at hvalue
    cases hvalue
  | ok u =>
    have hreturn : d.outcome packet = .ok (⟨d.value.subids, d.value.encodedLength⟩, d.pos) := by
      simp only [outcome, hplace, Except.map]
    obtain ⟨haccepted, hvalue⟩ := (hok _).mp hreturn
    obtain ⟨hoid, hpos⟩ := Prod.mk.inj hvalue
    refine ⟨⟨_, hplace⟩, hwritten, iff_of_true hplace haccepted, fun _ => hpos, fun _ => ?_⟩
    obtain ⟨rest, rfl⟩ := Nat.exists_eq_add_of_le' hlen
    have hclosed := ((oidContent_slice_iff packet hlen).mpr haccepted).closed
    rw [oidValue_slice, Oid.mk.injEq] at hoid
    obtain ⟨hsubids, hcount⟩ := subidsOf_eq_map_rows hclosed
    exact ⟨hoid.1.trans (congrArg _ hsubids), hcount⟩

/-- **The loops of the OID decoder.** For every content inside a packet they come to an end, within
    two steps for each octet, and are exact there. -/
theorem oidLoops_exact (packet : Mem) {size pos length : Nat} (hsize : size ≤ 0xFFFF)
    (hlen : 1 ≤ length) (hfit : pos + length ≤ size) (value : OidMemory) :
    ∃ d : OidLoops, d.Exact packet pos length ∧
      ∀ m ≥ 2 * length, (OidLoops.step packet)^[m] (.start packet size pos length value) = d := by
  obtain ⟨n, hn, hstopped, hsound, houtcome⟩ :=
    OidLoops.exists_run packet hsize hlen hfit value
  refine ⟨_, .of_outcome hsize hlen hfit hstopped hsound.written houtcome, fun m hm => ?_⟩
  -- a function that has returned takes no more steps
  obtain ⟨k, rfl⟩ := Nat.exists_eq_add_of_le' (hn.trans hm)
  rw [Function.iterate_add_apply]
  exact Function.iterate_fixed (OidLoops.step_stopped hstopped packet) k

/-- The OID `.1.3.6`, into memory full of ones. -/
theorem oidLoops_exact_internet : ∃ d : OidLoops, d.Exact (Mem.ofList [0x2B, 6]) 0 2 ∧
    ∀ m ≥ 2 * 2, (OidLoops.step (Mem.ofList [0x2B, 6]))^[m]
      (.start (Mem.ofList [0x2B, 6]) 2 0 2 ⟨fun _ => 1, 0, 0, []⟩) = d :=
  oidLoops_exact (Mem.ofList [0x2B, 6]) (by decide) (by decide) (by decide) _

end SdkSnmpd
