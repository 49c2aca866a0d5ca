import SdkSnmpd.Lib.TwosComplement
import SdkSnmpd.MibUpdate
import SdkSnmpd.SdkWords

/-!
# From the Sensor Thread to the MIB

`get_sdkinfo` of `utils.c` reads `sdk_param` word by word while the sensor thread may be storing
into it, and `mib_update` publishes what it has read.

## Contents

- `getSdkinfo`: the function, with the moves of the sensor thread between its reads.
- `getSdkinfo_sampled`: every word that is read belongs to a recent sample.
- `SdkField.number`, `sdkValues_sdkinfoOf`: what is published of each word.
- `Table`, `Table.update`: the MIB of the agent, which carries its own well-formedness.
- `Shows`: the table holds the numbers of given words. `Table.shows_update`: a full update makes
  it so.
-/

namespace SdkSnmpd

open Lib (Mem Registers Move)

/-! ## Reading -/

namespace Sensor

/-- Read words one after another, each after some moves of the sensor thread. -/
def readWords (between : SdkField → List SensorMove) :
    List SdkField → Sensor → List (SdkField × Int) × Sensor
  | [], sensor => ([], sensor)
  | field :: fields, sensor =>
      let sensor := sensor.moves (between field)
      let (words, sensor') := readWords between fields sensor
      ((field, sensor.thread.sdk.word field) :: words, sensor')

end Sensor

/-- The words in the order in which they are read. -/
def readOrder : List SdkField :=
  [.parsed .selfTemp, .parsed .hw, .parsed .sw, .parsed .relay] ++
    List.ofFn SdkField.opticalRelay ++ List.ofFn fun i => .parsed (.dryContact i)

/-- The assignments to `sdkinfo`, given what is read of each word. -/
def sdkinfoOf (read : SdkField → Int) : Sdkinfo where
  sdkTemp := .ofInt (read (.parsed .selfTemp))
  sdkHw := .ofInt (read (.parsed .hw))
  sdkSw := .ofInt (read (.parsed .sw))
  sdkRelay := .ofInt (read (.parsed .relay))
  opticalRelay1 := .ofInt (read (.opticalRelay 0))
  opticalRelay2 := .ofInt (read (.opticalRelay 1))
  opticalRelay3 := .ofInt (read (.opticalRelay 2))
  opticalRelay4 := .ofInt (read (.opticalRelay 3))
  dryContact1 := .ofInt (read (.parsed (.dryContact 0)) - 0x30)
  dryContact2 := .ofInt (read (.parsed (.dryContact 1)) - 0x30)
  dryContact3 := .ofInt (read (.parsed (.dryContact 2)) - 0x30)
  dryContact4 := .ofInt (read (.parsed (.dryContact 3)) - 0x30)
  dryContact5 := .ofInt (read (.parsed (.dryContact 4)) - 0x30)
  dryContact6 := .ofInt (read (.parsed (.dryContact 5)) - 0x30)
  dryContact7 := .ofInt (read (.parsed (.dryContact 6)) - 0x30)
  dryContact8 := .ofInt (read (.parsed (.dryContact 7)) - 0x30)
  dryContact9 := .ofInt (read (.parsed (.dryContact 8)) - 0x30)
  dryContact10 := .ofInt (read (.parsed (.dryContact 9)) - 0x30)
  dryContact11 := .ofInt (read (.parsed (.dryContact 10)) - 0x30)
  dryContact12 := .ofInt (read (.parsed (.dryContact 11)) - 0x30)
  dryContact13 := .ofInt (read (.parsed (.dryContact 12)) - 0x30)
  dryContact14 := .ofInt (read (.parsed (.dryContact 13)) - 0x30)
  dryContact15 := .ofInt (read (.parsed (.dryContact 14)) - 0x30)
  dryContact16 := .ofInt (read (.parsed (.dryContact 15)) - 0x30)
  dryContact17 := .ofInt (read (.parsed (.dryContact 16)) - 0x30)
  dryContact18 := .ofInt (read (.parsed (.dryContact 17)) - 0x30)
  dryContact19 := .ofInt (read (.parsed (.dryContact 18)) - 0x30)
  dryContact20 := .ofInt (read (.parsed (.dryContact 19)) - 0x30)

/-- `get_sdkinfo`, and the sensor thread when it returns. -/
def getSdkinfo (between : SdkField → List SensorMove) (sensor : Sensor) : Sdkinfo × Sensor :=
  let result := sensor.readWords between readOrder
  (sdkinfoOf fun field => (result.1.lookup field).getD 0, result.2)

/-! ## What is published -/

/-- The number that the MIB shows for a word: a dry contact is read as a digit. -/
def SdkField.number (field : SdkField) (v : Int) : Int32 :=
  match field with
  | .parsed (.dryContact _) => .ofInt (v - 0x30)
  | _ => .ofInt v

/-- The column and the row of a word under `m_sdk_oid`. -/
def SdkField.column : SdkField → Int32
  | .parsed (.dryContact _) => 1
  | .parsed .selfTemp => 2
  | .parsed .hw => 3
  | .parsed .sw => 4
  | .parsed .relay => 5
  | .opticalRelay _ => 6

def SdkField.row : SdkField → Int32
  | .parsed (.dryContact i) => .ofNat i
  | .opticalRelay i => .ofNat i
  | _ => 0

/-- The variable for a word. -/
def SdkField.var (field : SdkField) (v : Int) : MibVariable :=
  sdkInteger field.column field.row (field.number v)

/-- The words in the order of the MIB. -/
def sdkFields : List SdkField :=
  List.ofFn (fun i => .parsed (.dryContact i)) ++
    [.parsed .selfTemp, .parsed .hw, .parsed .sw, .parsed .relay] ++ List.ofFn SdkField.opticalRelay

/-- A number that is kept as `unsigned int` on the way. -/
theorem toInt32_ofInt (v : Int) : (UInt32.ofInt v).toInt32 = Int32.ofInt v := by
  have hnonneg : 0 ≤ v % 2 ^ 32 := Int.emod_nonneg _ (by decide)
  have hlt : v % 2 ^ 32 < 2 ^ 32 := Int.emod_lt_of_pos _ (by decide)
  have hnat : (UInt32.ofInt v).toNat = (v % 2 ^ 32).toNat :=
    UInt32.toNat_ofNat_of_lt' (by change _ < 2 ^ 32; omega)
  -- both sides are the residue that lies in the range of an `int`
  apply Int32.toInt_inj.mp
  rw [Lib.Ber.toInt_toInt32_eq, hnat, Int.toNat_of_nonneg hnonneg, Int32.toInt_ofInt]
  exact Int.emod_bmod _ _

/-- Every word is published under an OID of its own. -/
theorem sdkValues_sdkinfoOf (read : SdkField → Int) :
    sdkValues (sdkinfoOf read) = sdkFields.map fun field => field.var (read field) := by
  -- every field goes through `unsigned int`, and the order of the list is that of the source
  simp only [sdkValues, sdkinfoOf, toInt32_ofInt]
  rfl

theorem mem_sdkFields (field : SdkField) : field ∈ sdkFields := by
  rcases field with (_ | _ | _ | _ | i) | i
  -- the list is made of three parts
  case parsed.dryContact =>
    exact List.mem_append_left _ (List.mem_append_left _ (List.mem_ofFn.mpr ⟨i, rfl⟩))
  case opticalRelay => exact List.mem_append_right _ (List.mem_ofFn.mpr ⟨i, rfl⟩)
  all_goals exact List.mem_append_left _ (List.mem_append_right _ (by simp))

theorem mem_readOrder (field : SdkField) : field ∈ readOrder := by
  rcases field with (_ | _ | _ | _ | i) | i
  case parsed.dryContact => exact List.mem_append_right _ (List.mem_ofFn.mpr ⟨i, rfl⟩)
  case opticalRelay =>
    exact List.mem_append_left _ (List.mem_append_right _ (List.mem_ofFn.mpr ⟨i, rfl⟩))
  all_goals exact List.mem_append_left _ (List.mem_append_left _ (by simp))

/-! ## Recent samples -/

namespace Sensor

/-- The sensor thread has stored whole samples before, and is storing one now. -/
def Regular (sensor : Sensor) : Prop := sensor.registers.Regular

theorem regular_start (answer : Mem) (sdk : SdkParam) : (Sensor.start answer sdk).Regular where
  distinct := List.nodup_nil
  latest := rfl
  mixed := fun _ => ⟨_, List.mem_cons_self, rfl⟩

/-- The samples that a reading may meet which begins in one state and ends in another: those that
    are begun in between, and the two before. -/
def window (sensor sensor' : Sensor) : List SdkParam :=
  sensor'.samples.take (sensor'.samples.length - sensor.samples.length + 2)

theorem window_registers (sensor sensor' : Sensor) :
    Registers.window sensor.registers sensor'.registers =
      (window sensor sensor').map SdkParam.word := by
  -- the same number of records on both sides
  simp only [Registers.window, registers, window, List.length_map, List.map_take]

/-- What several moves do to the registers. -/
def writesAll : Sensor → List SensorMove → List (Move SdkField Int)
  | _, [] => []
  | sensor, m :: ms => sensor.writes m ++ (sensor.move m).writesAll ms

theorem distinct_writesAll (sensor : Sensor) (ms : List SensorMove) :
    ∀ w ∈ sensor.writesAll ms, w.Distinct := by
  induction ms generalizing sensor with
  | nil => exact fun _ h => absurd h List.not_mem_nil
  | cons m ms ih =>
    intro w hw
    -- the first move, and those that follow it
    rcases List.mem_append.mp hw with hfirst | hrest
    · exact sensor.distinct_writes m w hfirst
    · exact ih _ w hrest

theorem registers_moves (sensor : Sensor) (ms : List SensorMove) :
    (sensor.moves ms).registers = sensor.registers.moves (sensor.writesAll ms) := by
  induction ms generalizing sensor with
  | nil => rfl
  | cons m ms ih =>
    -- the writes of the first move come first
    have hsplit : sensor.registers.moves (sensor.writesAll (m :: ms)) =
        (sensor.registers.moves (sensor.writes m)).moves ((sensor.move m).writesAll ms) := by
      rw [writesAll, Registers.moves, List.foldl_append]
      rfl
    rw [hsplit, ← registers_move, ← ih]
    rfl

/-- The reads, with the stores of the sensor thread before each. -/
def readPlan (between : SdkField → List SensorMove) :
    List SdkField → Sensor → List (List (Move SdkField Int) × SdkField)
  | [], _ => []
  | field :: fields, sensor =>
      (sensor.writesAll (between field), field) ::
        readPlan between fields (sensor.moves (between field))

section

variable (between : SdkField → List SensorMove) (fields : List SdkField) (sensor : Sensor)

theorem map_snd_readPlan : (readPlan between fields sensor).map Prod.snd = fields := by
  induction fields generalizing sensor with
  | nil => rfl
  | cons field fields ih => rw [readPlan, List.map_cons, ih]

theorem distinct_readPlan :
    ∀ read ∈ readPlan between fields sensor, ∀ w ∈ read.1, w.Distinct := by
  induction fields generalizing sensor with
  | nil => exact fun _ h => absurd h List.not_mem_nil
  | cons field fields ih =>
    rw [readPlan, List.forall_mem_cons]
    exact ⟨sensor.distinct_writesAll _, ih _⟩

/-- Reading is reading from the registers. -/
theorem readAll_readPlan :
    Registers.readAll (readPlan between fields sensor) sensor.registers =
      ((sensor.readWords between fields).1, (sensor.readWords between fields).2.registers) := by
  induction fields generalizing sensor with
  | nil => rfl
  | cons field fields ih =>
    -- each read is preceded by the writes of the moves before it
    simp only [readPlan, Registers.readAll, readWords, ← registers_moves, ih]
    rfl

end

/-- Every word that is read belongs to a recent sample. -/
theorem Regular.readWords {sensor : Sensor} (h : sensor.Regular)
    (between : SdkField → List SensorMove) (fields : List SdkField) :
    (sensor.readWords between fields).2.Regular ∧
      (sensor.readWords between fields).1.map Prod.fst = fields ∧
      ∀ w ∈ (sensor.readWords between fields).1,
        ∃ sample ∈ window sensor (sensor.readWords between fields).2, w.2 = sample.word w.1 := by
  have hkeys := Registers.map_fst_readAll (readPlan between fields sensor) sensor.registers
  obtain ⟨hregular, -, hwords⟩ :=
    Registers.Regular.readAll (distinct_readPlan between fields sensor) h
  -- what holds of the registers holds of the words
  rw [readAll_readPlan] at hregular hwords hkeys
  rw [map_snd_readPlan] at hkeys
  refine ⟨hregular, hkeys, fun w hw => ?_⟩
  obtain ⟨record, hrecord, heq⟩ := hwords w hw
  rw [window_registers, List.mem_map] at hrecord
  -- a record of the window is the words of a sample
  obtain ⟨sample, hsample, rfl⟩ := hrecord
  exact ⟨sample, hsample, heq⟩

end Sensor

/-- The value that is looked up under a key is listed with it. -/
theorem mem_of_lookup_getD {α β : Type} [BEq α] [LawfulBEq α] {xs : List (α × β)} {a : α}
    (h : a ∈ xs.map Prod.fst) (b : β) : (a, (xs.lookup a).getD b) ∈ xs := by
  induction xs with
  | nil => exact absurd h List.not_mem_nil
  | cons x xs ih =>
    obtain ⟨key, value⟩ := x
    rw [List.lookup_cons]
    -- the first pair decides, or is passed over
    by_cases hkey : a = key
    · subst hkey
      simp
    · rw [List.map_cons, List.mem_cons, or_iff_right hkey] at h
      have hbeq : (a == key) = false := by simpa using hkey
      simp only [hbeq]
      exact List.mem_cons_of_mem _ (ih h)

/-- **Reading the parameters.** Whatever the sensor thread does in between, `get_sdkinfo` takes
    every word from a sample that was begun in the meantime, or from one of the two before. -/
theorem getSdkinfo_sampled {sensor : Sensor} (h : sensor.Regular)
    (between : SdkField → List SensorMove) :
    (getSdkinfo between sensor).2.Regular ∧
      ∃ read, (getSdkinfo between sensor).1 = sdkinfoOf read ∧
        ∀ field, ∃ sample ∈ Sensor.window sensor (getSdkinfo between sensor).2,
          read field = sample.word field := by
  obtain ⟨hregular, hkeys, hwords⟩ := h.readWords between readOrder
  refine ⟨hregular, fun field => ((sensor.readWords between readOrder).1.lookup field).getD 0, rfl,
    fun field => ?_⟩
  -- every word is read at some time
  have hfield : field ∈ ((sensor.readWords between readOrder).1).map Prod.fst := by
    rw [hkeys]
    exact mem_readOrder field
  exact hwords _ (mem_of_lookup_getD hfield 0)

/-- With nothing to store, the words are those of the latest sample. -/
theorem Sensor.Regular.head?_samples {sensor : Sensor} (h : sensor.Regular)
    (hpending : sensor.pending = []) : sensor.samples.head? = some sensor.thread.sdk := by
  have hlatest := h.latest
  simp only [registers, Registers.target, hpending, List.map_nil, List.foldl_nil,
    List.head?_map, Option.map_eq_some_iff] at hlatest
  obtain ⟨sample, hhead, hword⟩ := hlatest
  -- a sample is known from its words
  rw [hhead, SdkParam.ext_word (congrFun hword)]

/-- **Reading one sample.** If the sensor thread has nothing to store when `get_sdkinfo` begins, and
    begins with no sample before it returns, then all words come from the latest sample. -/
theorem getSdkinfo_of_idle {sensor : Sensor} (hpending : sensor.pending = [])
    (between : SdkField → List SensorMove)
    (hsame : (getSdkinfo between sensor).2.samples = sensor.samples) :
    (getSdkinfo between sensor).1 = sdkinfoOf sensor.thread.sdk.word := by
  have hkeys := Registers.map_fst_readAll (Sensor.readPlan between readOrder sensor)
    sensor.registers
  have hrecords : (Registers.readAll (Sensor.readPlan between readOrder sensor)
      sensor.registers).2.records = sensor.registers.records := by
    rw [Sensor.readAll_readPlan]
    exact congrArg (List.map SdkParam.word) hsame
  -- with no record begun, every read is from the one that is there
  have hwords := Registers.readAll_of_idle
    (show sensor.registers.pending = [] by rw [Sensor.registers, hpending]; rfl) hrecords
  rw [Sensor.readAll_readPlan] at hwords hkeys
  rw [Sensor.map_snd_readPlan] at hkeys
  rw [getSdkinfo]
  dsimp only
  refine congrArg sdkinfoOf (funext fun field => ?_)
  have hfield : field ∈ ((sensor.readWords between readOrder).1).map Prod.fst := by
    rw [hkeys]
    exact mem_readOrder field
  -- all words are read, so that none is left at 0
  exact hwords _ (mem_of_lookup_getD hfield 0)

/-! ## The table -/

/-- The MIB of the agent, once it is built. -/
def Table (demo : Bool) : Type := { values : List Value // Refreshed demo values }

namespace Table

variable {demo : Bool}

/-- The MIB that requests are answered from -/
def mib (table : Table demo) : Mib := table.property.mib

theorem build_ne_error {e : MibError} {values : List Value} :
    (mibBuild demo).run [] ≠ .error e values := by
  obtain ⟨built, hbuild, -⟩ := mibBuild_publishes demo
  rw [hbuild]
  exact nofun

/-- `mib_build` -/
def built (demo : Bool) : Table demo :=
  match h : (mibBuild demo).run [] with
  | .ok () values => ⟨values, by
      obtain ⟨built, hbuild, hpublishes⟩ := mibBuild_publishes demo
      rw [hbuild] at h
      cases h
      exact .of_publishes rfl hpublishes⟩
  | .error _ _ => (build_ne_error h).elim

theorem run_built (demo : Bool) : (mibBuild demo).run [] = .ok () (built demo).val := by
  unfold built
  split
  · assumption
  · rename_i h
    exact (build_ne_error h).elim

theorem update_ne_error (table : Table demo) (update : Update) {e : MibError}
    {values : List Value} : (mibUpdate demo update).run table.val ≠ .error e values := by
  obtain ⟨table', hrun, -⟩ := table.property.run_mibUpdate update
  rw [hrun]
  exact nofun

/-- `mib_update` -/
def update (table : Table demo) (update : Update) : Table demo :=
  match h : (mibUpdate demo update).run table.val with
  | .ok () values => ⟨values, by
      obtain ⟨table', hrun, hrefreshed, -⟩ := table.property.run_mibUpdate update
      rw [hrun] at h
      cases h
      exact hrefreshed⟩
  | .error _ _ => (table.update_ne_error update h).elim

theorem run_update (table : Table demo) (update : Update) :
    (mibUpdate demo update).run table.val = .ok () (table.update update).val := by
  unfold Table.update
  split
  · assumption
  · rename_i h
    exact (table.update_ne_error update h).elim

/-- A partial update changes nothing. -/
theorem update_of_partial (table : Table demo) {update : Update} (h : update.full = false) :
    table.update update = table := by
  obtain ⟨table', hrun, -, -, hsame⟩ := table.property.run_mibUpdate update
  -- the table that the run leaves is the one that `update` takes from it
  rw [run_update] at hrun
  cases hrun
  exact Subtype.ext (hsame h)

theorem publishes_update (table : Table demo) {update : Update} (h : update.full = true) :
    List.Forall₂ Publishes (published demo update) (table.update update).val := by
  obtain ⟨table', hrun, -, hfull, -⟩ := table.property.run_mibUpdate update
  rw [run_update] at hrun
  cases hrun
  exact hfull h

end Table

/-- Every variable has an entry. -/
theorem exists_publishes_of_mem {vars : List MibVariable} {values : List Value}
    (h : List.Forall₂ Publishes vars values) {var : MibVariable} (hvar : var ∈ vars) :
    ∃ value ∈ values, Publishes var value := by
  induction h with
  | nil => exact absurd hvar List.not_mem_nil
  | cons hentry _ ih =>
    rcases List.mem_cons.mp hvar with rfl | hrest
    · exact ⟨_, List.mem_cons_self, hentry⟩
    · obtain ⟨value, hvalue, hpublishes⟩ := ih hrest
      exact ⟨value, List.mem_cons_of_mem _ hvalue, hpublishes⟩

/-- The OID under which a word is published. -/
def SdkField.oid (field : SdkField) : Oid := (field.var 0).oid

/-- Under the OID of each word stands its number. -/
def Shows (values : List Value) (read : SdkField → Int) : Prop :=
  ∀ field : SdkField, ∃ value ∈ values, value.oid = field.oid ∧
    HoldsInteger value.data (field.number (read field))

/-- **A full update** shows what has been read. -/
theorem Table.shows_update {demo : Bool} (table : Table demo) (read : SdkField → Int)
    (demoinfo : Demoinfo) : Shows (table.update ⟨true, sdkinfoOf read, demoinfo⟩).val read := by
  intro field
  -- the word is among the variables, in demo mode behind two others
  have hvar : field.var (read field) ∈ published demo ⟨true, sdkinfoOf read, demoinfo⟩ := by
    have hvalues : field.var (read field) ∈ sdkValues (sdkinfoOf read) := by
      rw [sdkValues_sdkinfoOf]
      exact List.mem_map_of_mem (mem_sdkFields field)
    rw [published]
    split
    · exact List.mem_append_right _ hvalues
    · exact hvalues
  -- its entry holds the number it was published with
  obtain ⟨value, hvalue, hoid, v, hv, hdata⟩ :=
    exists_publishes_of_mem (table.publishes_update rfl) hvar
  cases hv
  exact ⟨value, hvalue, hoid, hdata⟩

end SdkSnmpd
