import SdkSnmpd.Agent
import SdkSnmpd.Server

/-!
# The Control Server of a Running Agent

`threadworker` reads the words of `sdk_param` while the sensor thread may be storing them. There may
be many workers at once: they only read.

## Contents

- `controlWorker`: a worker, with the moves of the sensor thread between its reads.
- `controlReply`: what is replied to a message, given the words.
- `agent_control`: in a running agent, this is the reply, and the words come from samples.
-/

namespace SdkSnmpd

open Lib (Mem run)

/-! ## Words of a command -/

theorem sub_four_lt (i : Fin 20) : i.val - 4 < 20 := by omega

/-- The word that is read as an element of an array. -/
def SdkArray.field : SdkArray → Fin 20 → SdkField
  | .opticalRelay, i =>
      if h : i.val < 4 then .opticalRelay ⟨i, h⟩ else .parsed (.dryContact ⟨i - 4, sub_four_lt i⟩)
  | .dryContact, i => .parsed (.dryContact i)

/-- The words that a command reads, in the order in which they are read. -/
def Command.fields : Command → List SdkField
  | .hw => [.parsed .hw]
  | .sw => [.parsed .sw]
  | .temp => [.parsed .selfTemp]
  | .relay => [.parsed .relay]
  | command => command.elements.map fun e => e.1.field e.2

/-- The parameters with given words. -/
def SdkParam.ofWords (read : SdkField → Int) : SdkParam where
  hw := read (.parsed .hw)
  sw := read (.parsed .sw)
  selfTemp := read (.parsed .selfTemp)
  relay := read (.parsed .relay)
  opticalRelay := .ofFn fun i => .ofInt (read (.opticalRelay i))
  dryContact := .ofFn fun i => read (.parsed (.dryContact i))

/-! ## The worker -/

/-- One of the `if`s, with the moves of the sensor thread before each read. -/
def Worker.answerLive (between : Command → SdkField → List SensorMove) (state : Worker × Sensor)
    (command : Command) : Worker × Sensor :=
  if state.1.hears command then
    let result := state.2.readWords (between command) command.fields
    (state.1.answer (.ofWords fun field => (result.1.lookup field).getD 0) command, result.2)
  else (state.1.use, state.2)

/-- `threadworker`, and the sensor thread behind its last read. -/
def controlWorker (between : Command → SdkField → List SensorMove) (heap : Mem)
    (arrived : List UInt8) (sensor : Sensor) : Worker × Sensor :=
  let result := commands.foldl (Worker.answerLive between)
    (Worker.use ⟨receive heap arrived, [], []⟩, sensor)
  (result.1.use, result.2)

/-! ## Replies -/

/-- What a command is replied. Nothing ever closes an optical relay, so that its first byte ends the
    reply. -/
def Command.shows (read : SdkField → Int) : Command → List UInt8
  | .hw => intText (.ofInt (read (.parsed .hw)))
  | .sw => intText (.ofInt (read (.parsed .sw)))
  | .temp => intText (.ofInt (read (.parsed .selfTemp)))
  | .relay => intText (.ofInt (read (.parsed .relay)))
  | .optical => []
  | .dry => (List.ofFn fun i => .ofInt (read (.parsed (.dryContact i)))).takeWhile (· ≠ 0)

instance (bytes : List UInt8) : DecidablePred (Names bytes) := fun command =>
  inferInstanceAs (Decidable (bytes.takeWhile (· ≠ 0) = command.text))

/-- A command is replied what it shows, and any other message is sent back. -/
def controlReply (read : SdkField → Int) (arrived : List UInt8) : List UInt8 :=
  match commands.find? fun command => Names arrived command with
  | some command => command.shows read
  | none => arrived.takeWhile (· ≠ 0)

theorem mem_commands (command : Command) : command ∈ commands := by
  cases command <;> decide

theorem find?_commands {arrived : List UInt8} {command : Command} (h : Names arrived command) :
    (commands.find? fun command => Names arrived command) = some command := by
  cases hfind : commands.find? fun command => decide (Names arrived command) with
  | none =>
    exact absurd (decide_eq_true h) (List.find?_eq_none.mp hfind command (mem_commands command))
  | some found =>
    have hfound := List.find?_some hfind
    rw [decide_eq_true_iff] at hfound
    exact congrArg some (Command.text_injective (hfound.symm.trans h))

theorem find?_commands_eq_none {arrived : List UInt8} (h : ∀ command, ¬ Names arrived command) :
    (commands.find? fun command => Names arrived command) = none :=
  List.find?_eq_none.mpr fun command _ => by simpa using h command

/-- A string ends at its first NUL, also with zeros behind it. The induction is on the string. -/
theorem takeWhile_slice_ofList (bytes : List UInt8) {n : Nat}
    (h : bytes.length < n ∨ 0 ∈ bytes.take n) :
    ((Mem.ofList bytes).slice 0 n).takeWhile (· ≠ 0) = bytes.takeWhile (· ≠ 0) := by
  induction bytes generalizing n with
  | nil =>
    cases n with
    | zero => rfl
    | succ n =>
      rw [Mem.slice_succ, Mem.ofList_of_ge (Nat.zero_le _)]
      rfl
  | cons b bytes ih =>
    cases n with
    | zero =>
      rcases h with hlen | hmem
      · exact absurd hlen (Nat.not_lt_zero _)
      · exact absurd hmem List.not_mem_nil
    | succ n =>
      rw [Mem.slice_ofList_cons, List.takeWhile_cons, List.takeWhile_cons]
      by_cases hb : b = 0
      · rw [if_neg (by simpa using hb), if_neg (by simpa using hb)]
      · rw [List.length_cons, List.take_succ_cons, List.mem_cons, or_iff_right (Ne.symm hb)] at h
        rw [ih (h.imp_left Nat.lt_of_succ_lt_succ)]

/-- What a string leaves in the buffer is replied. -/
theorem Worker.reply_receive {worker : Worker} {heap : Mem} {bytes : List UInt8}
    (h : worker.buffer = receive heap bytes)
    (hstring : bytes.length < bufferSize ∨ 0 ∈ bytes.take bufferSize) {mapped : Nat}
    (hmapped : bufferSize ≤ mapped) : worker.reply mapped = bytes.takeWhile (· ≠ 0) := by
  -- a NUL stands in the buffer: in the message, or in the zeros behind it
  have hterminated := (terminated_receive_iff heap bytes).mpr hstring
  rw [reply_of_terminated (h ▸ hterminated), Nat.min_eq_right hmapped, h,
    (agreeBelow_receive heap bytes).slice_eq (by omega), takeWhile_slice_ofList bytes hstring]

/-! ## Tests with moves in between -/

@[simp] theorem Worker.buffer_use (worker : Worker) : worker.use.buffer = worker.buffer := rfl

/-- Tests that find nothing read nothing, so that the moves do not matter. -/
theorem Worker.foldl_live_of_silent (between : Command → SdkField → List SensorMove)
    (sensor : Sensor) (sdk : SdkParam) {cmds : List Command} {worker : Worker} {heap : Mem}
    {bytes : List UInt8} (h : worker.buffer = receive heap bytes)
    (hsilent : ∀ command ∈ cmds, ¬ Names bytes command) :
    cmds.foldl (Worker.answerLive between) (worker, sensor) =
      (cmds.foldl (Worker.answer sdk) worker, sensor) := by
  induction cmds generalizing worker with
  | nil => rfl
  | cons command cmds ih =>
    obtain ⟨hhead, htail⟩ := List.forall_mem_cons.mp hsilent
    -- a test that fails reads no word
    have hdeaf : ¬ worker.hears command = true := fun hears => hhead ((hears_iff h _).mp hears)
    have hlive : Worker.answerLive between (worker, sensor) command = (worker.use, sensor) :=
      if_neg hdeaf
    have hanswer : worker.answer sdk command = worker.use := if_neg hdeaf
    rw [List.foldl_cons, List.foldl_cons, hlive, hanswer]
    exact ih h htail

section

variable (between : Command → SdkField → List SensorMove) (heap : Mem) {arrived : List UInt8}
  (sensor : Sensor)

/-- A message that is no command. -/
theorem controlWorker_of_unnamed (h : ∀ command, ¬ Names arrived command) (sdk : SdkParam) :
    controlWorker between heap arrived sensor = (threadworker sdk heap arrived, sensor) := by
  have hstart : (Worker.use ⟨receive heap arrived, [], []⟩).buffer = receive heap arrived := rfl
  rw [controlWorker, threadworker,
    Worker.foldl_live_of_silent between sensor sdk hstart fun command _ => h command]

/-- The buffer that is left by a message that is no command. -/
theorem buffer_of_unnamed (h : ∀ command, ¬ Names arrived command) (sdk : SdkParam) :
    (threadworker sdk heap arrived).buffer = receive heap arrived := by
  have hstart : (Worker.use ⟨receive heap arrived, [], []⟩).buffer = receive heap arrived := rfl
  rw [threadworker, Worker.buffer_use,
    (Worker.foldl_of_silent hstart (fun command _ => h command) sdk).1, hstart]

/-- A command reads its words, and no later test finds anything in what it stores, if it does not
    copy letters. -/
theorem controlWorker_of_names {command : Command} (h : Names arrived command)
    {sdk : SdkParam} {sensor' : Sensor} {words : List (SdkField × Int)}
    (hread : sensor.readWords (between command) command.fields = (words, sensor'))
    (hsdk : sdk = .ofWords fun field => (words.lookup field).getD 0)
    (hsilent : command ≠ .dry → ∀ other, ¬ Names (command.stores sdk) other) :
    (controlWorker between heap arrived sensor).2 = sensor' ∧
      (controlWorker between heap arrived sensor).1.buffer =
        receive (receive heap arrived) (command.stores sdk) := by
  obtain ⟨before, after, hcommands, hnotMem, hdry⟩ := command.exists_split
  -- the texts of the commands differ, so that no earlier test succeeds
  have hbefore : ∀ other ∈ before, ¬ Names arrived other := fun other hmem hother =>
    hnotMem (Command.text_injective (h.symm.trans hother) ▸ hmem)
  have hstart : (Worker.use ⟨receive heap arrived, [], []⟩).buffer = receive heap arrived := rfl
  -- what is stored replaces the message, and later tests look at that
  have hafter : ∀ other ∈ after, ¬ Names (command.stores sdk) other := by
    intro other hmem
    by_cases hlast : command = .dry
    · exact absurd (hdry hlast ▸ hmem) List.not_mem_nil
    · exact hsilent hlast other
  rw [controlWorker, hcommands, List.foldl_append,
    Worker.foldl_live_of_silent between sensor sdk hstart hbefore, List.foldl_cons]
  obtain ⟨hbuffer, -⟩ := Worker.foldl_of_silent hstart hbefore sdk
  set worker := before.foldl (Worker.answer sdk) (Worker.use ⟨receive heap arrived, [], []⟩)
  have hhears : worker.hears command = true :=
    (Worker.hears_iff (hbuffer.trans hstart) command).mpr h
  have hlive : Worker.answerLive between (worker, sensor) command =
      (worker.answer sdk command, sensor') := by
    rw [Worker.answerLive, if_pos hhears, hread, hsdk]
  have hanswered : (worker.answer sdk command).buffer =
      receive (receive heap arrived) (command.stores sdk) := by
    rw [Worker.buffer_answer, if_pos hhears, hbuffer, hstart]
    conv_rhs => rw [receive, List.take_of_length_le (command.length_stores_lt sdk).le]
  rw [hlive, Worker.foldl_live_of_silent between sensor' sdk hanswered hafter]
  refine ⟨rfl, ?_⟩
  rw [Worker.buffer_use, (Worker.foldl_of_silent hanswered hafter sdk).1, hanswered]

end

/-! ## Words that are read -/

/-- What is read comes from recent samples. -/
theorem Sensor.Regular.exists_samples {sensor : Sensor} (h : sensor.Regular)
    (between : SdkField → List SensorMove) (fields : List SdkField) :
    ∃ sample : SdkField → SdkParam,
      (∀ field, sample field ∈ window sensor (sensor.readWords between fields).2) ∧
      ∀ field ∈ fields,
        ((sensor.readWords between fields).1.lookup field).getD 0 = (sample field).word field := by
  obtain ⟨hregular, hkeys, hwords⟩ := h.readWords between fields
  have hfield : ∀ field, ∃ sample ∈ window sensor (sensor.readWords between fields).2,
      field ∈ fields →
        ((sensor.readWords between fields).1.lookup field).getD 0 = sample.word field := by
    intro field
    by_cases hread : field ∈ fields
    · rw [← hkeys] at hread
      obtain ⟨sample, hsample, hword⟩ := hwords _ (mem_of_lookup_getD hread 0)
      exact ⟨sample, hsample, fun _ => hword⟩
    · -- any recent sample will do
      obtain ⟨record, hrecord, -⟩ := hregular.mixed field
      rw [registers, ← List.map_take] at hrecord
      obtain ⟨sample, hsample, -⟩ := List.mem_map.mp hrecord
      refine ⟨sample, ?_, fun hmem => absurd hmem hread⟩
      exact (List.take_sublist_take_left (Nat.le_add_left _ _)).subset hsample
  choose sample hsample hword using hfield
  exact ⟨sample, hsample, hword⟩

/-- What a command stores is replied as what it shows. -/
theorem Command.takeWhile_stores (command : Command) {read read' : SdkField → Int}
    (hsame : ∀ field ∈ command.fields, read field = read' field)
    (hzero : read' (.opticalRelay 0) = 0) :
    (command.stores (.ofWords read)).takeWhile (· ≠ 0) = command.shows read' := by
  have hnumber : ∀ v : Int32, (sprintf (intText v)).takeWhile (· ≠ 0) = intText v := by
    intro v
    rw [sprintf, List.takeWhile_append_of_pos]
    · simp
    · intro b hb
      have hne : b ≠ 0 := fun hb0 => zero_notMem_intText v (hb0 ▸ hb)
      simpa using hne
  cases command with
  | hw | sw | temp | relay =>
    rw [stores, hnumber, SdkParam.ofWords, hsame _ (List.mem_singleton_self _)]
    rfl
  | optical =>
    have hread : read (.opticalRelay 0) = 0 :=
      (hsame _ (List.mem_map_of_mem (List.mem_ofFn.mpr ⟨0, rfl⟩))).trans hzero
    -- the first byte ends the string
    have hword : (SdkParam.ofWords read).element .opticalRelay 0 = 0 := by
      have hrelay : (SdkParam.ofWords read).opticalRelay.get 0 = .ofInt (read (.opticalRelay 0)) :=
        Vector.getElem_ofFn (by decide)
      have helement : (SdkParam.ofWords read).element .opticalRelay 0 =
          ((SdkParam.ofWords read).opticalRelay.get 0).toInt := rfl
      rw [helement, hrelay, hread]
      rfl
    rw [stores, elements, List.map_ofFn, List.ofFn_succ, Function.comp_apply, hword]
    exact List.takeWhile_cons_of_neg (by decide)
  | dry =>
    have hword : ∀ i, (SdkParam.ofWords read).element .dryContact i =
        read' (.parsed (.dryContact i)) := by
      intro i
      have hmem : SdkField.parsed (.dryContact i) ∈ Command.fields .dry :=
        List.mem_map_of_mem (f := fun e : SdkArray × Fin 20 => e.1.field e.2)
          (List.mem_ofFn.mpr ⟨i, rfl⟩)
      rw [← hsame _ hmem]
      exact Vector.getElem_ofFn i.isLt
    simp only [stores, elements, List.map_ofFn, Function.comp_def, hword, shows]

/-- A number is no command, and neither is the empty string. -/
theorem Command.not_names_stores {command : Command} (hdry : command ≠ .dry)
    {read read' : SdkField → Int} (hsame : ∀ field ∈ command.fields, read field = read' field)
    (hzero : read' (.opticalRelay 0) = 0) (other : Command) :
    ¬ Names (command.stores (.ofWords read)) other := by
  cases command with
  | hw | sw | temp | relay => exact not_names_intText _ other
  | optical =>
    -- what is stored is the empty string, and every command has a first letter
    intro hnames
    rw [Names, takeWhile_stores _ hsame hzero] at hnames
    obtain ⟨-, -, hhead⟩ := other.text_spec
    rw [← hnames] at hhead
    cases hhead
  | dry => exact absurd rfl hdry

/-! ## In a running agent -/

/-- **The control server.** Let the agent run, in any order of the steps of its threads, and let the
    sensor thread go on while a worker is at work. A command is replied the words that it names, each
    from a sample that the sensor thread has begun to store, while they are read or as one of the
    two before; an optical relay has nothing to show. Any other message is sent back, unless it fills
    the buffer without a NUL. -/
theorem agent_control {demo : Bool} (config : Config) (udpSockfd : Int) (answer : Mem)
    (stack : Clock) (between : SdkField → List SensorMove) (demoinfo : Demoinfo)
    (udpClient : Client) (reading : Option Timeval) (events : List AgentEvent)
    {agent : Agent demo}
    (hrun : run (Agent.step config udpSockfd)
        (.start demo (.start answer noSdkParam) reading stack between demoinfo udpClient) events =
      .next agent)
    (during : Command → SdkField → List SensorMove) (heap : Mem) {arrived : List UInt8}
    (hstring : arrived.length < bufferSize ∨ 0 ∈ arrived.take bufferSize) {mapped : Nat}
    (hmapped : bufferSize ≤ mapped) :
    ∃ sample : SdkField → SdkParam,
      (∀ field, sample field ∈ Sensor.window agent.sensor
          (controlWorker during heap arrived agent.sensor).2) ∧
      (controlWorker during heap arrived agent.sensor).1.reply mapped =
        controlReply (fun field => (sample field).word field) arrived := by
  have horderly :=
    (Agent.sampled_run config udpSockfd answer stack between demoinfo udpClient hrun).orderly
  by_cases hnamed : ∃ command, Names arrived command
  · obtain ⟨command, hnames⟩ := hnamed
    obtain ⟨sample, hsample, hread⟩ :=
      horderly.regular.exists_samples (during command) command.fields
    -- the window lies among the samples once all is read
    have hzero : (sample (.opticalRelay 0)).word (.opticalRelay 0) = 0 :=
      (horderly.readWords (during command) command.fields).word_opticalRelay
        (List.mem_of_mem_take (hsample _)) 0
    obtain ⟨hsensor, hbuffer⟩ := controlWorker_of_names during heap agent.sensor hnames rfl rfl
      fun hdry => Command.not_names_stores hdry hread hzero
    rw [hsensor]
    refine ⟨sample, hsample, ?_⟩
    rw [Worker.reply_receive hbuffer (.inl (command.length_stores_lt _)) hmapped,
      Command.takeWhile_stores command hread hzero, controlReply, find?_commands hnames]
  · -- nothing is read, so that any recent sample will do
    have hunnamed := not_exists.mp hnamed
    obtain ⟨sample, hsample, -⟩ := horderly.regular.exists_samples (fun _ => []) []
    have hworker := controlWorker_of_unnamed during heap agent.sensor hunnamed noSdkParam
    have hbuffer := buffer_of_unnamed heap hunnamed noSdkParam
    rw [hworker]
    refine ⟨sample, hsample, ?_⟩
    rw [Worker.reply_receive hbuffer hstring hmapped, controlReply,
      find?_commands_eq_none hunnamed]

/-- The contacts are asked for while the sensor thread stores them. -/
theorem agent_control_firstWord :
    ∃ agent, run (Agent.step ⟨communityP, false⟩ 3) startedAgent firstWord = .next agent ∧
      ∃ sample : SdkField → SdkParam,
        (∀ field, sample field ∈ Sensor.window agent.sensor (controlWorker (fun _ _ => [.store])
            (fun _ => 0) (Command.text .dry) agent.sensor).2) ∧
        (controlWorker (fun _ _ => [.store]) (fun _ => 0) (Command.text .dry)
            agent.sensor).1.reply bufferSize =
          controlReply (fun field => (sample field).word field) (Command.text .dry) :=
  ⟨_, rfl, agent_control ⟨communityP, false⟩ 3 (fun _ => 0) stillClock (fun _ => []) ⟨0, 0⟩ .empty
    (some ⟨7, 0⟩) firstWord rfl (fun _ _ => [.store]) (fun _ => 0) (.inl (by decide))
    (Nat.le_refl _)⟩

end SdkSnmpd
