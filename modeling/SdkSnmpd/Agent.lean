import SdkSnmpd.Clock
import SdkSnmpd.EventLoop
import SdkSnmpd.Sdkinfo

/-!
# The Agent as a Whole

The sensor thread and the loop of `run_snmpd`, which share `sdk_param`. The sensor thread moves
between the rounds of the loop, and between the reads of an update.

## Contents

- `Agent`, `Agent.start`, `Agent.round`, `Agent.step`: both threads as one transition system.
- `SampleOf`: a sample that the sensor thread has begun to store, and where it comes from.
- `Agent.Sampled`: the numbers that the MIB shows for the words stand in samples. `agent_sampled`: at
  all times.
- `agent_fresh`: the numbers that a round replies with are less than `g_timeout` ticks old.
- `agent_consistent`: an update that the sensor thread does not disturb shows one sample.
- `agent_opticalRelays`: the optical relays are never sampled.
-/

namespace SdkSnmpd

open Lib (Mem Outcome Registers run)

/-! ## State -/

/-- The agent between two rounds. `window` are the samples that the last full update has met; the
    program keeps no record of them. -/
structure Agent (demo : Bool) where
  sensor : Sensor
  table : Table demo
  clock : Clock
  server : Server
  window : List SdkParam

/-- What a round of the loop finds in its environment. The MIB of `io` is not looked at. -/
structure Round where
  /-- What `gettimeofday` stores, or nothing for -1. -/
  reading : Option Timeval
  /-- What the sensor thread does before each read of `get_sdkinfo`. -/
  between : SdkField → List SensorMove
  demoinfo : Demoinfo
  io : LoopInput

inductive AgentEvent where
  | sensor (m : SensorMove)
  | round (round : Round)

/-- Sleep until we get a request or the timeout is over. -/
def select (s : Server) (io : LoopInput) : Outcome Unit :=
  if ∃ r ∈ s.clients, ¬ Watchable r.client.sockfd then .undefined
  else if io.interrupted then .exit
  else .next ()

namespace Agent

variable {demo : Bool}

/-- A full `mib_update`, with the sensor thread at work. -/
def refresh (agent : Agent demo) (between : SdkField → List SensorMove) (demoinfo : Demoinfo) :
    Agent demo :=
  let result := getSdkinfo between agent.sensor
  { agent with
    sensor := result.2
    table := agent.table.update ⟨true, result.1, demoinfo⟩
    window := Sensor.window agent.sensor result.2 }

/-- Before the loop: store the starting time, build the MIB, and execute the first update. -/
def start (demo : Bool) (sensor : Sensor) (reading : Option Timeval) (stack : Clock)
    (between : SdkField → List SensorMove) (demoinfo : Demoinfo) (udpClient : Client) :
    Agent demo :=
  refresh
    { sensor
      table := .built demo
      clock := .start reading stack
      server := .start udpClient
      window := [] }
    between demoinfo

/-- The first half of a round: sleep, and update the MIB if it is time. A partial update changes
    nothing (`Table.update_of_partial`). -/
def prepare (agent : Agent demo) (round : Round) : Outcome (Agent demo) :=
  (select agent.server round.io).bind fun _ =>
    match agent.clock.tick round.reading with
    | none => .undefined
    | some (full, clock) =>
        .next { (if full then agent.refresh round.between round.demoinfo else agent) with clock }

/-- One round of the loop. -/
def round (config : Config) (udpSockfd : Int) (agent : Agent demo) (round : Round) :
    Outcome (Agent demo) :=
  (agent.prepare round).bind fun agent =>
    (iterate config udpSockfd agent.server
      { round.io with mib := some agent.table.mib }).bind fun server =>
        .next { agent with server }

/-- One step of either thread. -/
def step (config : Config) (udpSockfd : Int) (agent : Agent demo) :
    AgentEvent → Outcome (Agent demo)
  | .sensor m => .next { agent with sensor := agent.sensor.move m }
  | .round input => agent.round config udpSockfd input

end Agent

/-! ## Where samples come from -/

/-- The moves of the sensor thread in a step: those between the reads of a round, if it reads. -/
def Agent.moves {demo : Bool} (agent : Agent demo) : AgentEvent → List SensorMove
  | .sensor m => [m]
  | .round input =>
      match agent.clock.tick input.reading with
      | some (true, _) => readOrder.flatMap input.between
      | _ => []

/-- The moves of the sensor thread in a run, from the first update on. -/
def Agent.movesOfRun {demo : Bool} (config : Config) (udpSockfd : Int)
    (between : SdkField → List SensorMove) (start : Agent demo) (events : List AgentEvent) :
    List SensorMove :=
  readOrder.flatMap between ++ Lib.effects (Agent.step config udpSockfd) Agent.moves start events

/-- A sample that the sensor thread has begun to store. The thread is where its moves have led. -/
structure SampleOf (answer : Mem) (moves : List SensorMove) (sensor : Sensor)
    (sample : SdkParam) : Prop where
  moved : sensor = (Sensor.start answer noSdkParam).moves moves
  begun : sample ∈ sensor.samples
  /-- The sample is that of the start, or the loop of `threading_sdk_serial` stores it after one of
      the requests among the moves. If that request is sound, then the sample is parsed from the
      bytes that it has read. -/
  origin : sample = noSdkParam ∨
    ∃ entry ∈ SdkThread.entries ⟨.status, answer, noSdkParam⟩
        ((Sensor.start answer noSdkParam).requests moves),
      entry.stored = some sample ∧ (entry.Sound → entry.FromReply)

namespace Sensor

theorem moves_append (sensor : Sensor) (ms ms' : List SensorMove) :
    sensor.moves (ms ++ ms') = (sensor.moves ms).moves ms' := List.foldl_append

/-- Reading words leaves the sensor thread where its moves have led. -/
theorem readWords_moves (between : SdkField → List SensorMove) (fields : List SdkField)
    (sensor : Sensor) :
    (sensor.readWords between fields).2 = sensor.moves (fields.flatMap between) := by
  induction fields generalizing sensor with
  | nil => rfl
  | cons field fields ih =>
    rw [List.flatMap_cons, moves_append, ← ih]
    rfl

/-- Every sample has an origin. -/
theorem sampleOf_of_moves {answer : Mem} {moves : List SensorMove} {sensor : Sensor}
    (hmoved : sensor = (Sensor.start answer noSdkParam).moves moves) {sample : SdkParam}
    (hsample : sample ∈ sensor.samples) : SampleOf answer moves sensor sample := by
  refine ⟨hmoved, hsample, ?_⟩
  subst hmoved
  rcases exists_entry_of_mem hsample with hstart | ⟨entry, hentry, hstored⟩
  · exact .inl (List.mem_singleton.mp hstart)
  · -- the entry is a request of the thread, so that soundness decides about it
    obtain ⟨thread, event, rfl⟩ := SdkThread.exists_step_of_mem _ _ hentry
    exact .inr ⟨_, hentry, hstored, (step_fromReply_iff thread event).mpr⟩

end Sensor

/-! ## Optical relays -/

theorem SdkParam.opticalRelay_store (sdk : SdkParam) (w : ParsedField × Int) :
    (sdk.store w).opticalRelay = sdk.opticalRelay := by
  obtain ⟨field, v⟩ := w
  cases field <;> rfl

namespace Sensor

/-- The thread stores one sample after the other, and no optical relay in any of them. -/
structure Orderly (sensor : Sensor) : Prop where
  regular : sensor.Regular
  relays : sensor.thread.sdk.opticalRelay = noSdkParam.opticalRelay
  sampled : ∀ sample ∈ sensor.samples, sample.opticalRelay = noSdkParam.opticalRelay

theorem orderly_start (answer : Mem) : (Sensor.start answer noSdkParam).Orderly where
  regular := regular_start answer noSdkParam
  relays := rfl
  sampled := by
    intro sample h
    rw [List.mem_singleton.mp h]

namespace Orderly

variable {sensor : Sensor}

/-- No sample shows a closed optical relay. -/
theorem word_opticalRelay (h : sensor.Orderly) {sample : SdkParam}
    (hsample : sample ∈ sensor.samples) (i : Fin 4) : sample.word (.opticalRelay i) = 0 := by
  have hzero : ∀ i : Fin 4, noSdkParam.word (.opticalRelay i) = 0 := by decide
  rw [SdkParam.word, h.sampled sample hsample, ← hzero i]
  rfl

theorem request (h : sensor.Orderly) (event : SdkEvent) :
    (sensor.request event).thread.sdk.opticalRelay = noSdkParam.opticalRelay ∧
      ∀ sample ∈ (sensor.request event).samples,
        sample.opticalRelay = noSdkParam.opticalRelay := by
  unfold Sensor.request
  split
  · exact ⟨h.relays, h.sampled⟩
  · dsimp only
    split
    · rename_i hstored
      rw [SdkThread.step_unstored hstored]
      exact ⟨h.relays, h.sampled⟩
    · rename_i sdk hstored
      -- what is parsed keeps the relays that were there
      obtain ⟨hparse, -⟩ := SdkThread.step_stored hstored
      have hrelays : sdk.opticalRelay = noSdkParam.opticalRelay := by
        rw [hparse]
        exact h.relays
      exact ⟨h.relays, List.forall_mem_cons.mpr ⟨hrelays, h.sampled⟩⟩

theorem store (h : sensor.Orderly) :
    sensor.store.thread.sdk.opticalRelay = noSdkParam.opticalRelay ∧
      ∀ sample ∈ sensor.store.samples, sample.opticalRelay = noSdkParam.opticalRelay := by
  unfold Sensor.store
  split
  · exact ⟨h.relays, h.sampled⟩
  · exact ⟨(SdkParam.opticalRelay_store _ _).trans h.relays, h.sampled⟩

theorem move (h : sensor.Orderly) (m : SensorMove) : (sensor.move m).Orderly := by
  -- the thread writes records as `Lib.Registers` has it
  have hregular : (sensor.move m).Regular := by
    rw [Sensor.Regular, registers_move]
    exact (Registers.Regular.moves h.regular (sensor.distinct_writes m)).1
  cases m with
  | request event => exact ⟨hregular, (h.request event).1, (h.request event).2⟩
  | store => exact ⟨hregular, h.store.1, h.store.2⟩

theorem moves (h : sensor.Orderly) (ms : List SensorMove) : (sensor.moves ms).Orderly := by
  induction ms generalizing sensor with
  | nil => exact h
  | cons m ms ih => exact ih (h.move m)

theorem readWords (h : sensor.Orderly) (between : SdkField → List SensorMove)
    (fields : List SdkField) : (sensor.readWords between fields).2.Orderly := by
  rw [readWords_moves]
  exact h.moves _

end Orderly

/-- Samples are only added. -/
theorem samples_move (sensor : Sensor) (m : SensorMove) :
    sensor.samples ⊆ (sensor.move m).samples := by
  cases m with
  | request event =>
    simp only [move, request]
    split
    · exact fun _ h => h
    · split
      · exact fun _ h => h
      · exact List.subset_cons_self _ _
  | store =>
    simp only [move, store]
    split <;> exact fun _ h => h

end Sensor

/-! ## Samples in the MIB -/

namespace Agent

variable {demo : Bool} {agent agent' : Agent demo}

/-- Whatever the MIB shows for a word is its number in a sample that the last full update has met. -/
structure Sampled (agent : Agent demo) : Prop where
  orderly : agent.sensor.Orderly
  known : agent.window ⊆ agent.sensor.samples
  shown : ∃ read, Shows agent.table.val read ∧
    ∀ field, ∃ sample ∈ agent.window, read field = sample.word field

/-- A full update, whatever the table has shown before. -/
theorem sampled_refresh (h : agent.sensor.Orderly) (between : SdkField → List SensorMove)
    (demoinfo : Demoinfo) : (agent.refresh between demoinfo).Sampled := by
  obtain ⟨-, read, hread, hsampled⟩ := getSdkinfo_sampled h.regular between
  refine ⟨h.readWords between readOrder, fun _ hsample => List.mem_of_mem_take hsample, read, ?_,
    hsampled⟩
  -- an update shows what was read, whatever the table was
  rw [refresh, hread]
  exact agent.table.shows_update read demoinfo

theorem sampled_start (demo : Bool) (answer : Mem) (reading : Option Timeval) (stack : Clock)
    (between : SdkField → List SensorMove) (demoinfo : Demoinfo) (udpClient : Client) :
    (start demo (.start answer noSdkParam) reading stack between demoinfo udpClient).Sampled :=
  sampled_refresh (Sensor.orderly_start answer) between demoinfo

/-- What the first half of a round does. -/
theorem prepare_eq_next {input : Round} (h : agent.prepare input = .next agent') :
    ∃ full clock, agent.clock.tick input.reading = some (full, clock) ∧
      agent' =
        { (if full then agent.refresh input.between input.demoinfo else agent) with clock } := by
  obtain ⟨_, _, h⟩ := Outcome.bind_eq_next.mp h
  split at h
  · cases h
  · rename_i full clock htick
    cases h
    exact ⟨full, clock, htick, rfl⟩

/-- It leaves the server alone. -/
theorem server_of_prepare {input : Round} (h : agent.prepare input = .next agent') :
    agent'.server = agent.server := by
  obtain ⟨full, clock, -, rfl⟩ := prepare_eq_next h
  cases full <;> rfl

/-- What a round does: the server handles its events with the MIB that the first half leaves. -/
theorem round_eq_next {config : Config} {udpSockfd : Int} {input : Round}
    (h : agent.round config udpSockfd input = .next agent') :
    ∃ prepared server, agent.prepare input = .next prepared ∧
      iterate config udpSockfd agent.server { input.io with mib := some prepared.table.mib } =
        .next server ∧ agent' = { prepared with server } := by
  obtain ⟨prepared, hprepare, h⟩ := Outcome.bind_eq_next.mp h
  obtain ⟨server, hserver, h⟩ := Outcome.bind_eq_next.mp h
  cases h
  rw [server_of_prepare hprepare] at hserver
  exact ⟨prepared, server, hprepare, hserver, rfl⟩

theorem Sampled.prepare (h : agent.Sampled) {input : Round}
    (hnext : agent.prepare input = .next agent') : agent'.Sampled := by
  obtain ⟨full, clock, -, rfl⟩ := prepare_eq_next hnext
  have hupdated : (if full then agent.refresh input.between input.demoinfo else agent).Sampled := by
    -- the clock alone changes if no update is due
    split
    · exact sampled_refresh h.orderly _ _
    · exact h
  exact ⟨hupdated.orderly, hupdated.known, hupdated.shown⟩

/-- **Every step of either thread** keeps the samples in the MIB. -/
theorem Sampled.step {config : Config} {udpSockfd : Int} (h : agent.Sampled) (event : AgentEvent)
    (hnext : agent.step config udpSockfd event = .next agent') : agent'.Sampled := by
  cases event with
  | sensor m =>
    cases hnext
    exact ⟨h.orderly.move m, fun _ hsample => agent.sensor.samples_move m (h.known hsample),
      h.shown⟩
  | round input =>
    obtain ⟨prepared, server, hprepare, -, rfl⟩ := round_eq_next hnext
    -- requests do not change the MIB
    have hprepared := h.prepare hprepare
    exact ⟨hprepared.orderly, hprepared.known, hprepared.shown⟩

theorem Sampled.steps {config : Config} {udpSockfd : Int} {events : List AgentEvent}
    (h : agent.Sampled) (hrun : run (Agent.step config udpSockfd) agent events = .next agent') :
    agent'.Sampled :=
  Lib.run_keeps (fun _ event _ _ hagent hnext => hagent.step event hnext)
    (fun _ _ => trivial) h hrun

/-- A step leads the sensor thread by its moves, and by nothing else. -/
theorem sensor_step {config : Config} {udpSockfd : Int} (event : AgentEvent)
    (hnext : agent.step config udpSockfd event = .next agent') :
    agent'.sensor = agent.sensor.moves (agent.moves event) := by
  cases event with
  | sensor m =>
    cases hnext
    rfl
  | round input =>
    obtain ⟨prepared, server, hprepare, -, rfl⟩ := round_eq_next hnext
    obtain ⟨full, clock, htick, rfl⟩ := prepare_eq_next hprepare
    rw [moves, htick]
    cases full with
    | false => rfl
    | true =>
      -- the moves between the reads of the update
      exact Sensor.readWords_moves input.between readOrder agent.sensor

end Agent

/-! ## Runs -/

/-- Nothing happens but that time goes by. -/
def idleRound (reading : Option Timeval) : Round where
  reading := reading
  between := fun _ => []
  demoinfo := ⟨0, 0⟩
  io := ⟨false, fun _ => false, fun _ => false, none, none, none, fun _ => none, fun _ => none, 0⟩

theorem valid_second (sec : Int) : (⟨sec, 0⟩ : Timeval).Valid where
  usec_nonneg := Int.le_refl 0
  usec_lt := show (0 : Int) < 1000000 by decide

/-- Without TCP clients, a round that is not interrupted takes place, and there are none after
    it. -/
theorem Agent.exists_round {demo : Bool} {agent : Agent demo} (config : Config) (udpSockfd : Int)
    {input : Round} {now : Timeval} (hclients : agent.server.clients = [])
    (hinterrupted : input.io.interrupted = false) (hconnection : input.io.connection = none)
    (hreading : input.reading = some now) (hlast : agent.clock.last.Valid) (hnow : now.Valid)
    (hsmall : now.sec - 1 - agent.clock.last.sec ≤ 2 ^ 24) :
    ∃ agent', agent.round config udpSockfd input = .next agent' ∧ agent'.server.clients = [] := by
  -- the reading is near enough for `ticks_since`
  obtain ⟨full, clock, htick⟩ := Clock.exists_tick hlast hnow hsmall
  obtain ⟨prepared, hprepare, hserver⟩ : ∃ prepared, agent.prepare input = .next prepared ∧
      prepared.server = agent.server := by
    simp only [Agent.prepare, select, hclients, hinterrupted, hreading, htick]
    exact ⟨_, rfl, by cases full <;> rfl⟩
  -- no client means that none is watched and none is cleaned up
  obtain ⟨server, hiterate, hnone⟩ : ∃ server, iterate config udpSockfd prepared.server
      { input.io with mib := some prepared.table.mib } = .next server ∧
        server.clients = [] := by
    rw [iterate, handleEvents, hserver, hclients]
    simp [hinterrupted, hconnection, Outcome.bind, cleanUp, cleanUpFrom]
  exact ⟨{ prepared with server }, by rw [Agent.round, hprepare, Outcome.bind, hiterate]; rfl,
    hnone⟩

def stillClock : Clock := ⟨⟨0, 0⟩, ⟨0, 0⟩, ⟨0, 0⟩⟩

/-- The agent, before any answer of the device. -/
def startedAgent : Agent false :=
  .start false (.start (fun _ => 0) noSdkParam) (some ⟨7, 0⟩) stillClock (fun _ => []) ⟨0, 0⟩ .empty

/-- The first word of a sample has been stored. -/
def firstWord : List AgentEvent := [.sensor (.request onesThenFive), .sensor .store]

/-- Then an update. -/
def updatedRun : List AgentEvent := firstWord ++ [.round (idleRound (some ⟨8, 0⟩))]

theorem exists_run_updatedRun : ∃ agent,
    run (Agent.step ⟨communityP, false⟩ 3) startedAgent updatedRun = .next agent := by
  obtain ⟨agent, hstored, hclients, hlast⟩ : ∃ agent,
      run (Agent.step ⟨communityP, false⟩ 3) startedAgent firstWord = .next agent ∧
        agent.server.clients = [] ∧ agent.clock.last = ⟨7, 0⟩ := ⟨_, rfl, rfl, rfl⟩
  obtain ⟨agent', hround, -⟩ : ∃ agent',
      agent.round ⟨communityP, false⟩ 3 (idleRound (some ⟨8, 0⟩)) = .next agent' ∧
        agent'.server.clients = [] :=
    Agent.exists_round ⟨communityP, false⟩ 3 hclients rfl rfl rfl (hlast ▸ valid_second 7)
      (valid_second 8) (by rw [hlast]; decide)
  exact ⟨agent', Lib.run_concat hstored hround⟩

section

variable {demo : Bool} (config : Config) (udpSockfd : Int) (answer : Mem) (stack : Clock)
  (between : SdkField → List SensorMove) (demoinfo : Demoinfo) (udpClient : Client)

/-- In a run, the sensor thread is led by the moves of the run. -/
theorem Agent.sensor_run {reading : Option Timeval} {events : List AgentEvent} {agent : Agent demo}
    (hrun : run (Agent.step config udpSockfd)
        (.start demo (.start answer noSdkParam) reading stack between demoinfo udpClient) events =
      .next agent) :
    agent.sensor = (Sensor.start answer noSdkParam).moves
      (Agent.movesOfRun config udpSockfd between
        (.start demo (.start answer noSdkParam) reading stack between demoinfo udpClient)
        events) := by
  rw [Agent.movesOfRun, Sensor.moves_append, ← Sensor.readWords_moves]
  exact Lib.run_effects (fun _ event _ hnext => Agent.sensor_step event hnext) hrun

theorem Agent.sampled_run {reading : Option Timeval} {events : List AgentEvent}
    {agent : Agent demo}
    (hrun : run (Agent.step config udpSockfd)
        (.start demo (.start answer noSdkParam) reading stack between demoinfo udpClient) events =
      .next agent) : agent.Sampled := by
  -- the first update, and then every step
  have hstart := Agent.sampled_start demo answer reading stack between demoinfo udpClient
  exact hstart.steps hrun

/-- **Samples in the MIB.** Let the agent run, in any order of the steps of its two threads. At all
    times, the MIB shows under the OID of each word its number in a sample that the sensor thread
    has begun to store, and that the last full update has met. The sample is that of the start, or
    of a request that the thread has made in the run; if this request is sound, then the sample was
    parsed from the bytes that it has read. -/
theorem agent_sampled (reading : Option Timeval) (events : List AgentEvent) {agent : Agent demo}
    (hrun : run (Agent.step config udpSockfd)
        (.start demo (.start answer noSdkParam) reading stack between demoinfo udpClient) events =
      .next agent) (field : SdkField) :
    ∃ sample ∈ agent.window,
      SampleOf answer
        (Agent.movesOfRun config udpSockfd between
          (.start demo (.start answer noSdkParam) reading stack between demoinfo udpClient) events)
        agent.sensor sample ∧
      ∃ value ∈ agent.table.val, value.oid = field.oid ∧
        HoldsInteger value.data (field.number (sample.word field)) := by
  have h := Agent.sampled_run config udpSockfd answer stack between demoinfo udpClient hrun
  have hmoved := Agent.sensor_run config udpSockfd answer stack between demoinfo udpClient hrun
  -- one reading of all words stands behind the whole table
  obtain ⟨read, hshows, hsampled⟩ := h.shown
  obtain ⟨sample, hsample, hread⟩ := hsampled field
  obtain ⟨value, hvalue, hoid, hdata⟩ := hshows field
  exact ⟨sample, hsample, Sensor.sampleOf_of_moves hmoved (h.known hsample), value, hvalue, hoid,
    hread ▸ hdata⟩

theorem agent_sampled_updatedRun :
    ∃ agent, run (Agent.step ⟨communityP, false⟩ 3) startedAgent updatedRun = .next agent ∧
      ∃ sample ∈ agent.window,
        SampleOf (fun _ => 0)
          (Agent.movesOfRun ⟨communityP, false⟩ 3 (fun _ => []) startedAgent updatedRun)
          agent.sensor sample ∧
        ∃ value ∈ agent.table.val, value.oid = (SdkField.parsed .selfTemp).oid ∧
          HoldsInteger value.data ((SdkField.parsed .selfTemp).number
            (sample.word (.parsed .selfTemp))) := by
  obtain ⟨agent, hrun⟩ := exists_run_updatedRun
  exact ⟨agent, hrun, agent_sampled ⟨communityP, false⟩ 3 (fun _ => 0) stillClock (fun _ => [])
    ⟨0, 0⟩ .empty (some ⟨7, 0⟩) updatedRun hrun (.parsed .selfTemp)⟩

/-- **Optical relays.** Nothing is ever stored into them, and the MIB shows 0 for each at all
    times. -/
theorem agent_opticalRelays (reading : Option Timeval) (events : List AgentEvent)
    {agent : Agent demo}
    (hrun : run (Agent.step config udpSockfd)
        (.start demo (.start answer noSdkParam) reading stack between demoinfo udpClient) events =
      .next agent) (i : Fin 4) :
    agent.sensor.thread.sdk.word (.opticalRelay i) = 0 ∧
      ∃ value ∈ agent.table.val, value.oid = (SdkField.opticalRelay i).oid ∧
        HoldsInteger value.data 0 := by
  have h := Agent.sampled_run config udpSockfd answer stack between demoinfo udpClient hrun
  have hzero : ∀ i : Fin 4, noSdkParam.word (.opticalRelay i) = 0 := by decide
  obtain ⟨read, hshows, hsampled⟩ := h.shown
  obtain ⟨sample, hsample, hread⟩ := hsampled (.opticalRelay i)
  obtain ⟨value, hvalue, hoid, hdata⟩ := hshows (.opticalRelay i)
  refine ⟨?_, value, hvalue, hoid, ?_⟩
  · rw [← hzero i, SdkParam.word, h.orderly.relays, SdkParam.word]
  · -- the sample that the MIB shows has no closed relay
    rw [hread, h.orderly.word_opticalRelay (h.known hsample) i] at hdata
    exact hdata

theorem agent_opticalRelays_updatedRun :
    ∃ agent, run (Agent.step ⟨communityP, false⟩ 3) startedAgent updatedRun = .next agent ∧
      agent.sensor.thread.sdk.word (.opticalRelay 2) = 0 ∧
      ∃ value ∈ agent.table.val, value.oid = (SdkField.opticalRelay 2).oid ∧
        HoldsInteger value.data 0 := by
  obtain ⟨agent, hrun⟩ := exists_run_updatedRun
  exact ⟨agent, hrun, agent_opticalRelays ⟨communityP, false⟩ 3 (fun _ => 0) stillClock
    (fun _ => []) ⟨0, 0⟩ .empty (some ⟨7, 0⟩) updatedRun hrun 2⟩

end

/-! ## Fresh samples -/

namespace Agent

variable {demo : Bool} {agent agent' : Agent demo}

/-- What the first half of a round does to an agent whose clock has been set. -/
structure Prepared (agent agent' : Agent demo) (input : Round) (now : Timeval) : Prop where
  reading : agent'.clock.now = now
  /-- Less than `g_timeout` has passed since the last full update. -/
  fresh : ¬ Due agent'.clock.last now
  onTime : agent'.clock.OnTime
  /-- If it is due, the MIB is updated with what is read now. Else it is left as it was. -/
  updated : if Due agent.clock.last now
    then agent'.clock.last = now ∧
      agent'.table =
        agent.table.update ⟨true, (getSdkinfo input.between agent.sensor).1, input.demoinfo⟩ ∧
      agent'.sensor = (getSdkinfo input.between agent.sensor).2 ∧
      agent'.window = Sensor.window agent.sensor agent'.sensor
    else agent'.clock.last = agent.clock.last ∧ agent'.table = agent.table ∧
      agent'.sensor = agent.sensor ∧ agent'.window = agent.window

/-- No update is due right after one. -/
theorem not_due_self (now : Timeval) : ¬ Due now now := by
  unfold Due gTimeout
  omega

theorem prepared_of_next {input : Round} {now : Timeval} (hlast : agent.clock.last.Valid)
    (hreading : input.reading = some now) (hnow : now.Valid)
    (hnext : agent.prepare input = .next agent') : Prepared agent agent' input now := by
  obtain ⟨full, clock, htick, rfl⟩ := prepare_eq_next hnext
  rw [hreading] at htick
  -- the flag of the round is what exact arithmetic has
  obtain ⟨hfull, hclock, hset, hontime⟩ := Clock.tick_spec hlast hnow htick
  by_cases hdue : Due agent.clock.last now
  · rw [if_pos hdue] at hset
    rw [hfull, decide_eq_true hdue]
    refine ⟨hclock, ?_, hontime, ?_⟩
    · change ¬ Due clock.last now
      rw [hset]
      exact not_due_self now
    · rw [if_pos hdue]
      exact ⟨hset, rfl, rfl, rfl⟩
  · rw [if_neg hdue] at hset
    rw [hfull, decide_eq_false hdue]
    refine ⟨hclock, ?_, hontime, ?_⟩
    · change ¬ Due clock.last now
      rwa [hset]
    · rw [if_neg hdue]
      exact ⟨hset, rfl, rfl, rfl⟩

/-- The clock has been set by a reading. -/
theorem valid_step {config : Config} {udpSockfd : Int} (hlast : agent.clock.last.Valid)
    {event : AgentEvent}
    (hevent : ∀ input, event = .round input → ∃ now, input.reading = some now ∧ now.Valid)
    (hnext : agent.step config udpSockfd event = .next agent') : agent'.clock.last.Valid := by
  cases event with
  | sensor m =>
    cases hnext
    exact hlast
  | round input =>
    obtain ⟨now, hreading, hnow⟩ := hevent input rfl
    obtain ⟨prepared, server, hprepare, -, rfl⟩ := round_eq_next hnext
    have hupdated := (prepared_of_next hlast hreading hnow hprepare).updated
    change prepared.clock.last.Valid
    -- the time of the last update is this reading, or as it was
    split at hupdated
    · rw [hupdated.1]
      exact hnow
    · rw [hupdated.1]
      exact hlast

/-- The readings of a run. -/
theorem valid_run {config : Config} {udpSockfd : Int} {sensor : Sensor} {stack : Clock}
    {between : SdkField → List SensorMove} {demoinfo : Demoinfo} {udpClient : Client}
    {first : Timeval} (hfirst : first.Valid) {events : List AgentEvent}
    (hevents : ∀ event ∈ events, ∀ input, event = .round input →
      ∃ now, input.reading = some now ∧ now.Valid)
    (hrun : run (Agent.step config udpSockfd)
        (.start demo sensor (some first) stack between demoinfo udpClient) events = .next agent) :
    agent.clock.last.Valid := by
  have hstart : (Agent.start demo sensor (some first) stack between demoinfo
      udpClient).clock.last.Valid := hfirst
  exact Lib.run_keeps (fun _ event _ hevent hvalid hnext => valid_step hvalid hevent hnext)
    hevents hstart hrun

end Agent

/-- **Fresh samples.** The loop is started with a reading and takes one in each round. Then every
    round updates the MIB in full exactly if that is due, the replies are made from the MIB as it is
    then, whose last full update is less than `g_timeout` ticks old, and the sleep after the round
    ends when the next one falls due, or up to 10 ms later. -/
theorem agent_fresh {demo : Bool} (config : Config) (udpSockfd : Int) (sensor : Sensor)
    (stack : Clock) (between : SdkField → List SensorMove) (demoinfo : Demoinfo)
    (udpClient : Client) (first : Timeval) (hfirst : first.Valid) (events : List AgentEvent)
    (hevents : ∀ event ∈ events, ∀ input, event = .round input →
      ∃ now, input.reading = some now ∧ now.Valid)
    {agent agent' : Agent demo}
    (hrun : run (Agent.step config udpSockfd)
        (.start demo sensor (some first) stack between demoinfo udpClient) events = .next agent)
    {input : Round} {now : Timeval} (hreading : input.reading = some now) (hnow : now.Valid)
    (hnext : agent.round config udpSockfd input = .next agent') :
    Agent.Prepared agent agent' input now ∧
      iterate config udpSockfd agent.server { input.io with mib := some agent'.table.mib } =
        .next agent'.server := by
  have hlast := Agent.valid_run hfirst hevents hrun
  obtain ⟨prepared, server, hprepare, hserver, rfl⟩ := Agent.round_eq_next hnext
  have hprepared := Agent.prepared_of_next hlast hreading hnow hprepare
  -- the rest of the round changes the server only
  exact ⟨⟨hprepared.reading, hprepared.fresh, hprepared.onTime, hprepared.updated⟩, hserver⟩

/-- **One sample.** Let an update fall due in a round, and let the sensor thread have nothing to
    store when it begins, and begin with no sample before it is over. Then the MIB shows the latest
    sample as a whole; words of two samples are only mixed while one is being stored. -/
theorem agent_consistent {demo : Bool} (config : Config) (udpSockfd : Int) (answer : Mem)
    (stack : Clock) (between : SdkField → List SensorMove) (demoinfo : Demoinfo)
    (udpClient : Client) (first : Timeval) (hfirst : first.Valid) (events : List AgentEvent)
    (hevents : ∀ event ∈ events, ∀ input, event = .round input →
      ∃ now, input.reading = some now ∧ now.Valid)
    {agent agent' : Agent demo}
    (hrun : run (Agent.step config udpSockfd)
        (.start demo (.start answer noSdkParam) (some first) stack between demoinfo udpClient)
          events = .next agent)
    {input : Round} {now : Timeval} (hreading : input.reading = some now) (hnow : now.Valid)
    (hdue : Due agent.clock.last now) (hpending : agent.sensor.pending = [])
    (hnext : agent.round config udpSockfd input = .next agent')
    (hsame : agent'.sensor.samples = agent.sensor.samples) :
    ∃ sample, agent'.sensor.samples.head? = some sample ∧
      SampleOf answer
        (Agent.movesOfRun config udpSockfd between
          (.start demo (.start answer noSdkParam) (some first) stack between demoinfo udpClient)
          (events ++ [.round input]))
        agent'.sensor sample ∧
      Shows agent'.table.val sample.word := by
  have hlast := Agent.valid_run hfirst hevents hrun
  have horderly :=
    (Agent.sampled_run config udpSockfd answer stack between demoinfo udpClient hrun).orderly
  have hstep : agent.step config udpSockfd (.round input) = .next agent' := hnext
  have hmoved := Agent.sensor_run config udpSockfd answer stack between demoinfo udpClient
    (Lib.run_concat hrun hstep)
  obtain ⟨prepared, server, hprepare, -, rfl⟩ := Agent.round_eq_next hnext
  obtain ⟨full, clock, htick, rfl⟩ := Agent.prepare_eq_next hprepare
  rw [hreading] at htick
  obtain ⟨hfull, -⟩ := Clock.tick_spec hlast hnow htick
  rw [decide_eq_true hdue] at hfull
  -- the update is due, so that it is full
  subst hfull
  -- no sample was begun while the words were read
  have hread := getSdkinfo_of_idle hpending input.between hsame
  have hhead := (congrArg List.head? hsame).trans (horderly.regular.head?_samples hpending)
  refine ⟨agent.sensor.thread.sdk, hhead,
    Sensor.sampleOf_of_moves hmoved (List.mem_of_head? hhead), ?_⟩
  have hshows := agent.table.shows_update agent.sensor.thread.sdk.word input.demoinfo
  rw [← hread] at hshows
  exact hshows

/-- The sensor thread does nothing in it. -/
theorem Agent.samples_idleRound {demo : Bool} {agent agent' : Agent demo} {config : Config}
    {udpSockfd : Int} {reading : Option Timeval}
    (hnext : agent.round config udpSockfd (idleRound reading) = .next agent') :
    agent'.sensor.samples = agent.sensor.samples := by
  obtain ⟨prepared, server, hprepare, -, rfl⟩ := round_eq_next hnext
  obtain ⟨full, clock, -, rfl⟩ := prepare_eq_next hprepare
  cases full <;> rfl

/-- A second later, the agent goes on. -/
theorem exists_round_startedAgent :
    ∃ agent, startedAgent.round ⟨communityP, false⟩ 3 (idleRound (some ⟨8, 0⟩)) = .next agent ∧
      agent.server.clients = [] :=
  Agent.exists_round ⟨communityP, false⟩ 3 rfl rfl rfl rfl (valid_second 7) (valid_second 8)
    (by decide)

theorem agent_fresh_startedAgent :
    ∃ agent, startedAgent.round ⟨communityP, false⟩ 3 (idleRound (some ⟨8, 0⟩)) = .next agent ∧
      Agent.Prepared startedAgent agent (idleRound (some ⟨8, 0⟩)) ⟨8, 0⟩ ∧
      iterate ⟨communityP, false⟩ 3 startedAgent.server
        { (idleRound (some ⟨8, 0⟩)).io with mib := some agent.table.mib } =
          .next agent.server := by
  obtain ⟨agent, hround, -⟩ := exists_round_startedAgent
  exact ⟨agent, hround, agent_fresh ⟨communityP, false⟩ 3 (.start (fun _ => 0) noSdkParam)
    stillClock (fun _ => []) ⟨0, 0⟩ .empty ⟨7, 0⟩ (valid_second 7) []
    (fun _ h => absurd h List.not_mem_nil) rfl rfl (valid_second 8) hround⟩

/-- The first sample has been stored. -/
def firstSample : List AgentEvent :=
  .sensor (.request onesThenFive) :: List.replicate 24 (.sensor .store)

theorem agent_consistent_firstSample :
    ∃ agent, run (Agent.step ⟨communityP, false⟩ 3) startedAgent firstSample = .next agent ∧
      ∃ agent', agent.round ⟨communityP, false⟩ 3 (idleRound (some ⟨8, 0⟩)) = .next agent' ∧
        ∃ sample, agent'.sensor.samples.head? = some sample ∧
          SampleOf (fun _ => 0)
            (Agent.movesOfRun ⟨communityP, false⟩ 3 (fun _ => []) startedAgent
              (firstSample ++ [.round (idleRound (some ⟨8, 0⟩))]))
            agent'.sensor sample ∧
          Shows agent'.table.val sample.word := by
  have hrounds : ∀ event ∈ firstSample, ∀ input, event = .round input →
      ∃ now, input.reading = some now ∧ now.Valid := by
    intro event hevent input hinput
    subst hinput
    simp [firstSample] at hevent
  obtain ⟨agent, hrun, hlast, hclients, hpending⟩ : ∃ agent,
      run (Agent.step ⟨communityP, false⟩ 3) startedAgent firstSample = .next agent ∧
        agent.clock.last = ⟨7, 0⟩ ∧ agent.server.clients = [] ∧ agent.sensor.pending = [] :=
    ⟨_, rfl, rfl, rfl, rfl⟩
  have hvalid : agent.clock.last.Valid := hlast ▸ valid_second 7
  obtain ⟨agent', hround, -⟩ : ∃ agent',
      agent.round ⟨communityP, false⟩ 3 (idleRound (some ⟨8, 0⟩)) = .next agent' ∧
        agent'.server.clients = [] :=
    Agent.exists_round ⟨communityP, false⟩ 3 hclients rfl rfl rfl hvalid (valid_second 8)
      (by rw [hlast]; decide)
  refine ⟨agent, hrun, agent', hround, ?_⟩
  exact agent_consistent ⟨communityP, false⟩ 3 (fun _ => 0) stillClock (fun _ => []) ⟨0, 0⟩ .empty
    ⟨7, 0⟩ (valid_second 7) firstSample hrounds hrun rfl (valid_second 8) (by rw [hlast]; decide)
    hpending hround (Agent.samples_idleRound hround)

end SdkSnmpd
