import ReplicaRing.Automaton
import ReplicaRing.Simulation.Simulator

/-! One automaton, given as a table, with a script and a feeder that send it inputs in time. -/

namespace ReplicaRing.Simulation

/-- Where an entry of the table leads, and what it puts into the automaton's own queue. -/
structure Target where
  state : String
  emits : List String := []

structure Chart where
  initial : String
  terminal : List String
  table : String → String → Option Target
  timeouts : String → Option (Nat × String)
  /-- Where an input leads that the table does not have, unless the automaton stays then. -/
  otherwise : Option Target := none
  keepsSender : Bool := false

inductive Note
  | transition (state input next : String)
  | ended (state : String)

namespace Chart

def target (chart : Chart) (state input : String) : Target :=
  ((chart.table state input).or chart.otherwise).getD ⟨state, []⟩

def automaton (chart : Chart) : Automaton Unit Unit String String Note where
  react _ memory state input :=
    let target := chart.target state input
    { memory, state := target.state,
      queued := if chart.keepsSender then target.emits else [],
      effects := [.transition state input target.state] }
  isTerminal state := chart.terminal.contains state
  timeout := chart.timeouts
  retire _ state := [.ended state]

end Chart

inductive FeederLine
  | send (input : String)
  | sleep (time : Nat)
  deriving DecidableEq

inductive ScriptLine
  | send (input : String)
  | sleep (time : Nat)
  | terminate
  | probe

structure Trial where
  chart : Chart
  script : List ScriptLine
  feeder : Option (List FeederLine) := none

namespace Trial

inductive Event
  | wake
  | feed (lines : List FeederLine)
  | alarm
  deriving DecidableEq

structure Progress where
  agenda : Agenda Event := {}
  run : Run Unit String String
  log : List (Nat × String × String × String) := []
  ends : List String := []

namespace Progress

def note (progress : Progress) : Note → Progress
  | .transition state input next =>
      { progress with log := (progress.agenda.now, state, input, next) :: progress.log }
  | .ended state => { progress with ends := progress.ends ++ [state] }

def wake (progress : Progress) : Progress :=
  { progress with agenda := progress.agenda.remind .wake }

def send (progress : Progress) (command : Command String) : Progress :=
  { progress with run := progress.run.push command }.wake

def release (progress : Progress) : Progress :=
  { progress with run := progress.run.release }.wake

def alarm (progress : Progress) (time : Nat) : Progress :=
  { progress with agenda := progress.agenda.schedule time .alarm }

def advance (chart : Chart) (progress : Progress) : Progress :=
  match progress.run.advance chart.automaton () progress.agenda.now with
  | none => progress
  | some (run, notes) =>
      let agenda := (progress.agenda.first .wake).follow (progress.run.deadline.map Prod.fst)
        (run.deadline.map Prod.fst) .wake
      notes.foldl note { progress with run, agenda }

def feed (progress : Progress) : List FeederLine → Progress
  | [] => progress.release
  | .send input :: rest => (progress.send (.input input)).feed rest
  | .sleep time :: rest =>
      if time = 0 then progress.feed rest
      else { progress with agenda := progress.agenda.after time (.feed rest) }

def handle (chart : Chart) (event : Event) (progress : Progress) : Progress :=
  match event with
  | .wake => progress.advance chart
  | .feed lines => progress.feed lines
  | .alarm => progress

end Progress

inductive Line
  | asleep (till : Nat) (lines : List ScriptLine)
  | awaiting (till : Nat)
  | gotResult (state : String)
  | gaveUp

structure Main where
  line : Line
  probes : List Bool := []

def limit : Nat := 1000000

/-- Plays the script up to its next sleep.  Awaiting the result gives up the script's sender. -/
def play : List ScriptLine → List Bool → Progress → Main × Progress
  | [], probes, progress =>
      let till := progress.agenda.now + limit
      (⟨.awaiting till, probes⟩, progress.release.alarm till)
  | .send input :: rest, probes, progress => play rest probes (progress.send (.input input))
  | .terminate :: rest, probes, progress => play rest probes (progress.send .terminate)
  | .probe :: rest, probes, progress => play rest (probes ++ [progress.run.isOver]) progress
  | .sleep time :: rest, probes, progress =>
      if time = 0 then play rest probes progress
      else
        let till := progress.agenda.now + time
        (⟨.asleep till rest, probes⟩, progress.alarm till)

def Main.look (main : Main) (progress : Progress) : Main :=
  match main.line with
  | .awaiting till =>
      if progress.run.isOver then { main with line := .gotResult progress.run.state }
      else if till ≤ progress.agenda.now then { main with line := .gaveUp }
      else main
  | _ => main

def Main.goOn (main : Main) (progress : Progress) : Main × Progress :=
  let (main, progress) :=
    match main.line with
    | .asleep till rest =>
        if till ≤ progress.agenda.now then play rest main.probes progress else (main, progress)
    | _ => (main, progress)
  (main.look progress, progress)

def Main.isFinished (main : Main) : Bool :=
  match main.line with
  | .gotResult _ | .gaveUp => true
  | _ => false

structure Result where
  log : List (Nat × String × String × String)
  final : Option (String × Nat)
  ends : List String
  probes : List Bool

def opening (trial : Trial) : Progress :=
  let chart := trial.chart
  let senders := 1 + chart.keepsSender.toNat + trial.feeder.isSome.toNat
  let run := Run.start chart.automaton 0 () chart.initial senders
  let feed := (trial.feeder.map Event.feed).toList
  { run, agenda := ({ ready := .wake :: feed : Agenda Event }.follow none
      (run.deadline.map Prod.fst) .wake) }

def perform (trial : Trial) : Option Result :=
  let simulator : Simulator Progress Event Main := {
    agenda := Progress.agenda
    setAgenda := fun progress agenda => { progress with agenda }
    handle := Progress.handle trial.chart
    goOn := Main.goOn
    isFinished := Main.isFinished }
  (simulator.run ⟨.asleep 0 trial.script, []⟩ trial.opening).map fun (main, progress) =>
    { log := progress.log.reverse
      final := match main.line with
        | .gotResult state => some (state, progress.agenda.now)
        | _ => none
      ends := progress.ends
      probes := main.probes }

end Trial

end ReplicaRing.Simulation
