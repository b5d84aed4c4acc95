import ReplicaRing.Simulation.Simulator
import ReplicaRing.Simulation.World

/-! Clients of nodes: programs whose exchanges are carried out in a world. -/

namespace ReplicaRing.Simulation

/-- How far a program has come. -/
inductive Session (Result : Type)
  | replicating (operation : Nat) (next : Replication.State → Exchanges Result)
  | pinging (operation : Nat) (next : Ping.State → Exchanges Result)
  | pausing (till : Nat) (next : Exchanges Result)
  | ended (result : Result) (time : Nat)

namespace Session

variable {Result M : Type}

def start (index : Nat) : Exchanges Result → World M → Session Result × World M
  | .done result, world => (.ended result world.now, world)
  | .ask (.replicate request) next, world =>
      match world.nodes[index]? with
      | none => start index (next .error) world
      | some node =>
          let (operation, node) := node.startReplication world.now request
          let world := { world with nodes := world.nodes.setIfInBounds index node }
          (.replicating operation next, world.wake index operation)
  | .ask (.ping name) next, world =>
      match world.nodes[index]? with
      | none => start index (next .error) world
      | some node =>
          let (operation, node) := node.startPing world.now name
          let world := { world with nodes := world.nodes.setIfInBounds index node }
          (.pinging operation next, world.wake index operation)
  | .ask (.pause time) next, world =>
      if time = 0 then start index (next ()) world
      else
        let till := world.now + time
        (.pausing till (next ()), world.modifyAgenda fun agenda => agenda.schedule till .alarm)

def resume (index : Nat) (session : Session Result) (world : World M) :
    Session Result × World M :=
  match session with
  | .replicating operation next =>
      match world.operation? index operation with
      | some (.replication _ _ run) =>
          if run.isOver then start index (next run.state) world else (session, world)
      | _ => (session, world)
  | .pinging operation next =>
      match world.operation? index operation with
      | some (.ping _ _ run) =>
          if run.isOver then start index (next run.state) world else (session, world)
      | _ => (session, world)
  | .pausing till next =>
      if till ≤ world.now then start index next world else (session, world)
  | .ended .. => (session, world)

def eachInTurn {Start End : Type} (step : Start → World M → End × World M) :
    List Start → World M → List End × World M
  | [], world => ([], world)
  | first :: rest, world =>
      let (done, world) := step first world
      let (others, world) := eachInTurn step rest world
      (done :: others, world)

def result? : Session Result → Option (Result × Nat)
  | .ended result time => some (result, time)
  | _ => none

end Session

/-- Carries out programs side by side for clients of one node.  Gives the results with the times of
their ends, unless one never ends. -/
def World.perform {Result M : Type} [Medium M] (world : World M) (index : Nat)
    (programs : List (Exchanges Result)) : Option (List (Result × Nat) × World M) :=
  let simulator : Simulator (World M) Event (List (Session Result)) := {
    agenda := World.agenda
    setAgenda := fun world agenda => { world with agenda }
    handle := World.handle
    goOn := Session.eachInTurn (Session.resume index)
    isFinished := fun sessions => sessions.all fun session => session.result?.isSome }
  let (sessions, world) := Session.eachInTurn (Session.start index) programs world
  (simulator.run sessions world).map fun (sessions, world) =>
    (sessions.filterMap Session.result?, world)

end ReplicaRing.Simulation
