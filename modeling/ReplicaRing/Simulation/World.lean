import ReplicaRing.Node
import ReplicaRing.Simulation.Agenda
import ReplicaRing.Simulation.Medium

/-! Nodes that exchange datagrams over a medium, one event after the other. -/

namespace ReplicaRing.Simulation

inductive Event
  | wake (node operation : Nat)
  | transmit (node operation : Nat) (peer : Peer) (message : Message)
  | failed (node operation : Nat) (peer : String)
  | arrive (node : Nat) (datagram : Bytes)
  | listen (node : Nat)
  | alarm
  deriving DecidableEq

structure World (M : Type) where
  medium : M
  nodes : Array (Node MemoryStore)
  agenda : Agenda Event := {}

namespace World

variable {M : Type}

def now (world : World M) : Nat := world.agenda.now

def modifyAgenda (world : World M) (change : Agenda Event → Agenda Event) : World M :=
  { world with agenda := change world.agenda }

def modifyNode (world : World M) (index : Nat) (change : Node MemoryStore → Node MemoryStore) :
    World M :=
  { world with nodes := world.nodes.modify index change }

def wake (world : World M) (node operation : Nat) : World M :=
  world.modifyAgenda fun agenda => agenda.remind (.wake node operation)

def operation? (world : World M) (node operation : Nat) : Option Operation :=
  world.nodes[node]?.bind fun node => node.operations[operation]?

/-- An operation is done with; what it still wanted to send is not sent. -/
def isOver (world : World M) (node operation : Nat) : Bool :=
  (world.operation? node operation).all Operation.isOver

def advance (world : World M) (index operation : Nat) : World M :=
  match world.nodes[index]?.bind fun node => node.advance world.now operation with
  | none => world
  | some (node, effects) =>
      let deadline := (world.operation? index operation).bind Operation.deadline?
      let world := { world with nodes := world.nodes.setIfInBounds index node }
      let deadlineAfter := (world.operation? index operation).bind Operation.deadline?
      let world := world.modifyAgenda fun agenda =>
        (agenda.first (.wake index operation)).follow deadline deadlineAfter (.wake index operation)
      effects.foldl (fun world effect =>
        match effect with
        | .send peer message =>
            world.modifyAgenda fun agenda => agenda.soon (.transmit index operation peer message)
        | .route _ | .unroute _ | .abandon => world) world

def failSend (world : World M) (node operation : Nat) (peer : String) : World M :=
  if world.isOver node operation then world
  else
    (world.modifyNode node fun node => node.modify operation (Operation.sendFailed peer)).wake
      node operation

def plan (world : World M) (delay : Nat) : Arrival → World M
  | .handed node datagram =>
      world.modifyAgenda fun agenda => agenda.after delay (.arrive node datagram)
  | .waiting node =>
      world.modifyAgenda fun agenda =>
        if delay = 0 then agenda.remind (.listen node) else agenda.after delay (.listen node)

variable [Medium M]

def send (world : World M) (source target : Address) (datagram : Bytes) : Fate × World M :=
  let (fate, medium) := Medium.send world.medium world.now source target datagram
  let world := { world with medium }
  match fate with
  | .taken arrivals =>
      (fate, arrivals.foldl (fun world (delay, arrival) => world.plan delay arrival) world)
  | .refused _ | .stuck => (fate, world)

def transmit (world : World M) (index operation : Nat) (peer : Peer) (message : Message) :
    World M :=
  if world.isOver index operation then world
  else
    match world.nodes[index]?, message.encode with
    | some node, .ok datagram =>
        match world.send node.address peer.address datagram with
        | (.taken _, world) | (.stuck, world) => world
        | (.refused after, world) =>
            if after = 0 then world.failSend index operation peer.name
            else
              world.modifyAgenda fun agenda =>
                agenda.after after (.failed index operation peer.name)
    | _, _ => world.failSend index operation peer.name

/-- A node handles a datagram.  Whether its answer can be sent does not matter to it. -/
def arrive (world : World M) (index : Nat) (datagram : Bytes) : World M :=
  match world.nodes[index]? with
  | none => world
  | some node =>
      let (node, operation, outgoing) := node.receive datagram
      let world := { world with nodes := world.nodes.setIfInBounds index node }
      let world := match operation with
        | some operation => world.wake index operation
        | none => world
      match outgoing with
      | some (target, answer) => (world.send node.address target answer).2
      | none => world

def listen (world : World M) (index : Nat) : World M :=
  match Medium.receive world.medium index with
  | (none, _) => world
  | (some datagram, medium) =>
      let world := { world with medium, agenda := world.agenda.first (.listen index) }
      world.arrive index datagram

def handle (event : Event) (world : World M) : World M :=
  match event with
  | .wake node operation => world.advance node operation
  | .transmit node operation peer message => world.transmit node operation peer message
  | .failed node operation peer => world.failSend node operation peer
  | .arrive node datagram => world.arrive node datagram
  | .listen node => world.listen node
  | .alarm => world

end World

end ReplicaRing.Simulation
