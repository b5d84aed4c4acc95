import ReplicaRing.Client
import ReplicaRing.Membership
import ReplicaRing.Routes
import ReplicaRing.Server

/-! A member of a cluster: its own exchanges, and what it does for others. -/

namespace ReplicaRing

/-- An exchange under way.  The automaton holds a sender for its own queue, which so never closes. -/
inductive Operation
  | replication (request : Request) (id : UInt64)
      (run : Run Replication.Tally Replication.State Replication.Input)
  | ping (target : String) (id : UInt64) (run : Run Ping.Memory Ping.State Ping.Input)

namespace Operation

def isOver : Operation → Bool
  | replication _ _ run => run.isOver
  | ping _ _ run => run.isOver

def deadline? : Operation → Option Nat
  | replication _ _ run => run.deadline.map Prod.fst
  | ping _ _ run => run.deadline.map Prod.fst

def startReplication (host : Host) (now : Nat) (request : Request) (id : UInt64) : Operation :=
  .replication request id
    ((Run.start (Replication.automaton host request id) now {} .start 1).push (.input .start))

def startPing (host : Host) (now : Nat) (target : String) (id : UInt64) : Operation :=
  .ping target id ((Run.start (Ping.automaton host target id) now {} .start 1).push (.input .start))

def advance (host : Host) (roster : Roster) (now : Nat) :
    Operation → Option (Operation × List Effect)
  | replication request id run =>
      (run.advance (Replication.automaton host request id) roster now).map fun (run, effects) =>
        (.replication request id run, effects)
  | ping target id run =>
      (run.advance (Ping.automaton host target id) roster now).map fun (run, effects) =>
        (.ping target id run, effects)

def reply (message : Message) : Operation → Operation
  | replication request id run => .replication request id (run.push (.input (.reply message)))
  | ping target id run => .ping target id (run.push (.input (.pong message)))

def sendFailed (peer : String) : Operation → Operation
  | replication request id run => .replication request id (run.push (.input (.sendFailed peer)))
  | ping target id run => .ping target id (run.push (.input .sendFailed))

end Operation

structure Node (S : Type) where
  host : Host
  address : Address
  membership : Membership := {}
  storage : S
  routes : Routes Nat := {}
  nextId : UInt64 := 0
  operations : Array Operation := #[]

namespace Node

variable {S : Type}

/-- The number of a new request; the numbers go round. -/
def drawId (node : Node S) : UInt64 × Node S :=
  (node.nextId, { node with nextId := node.nextId + 1 })

def start (node : Node S) (operation : UInt64 → Operation) : Nat × Node S :=
  let (id, node) := node.drawId
  (node.operations.size, { node with operations := node.operations.push (operation id) })

def startReplication (node : Node S) (now : Nat) (request : Request) : Nat × Node S :=
  node.start (Operation.startReplication node.host now request)

def startPing (node : Node S) (now : Nat) (target : String) : Nat × Node S :=
  node.start (Operation.startPing node.host now target)

def modify (node : Node S) (index : Nat) (change : Operation → Operation) : Node S :=
  { node with operations := node.operations.modify index change }

def apply (node : Node S) (index : Nat) : Effect → Node S
  | .route id => { node with routes := node.routes.insert id index }
  | .unroute id => { node with routes := node.routes.erase id }
  | .send .. | .abandon => node

def advance (node : Node S) (now : Nat) (index : Nat) : Option (Node S × List Effect) := do
  let operation ← node.operations[index]?
  let (operation, effects) ← operation.advance node.host node.membership.roster now
  let node := node.modify index fun _ => operation
  return (effects.foldl (fun node effect => node.apply index effect) node, effects)

/-- Handles a datagram.  Tells which operation got a reply, and what is to be sent. -/
def receive [Storage S] (node : Node S) (datagram : Bytes) :
    Node S × Option Nat × Option (Address × Bytes) :=
  let response := Server.receive node.host node.membership.roster node.storage datagram
  let node := { node with storage := response.storage }
  match response.reply with
  | none => (node, none, response.outgoing)
  | some message =>
      match node.routes.owner? message with
      | none => (node, none, response.outgoing)
      | some index =>
          (node.modify index fun operation => operation.reply message, some index,
            response.outgoing)

end Node

end ReplicaRing
