import ReplicaRing.Error
import ReplicaRing.Ping
import ReplicaRing.Replication
import ReplicaRing.Routes
import ReplicaRing.Server

/-! Single parts of a node, moved by hand: automata without their runs, and the server without a network.
Nothing is sent; it is noted what would be. -/

namespace ReplicaRing.Simulation

abbrev Refused := List Address

def attempt (refused : Refused) (peer : Peer) (message : Message) :
    Except ProtocolError (Address × Bytes) := do
  let (target, datagram) ← Server.address peer message
  if target ∈ refused then throw (.transport "refused")
  return (target, datagram)

/-- An automaton without a run, and the part of its node that it can change. -/
structure Bench (Memory State : Type) where
  memory : Memory
  state : State
  roster : Roster
  routes : Routes Unit := {}

structure Yield (Input : Type) where
  queued : List Input := []
  sent : List (Address × Bytes) := []

namespace Bench

variable {Memory State Input : Type}

/-- Does what an automaton asks for.  A send that fails is reported to its queue. -/
def apply (refused : Refused) (sendFailed : String → Input) (effects : List Effect)
    (bench : Bench Memory State) (yield : Yield Input) : Bench Memory State × Yield Input :=
  effects.foldl (fun (bench, yield) effect =>
    match effect with
    | .route id => ({ bench with routes := bench.routes.insert id () }, yield)
    | .unroute id => ({ bench with routes := bench.routes.erase id }, yield)
    | .abandon => (bench, yield)
    | .send peer message =>
        match attempt refused peer message with
        | .ok sending => (bench, { yield with sent := yield.sent ++ [sending] })
        | .error _ => (bench, { yield with queued := yield.queued ++ [sendFailed peer.name] }))
    (bench, yield)

def feed (automaton : Automaton Roster Memory State Input Effect) (refused : Refused)
    (sendFailed : String → Input) (bench : Bench Memory State) (input : Input) :
    Bench Memory State × Yield Input :=
  let reaction := automaton.react bench.roster bench.memory bench.state input
  apply refused sendFailed reaction.effects
    { bench with memory := reaction.memory, state := reaction.state } { queued := reaction.queued }

def deliver (bench : Bench Memory State) (reply : Message → Input) (message : Message) :
    Bool × Yield Input :=
  match bench.routes.owner? message with
  | some () => (true, { queued := [reply message] })
  | none => (false, {})

def retire (automaton : Automaton Roster Memory State Input Effect) (refused : Refused)
    (sendFailed : String → Input) (bench : Bench Memory State) :
    Bench Memory State × Yield Input :=
  apply refused sendFailed (automaton.retire bench.memory bench.state) bench {}

end Bench

structure ServerBench where
  host : Host
  roster : Roster
  refused : Refused := []
  storage : MemoryStore := {}
  routes : Routes Unit := {}

namespace ServerBench

structure Handled where
  sent : Option (Address × Bytes) := none
  delivered : Option Message := none

def note {S : Type} (bench : ServerBench) (response : Server.Response S) : Handled :=
  { sent := response.outgoing.filter fun sending => sending.1 ∉ bench.refused
    delivered := response.reply.filter fun reply => (bench.routes.owner? reply).isSome }

def receive (bench : ServerBench) (datagram : Bytes) : Handled × ServerBench :=
  let response := Server.receive bench.host bench.roster bench.storage datagram
  (bench.note response, { bench with storage := response.storage })

/-- A datagram comes in while the storage refuses every access. -/
def receivePoisoned (bench : ServerBench) (datagram : Bytes) : Handled :=
  bench.note (Server.receive bench.host bench.roster ({} : PoisonedStore) datagram)

def sendTo (bench : ServerBench) (name : String) (message : Message) :
    Except ProtocolError (Address × Bytes) :=
  match bench.roster.find? name with
  | none => .error (.unknownPeer name)
  | some peer => attempt bench.refused peer message

end ServerBench

end ReplicaRing.Simulation
