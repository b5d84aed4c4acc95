import ReplicaRing.Simulation.Session

/-! What clients call on their nodes. -/

namespace ReplicaRing.Simulation

inductive Call
  | store (key value : Bytes) (level : Level)
  | load (key : Bytes) (level : Level)
  | loadState (key : Bytes) (level : Level)
  | ping (name : String)
  | replicas (key : Position) (level : Level)
  | peers
  | tokens
  | sleep (time : Nat)

inductive Answer
  | outcome (outcome : Outcome)
  | loaded (value : Option Bytes) (outcome : Outcome)
  | state (state : Replication.State)
  | replicas (peers : Except RingError (List Peer))
  | peers (peers : List Peer)
  | tokens (tokens : Except RingError (List Token))
  | rested

def Call.program (host : Host) (roster : Roster) : Call → Exchanges Answer
  | .store key value level => return .outcome (← Client.store host key value level)
  | .load key level => do
      let (value, outcome) ← Client.load host key level
      return .loaded value outcome
  | .loadState key level => return .state (← Client.loadState host key level)
  | .ping name => return .outcome (← Client.ping name)
  | .replicas key level => return .replicas (roster.replicas key level)
  | .peers => return .peers roster.peers
  | .tokens => return .tokens ((Ring.ofRoster roster).map fun ring => ring.tokens.toList)
  | .sleep time => do
      Client.pause time
      return .rested

def World.call {M : Type} [Medium M] (world : World M) (index : Nat) (calls : List Call) :
    Option (List (Answer × Nat) × World M) :=
  world.perform index <|
    match world.nodes[index]? with
    | some node => calls.map (Call.program node.host node.membership.roster)
    | none => []

end ReplicaRing.Simulation
