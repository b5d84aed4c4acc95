import ReplicaRing.Ping
import ReplicaRing.Program
import ReplicaRing.Replication

/-! What clients of a node can do, as programs over the exchanges of the node with its peers. -/

namespace ReplicaRing

inductive Exchange
  | replicate (request : Request)
  | ping (name : String)
  | pause (time : Nat)

def Exchange.Result : Exchange → Type
  | replicate _ => Replication.State
  | ping _ => Ping.State
  | pause _ => Unit

abbrev Exchanges (Result : Type) := Program Exchange Exchange.Result Result

namespace Client

def replicate (request : Request) : Exchanges Replication.State :=
  Program.perform (Exchange.replicate request)

/-- Replicates a value.  One that is too long is refused before anything is sent. -/
def store (host : Host) (key value : Bytes) (level : Level) : Exchanges Outcome :=
  if host.protocol.maxValueSize < value.length then return .error
  else do
    let state ← replicate (.store key value level)
    return state.outcome

/-- Reads a key.  When some replicas lack it, the value found is stored back at the same level first;
how that ends does not matter. -/
def loadState (host : Host) (key : Bytes) (level : Level) : Exchanges Replication.State := do
  let state ← replicate (.load key level)
  match state with
  | .partialSuccess (.found value) =>
      let _ ← store host key value level
      return state
  | _ => return state

def load (host : Host) (key : Bytes) (level : Level) : Exchanges (Option Bytes × Outcome) := do
  let state ← loadState host key level
  return (state.value?, state.outcome)

def ping (name : String) : Exchanges Outcome := do
  let state : Ping.State ← Program.perform (Exchange.ping name)
  return state.outcome

def pause (time : Nat) : Exchanges Unit := Program.perform (Exchange.pause time)

end Client

/-- The use of a cluster as a service that keeps values under keys. -/
inductive Access
  | load (key : Bytes) (level : Level)
  | store (key value : Bytes) (level : Level)

def Access.Result : Access → Type
  | load .. => Replication.State
  | store .. => Outcome

abbrev Accesses (Result : Type) := Program Access Access.Result Result

def Client.serve (host : Host) : (access : Access) → Exchanges access.Result
  | .load key level => loadState host key level
  | .store key value level => store host key value level

end ReplicaRing
