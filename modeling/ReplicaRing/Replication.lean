import ReplicaRing.Automaton
import ReplicaRing.Effect
import ReplicaRing.Error
import ReplicaRing.Outcome
import ReplicaRing.Request
import ReplicaRing.Ring

/-!
One request to all replicas of its key, and the counting of their replies.

    start → sending → waiting → fullAck    → success
                              → partialAck → partialSuccess
                              → noAck      → failure
            sending → error

The targets are fixed when the request is sent.  A target is settled once it has replied or could not
be sent to.  The wait ends when all targets are settled or time runs out.
-/

namespace ReplicaRing.Replication

inductive State
  | start
  | sending
  | waiting
  | fullAck
  | partialAck
  | noAck
  | success (receipt : Receipt)
  | partialSuccess (receipt : Receipt)
  /-- No target acknowledged; so many of them said explicitly that they hold nothing. -/
  | failure (nacks targets : Nat)
  | error
  deriving DecidableEq

namespace State

def name : State → String
  | start => "Start"
  | sending => "Send"
  | waiting => "WaitAck"
  | fullAck => "FullAck"
  | partialAck => "PartialAck"
  | noAck => "NoAck"
  | success _ => "Success"
  | partialSuccess _ => "PartialSuccess"
  | failure .. => "Failure"
  | error => "Error"

def outcome : State → Outcome
  | success _ => .success
  | partialSuccess _ => .partialSuccess
  | failure .. => .failure
  | _ => .error

/-- Every target said that it holds nothing. -/
def isAllNacked : State → Bool
  | failure nacks targets => nacks == targets
  | _ => false

def receipt? : State → Option Receipt
  | success receipt | partialSuccess receipt => some receipt
  | _ => none

def value? (state : State) : Option Bytes := state.receipt?.bind Receipt.value?

def isTerminal : State → Bool
  | success _ | partialSuccess _ | failure .. | error => true
  | _ => false

end State

inductive Input
  | start
  | send
  | reply (message : Message)
  | sendFailed (peer : String)
  | settle
  | timeout
  deriving DecidableEq

def Input.name : Input → String
  | start => "Start"
  | send => "Send"
  | reply _ => "Reply"
  | sendFailed _ => "SendFailed"
  | settle => "Settle"
  | timeout => "Timeout"

structure Tally where
  targets : Nat := 0
  pending : List String := []
  acks : Nat := 0
  nacks : Nat := 0
  /-- Replies of targets that are no vote. -/
  strays : Nat := 0
  failed : Nat := 0
  receipt : Option Receipt := none
  routed : Bool := false
  deriving DecidableEq

abbrev Step := Reaction Tally State Input Effect

namespace Tally

def await (pending : List String) (name : String) : List String :=
  if name ∈ pending then pending else pending ++ [name]

def settleTarget (tally : Tally) (name : String) : Tally :=
  { tally with pending := tally.pending.filter (· ≠ name) }

def count (tally : Tally) : Option Vote → Tally
  | some (.ack receipt) =>
      { tally with acks := tally.acks + 1, receipt := tally.receipt.or (some receipt) }
  | some .nack => { tally with nacks := tally.nacks + 1 }
  | none => { tally with strays := tally.strays + 1 }

def conclude (tally : Tally) : Step :=
  if tally.failed = tally.targets then { memory := tally, state := .error }
  else
    let state :=
      if tally.acks = tally.targets then .fullAck
      else if 0 < tally.acks then .partialAck
      else .noAck
    { memory := tally, state, queued := [.settle] }

def awaitRest (tally : Tally) : Step :=
  if tally.pending.isEmpty then tally.conclude else { memory := tally, state := .waiting }

def settleWith (tally : Tally) (wrap : Receipt → State) : Step :=
  match tally.receipt with
  | some receipt => { memory := tally, state := wrap receipt }
  | none => { memory := tally, state := .error }

end Tally

/-- The replicas of a request and the message for them, in which only what the ring and the sizes
allow is sent. -/
def plan (host : Host) (request : Request) (id : UInt64) (roster : Roster) :
    Except ProtocolError (List Peer × Message) := do
  let targets ← (roster.replicas (.hash request.key) request.level).mapError .ring
  let payload ← request.payload.mapError .envelope
  let message :=
    ((host.request request.topic request.verb).withRequestId id).withPayload payload
  let _ ← message.encode.mapError .wire
  return (targets, message)

def fanOut (tally : Tally) (id : UInt64) (targets : List Peer) (message : Message) : Step :=
  { memory := { tally with
      targets := targets.length
      pending := targets.foldl (fun pending peer => Tally.await pending peer.name) tally.pending
      routed := true }
    state := .waiting
    effects := .route id :: targets.map fun peer => .send peer message }

/-- A reply or a failed send concerns the count only while its sender is pending. -/
def react (host : Host) (request : Request) (id : UInt64) (roster : Roster) (tally : Tally)
    (state : State) (input : Input) : Step :=
  match state, input with
  | .start, .start => { memory := tally, state := .sending, queued := [.send] }
  | .sending, .send =>
      match plan host request id roster with
      | .ok (targets, message) => fanOut tally id targets message
      | .error _ => { memory := tally, state := .error }
  | .waiting, .reply message =>
      if message.replyTo ∈ tally.pending then
        ((tally.settleTarget message.replyTo).count (request.classify message)).awaitRest
      else { memory := tally, state := .waiting }
  | .waiting, .sendFailed peer =>
      if peer ∈ tally.pending then
        { tally.settleTarget peer with failed := tally.failed + 1 }.awaitRest
      else tally.awaitRest
  | .waiting, .timeout => tally.conclude
  | .fullAck, .settle => tally.settleWith .success
  | .partialAck, .settle => tally.settleWith .partialSuccess
  | .noAck, .settle => { memory := tally, state := .failure tally.nacks tally.targets }
  | .fullAck, .reply _ | .fullAck, .sendFailed _ | .fullAck, .timeout
  | .partialAck, .reply _ | .partialAck, .sendFailed _ | .partialAck, .timeout
  | .noAck, .reply _ | .noAck, .sendFailed _ | .noAck, .timeout => { memory := tally, state }
  | _, _ => { memory := tally, state := .error }

def retire (id : UInt64) (tally : Tally) (_ : State) : List Effect :=
  .abandon :: if tally.routed then [.unroute id] else []

def automaton (host : Host) (request : Request) (id : UInt64) :
    Automaton Roster Tally State Input Effect where
  react := react host request id
  isTerminal := State.isTerminal
  timeout
    | .waiting => some (host.protocol.ackTimeout, .timeout)
    | _ => none
  retire := retire id

end ReplicaRing.Replication
