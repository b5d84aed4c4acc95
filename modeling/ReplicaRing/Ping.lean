import ReplicaRing.Automaton
import ReplicaRing.Effect
import ReplicaRing.Outcome
import ReplicaRing.Settings

/-!
Checks that a named peer answers.

    start → sent → waiting → received → success
                           → timeout
                           → error
    start → error
-/

namespace ReplicaRing.Ping

inductive State
  | start
  | sent
  | waiting
  | received
  | success
  | timeout
  | error
  deriving DecidableEq

namespace State

def name : State → String
  | start => "Start"
  | sent => "Sent"
  | waiting => "WaitPong"
  | received => "RcvdPong"
  | success => "Success"
  | timeout => "Timeout"
  | error => "Error"

def outcome : State → Outcome
  | success => .success
  | timeout => .timeout
  | _ => .error

def isTerminal : State → Bool
  | success | timeout | error => true
  | _ => false

end State

inductive Input
  | start
  | pong (message : Message)
  | sendFailed
  | settle
  | timeout
  deriving DecidableEq

def Input.name : Input → String
  | start => "Start"
  | pong _ => "Pong"
  | sendFailed => "SendFailed"
  | settle => "Settle"
  | timeout => "Timeout"

structure Memory where
  routed : Bool := false
  deriving DecidableEq

abbrev Step := Reaction Memory State Input Effect

def message (host : Host) (id : UInt64) : Message :=
  (host.request .ping Verb.ping).withRequestId id

/-- The settling is queued before the ping is sent, so it comes before any answer. -/
def react (host : Host) (target : String) (id : UInt64) (roster : Roster) (memory : Memory)
    (state : State) (input : Input) : Step :=
  match state, input with
  | .start, .start =>
      match roster.find? target with
      | some peer =>
          { memory := { memory with routed := true }, state := .sent, queued := [.settle],
            effects := [.route id, .send peer (message host id)] }
      | none => { memory, state := .error }
  | .sent, .settle => { memory, state := .waiting }
  | .waiting, .pong reply =>
      if reply.verb = Verb.pong ∧ reply.replyTo = target then
        { memory, state := .received, queued := [.settle] }
      else { memory, state := .waiting }
  | .waiting, .sendFailed => { memory, state := .error }
  | .waiting, .timeout => { memory, state := .timeout }
  | .received, .settle => { memory, state := .success }
  | .received, .pong _ => { memory, state := .received }
  | _, _ => { memory, state := .error }

def automaton (host : Host) (target : String) (id : UInt64) :
    Automaton Roster Memory State Input Effect where
  react := react host target id
  isTerminal := State.isTerminal
  timeout
    | .waiting => some (host.protocol.pingTimeout, .timeout)
    | _ => none
  retire memory _ := .abandon :: if memory.routed then [.unroute id] else []

end ReplicaRing.Ping
