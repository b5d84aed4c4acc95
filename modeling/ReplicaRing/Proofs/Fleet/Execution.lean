import Mathlib.Algebra.Group.Nat.Defs
import Mathlib.Logic.Function.Basic
import ReplicaRing.Node
import ReplicaRing.Simulation.Call

/-!
Fleets of nodes on a network that may delay, reorder, drop and duplicate datagrams, with clients that
call on them.  Whatever may happen next is an action; an execution is any sequence of actions.
-/

namespace ReplicaRing

open Simulation (Call Answer Session)

namespace Fleet

/-- A message that an operation wants to be sent. -/
structure Parcel (Member : Type) where
  sender : Member
  operation : Nat
  peer : Peer
  message : Message

def Parcel.of? {Member : Type} (sender : Member) (operation : Nat) :
    Effect → Option (Parcel Member)
  | .send peer message => some ⟨sender, operation, peer, message⟩
  | _ => none

structure Caller (Member : Type) where
  member : Member
  call : Call
  session : Session Answer

inductive Action (Member S : Type)
  | call (member : Member) (call : Call)
  | resume (caller : Nat)
  | advance (member : Member) (operation : Nat)
  | transmit (parcel : Nat)
  /-- A parcel could not be sent, and its operation learns of that. -/
  | refuse (parcel : Nat)
  /-- A datagram that was sent to a node reaches it, perhaps not for the first time. -/
  | deliver (member : Member) (datagram : Bytes)
  | view (member : Member) (roster : Roster)
  /-- Entries are written outside the protocol. -/
  | rewrite (member : Member) (storage : S)
  | elapse (time : Nat)

end Fleet

structure Fleet (Member S : Type) where
  nodes : Member → Node S
  callers : List (Fleet.Caller Member) := []
  /-- Every message that an operation ever wanted to be sent. -/
  outbox : List (Fleet.Parcel Member) := []
  /-- Every datagram that was ever sent, with the address it was sent to. -/
  sent : List (Address × Bytes) := []
  now : Nat := 0

namespace Fleet

variable {Member S : Type} [DecidableEq Member]

def setNode (fleet : Fleet Member S) (member : Member) (node : Node S) : Fleet Member S :=
  { fleet with nodes := Function.update fleet.nodes member node }

def proceed (fleet : Fleet Member S) (member : Member) :
    Exchanges Answer → Session Answer × Fleet Member S
  | .done result => (.ended result fleet.now, fleet)
  | .ask (.replicate request) next =>
      let (operation, node) := (fleet.nodes member).startReplication fleet.now request
      (.replicating operation next, fleet.setNode member node)
  | .ask (.ping name) next =>
      let (operation, node) := (fleet.nodes member).startPing fleet.now name
      (.pinging operation next, fleet.setNode member node)
  | .ask (.pause time) next => (.pausing (fleet.now + time) (next ()), fleet)

def resume (fleet : Fleet Member S) (member : Member) (session : Session Answer) :
    Session Answer × Fleet Member S :=
  match session with
  | .replicating operation next =>
      match (fleet.nodes member).operations[operation]? with
      | some (.replication _ _ run) =>
          if run.isOver then fleet.proceed member (next run.state) else (session, fleet)
      | _ => (session, fleet)
  | .pinging operation next =>
      match (fleet.nodes member).operations[operation]? with
      | some (.ping _ _ run) =>
          if run.isOver then fleet.proceed member (next run.state) else (session, fleet)
      | _ => (session, fleet)
  | .pausing till next =>
      if till ≤ fleet.now then fleet.proceed member next else (session, fleet)
  | .ended .. => (session, fleet)

def giveBack (fleet : Fleet Member S) (parcel : Parcel Member) : Fleet Member S :=
  fleet.setNode parcel.sender
    ((fleet.nodes parcel.sender).modify parcel.operation (Operation.sendFailed parcel.peer.name))

def transmit (fleet : Fleet Member S) (parcel : Parcel Member) : Fleet Member S :=
  match parcel.message.encode with
  | .ok datagram => { fleet with sent := fleet.sent ++ [(parcel.peer.address, datagram)] }
  | .error _ => fleet.giveBack parcel

def step [Storage S] (fleet : Fleet Member S) : Action Member S → Fleet Member S
  | .call member call =>
      let node := fleet.nodes member
      let program := call.program node.host node.membership.roster
      { fleet with callers := fleet.callers ++ [⟨member, call, .pausing fleet.now program⟩] }
  | .resume caller =>
      match fleet.callers[caller]? with
      | none => fleet
      | some waiting =>
          let (session, after) := fleet.resume waiting.member waiting.session
          { after with callers := fleet.callers.set caller { waiting with session } }
  | .advance member operation =>
      match (fleet.nodes member).advance fleet.now operation with
      | none => fleet
      | some (node, effects) =>
          { fleet.setNode member node with
            outbox := fleet.outbox ++ effects.filterMap (Parcel.of? member operation) }
  | .transmit parcel =>
      match fleet.outbox[parcel]? with
      | none => fleet
      | some taken => fleet.transmit taken
  | .refuse parcel =>
      match fleet.outbox[parcel]? with
      | none => fleet
      | some taken => fleet.giveBack taken
  | .deliver member datagram =>
      if ((fleet.nodes member).address, datagram) ∈ fleet.sent then
        let (node, _, outgoing) := (fleet.nodes member).receive datagram
        { fleet.setNode member node with sent := fleet.sent ++ outgoing.toList }
      else fleet
  | .view member roster =>
      let node := fleet.nodes member
      fleet.setNode member { node with membership := node.membership.replace roster }
  | .rewrite member storage => fleet.setNode member { fleet.nodes member with storage }
  | .elapse time => { fleet with now := fleet.now + time }

structure IsFresh (fleet : Fleet Member S) : Prop where
  noOperations : ∀ member, (fleet.nodes member).operations = #[]
  noRoutes : ∀ member, (fleet.nodes member).routes = {}
  noCallers : fleet.callers = []
  nothingToSend : fleet.outbox = []
  nothingSent : fleet.sent = []

/-- A fleet and everything that happens to it. -/
structure Execution (Member S : Type) where
  start : Fleet Member S
  schedule : Nat → Action Member S

namespace Execution

variable [Storage S] (e : Execution Member S)

def after : Nat → Fleet Member S
  | 0 => e.start
  | time + 1 => (after time).step (e.schedule time)

def node (time : Nat) (member : Member) : Node S := (e.after time).nodes member

def operation? (time : Nat) (member : Member) (index : Nat) : Option Operation :=
  (e.node time member).operations[index]?

def roster (time : Nat) (member : Member) : Roster := (e.node time member).membership.roster

def host (member : Member) : Host := (e.start.nodes member).host

def address (member : Member) : Address := (e.start.nodes member).address

def requestId (member : Member) (index : Nat) : UInt64 :=
  (e.start.nodes member).nextId + UInt64.ofNat index

/-- The fleet is fresh at first; names and addresses are distinct; a roster that has the name of a
member has its address too; and no member makes so many requests that their numbers come round
again. -/
structure Lawful : Prop where
  fresh : e.start.IsFresh
  names : Function.Injective fun member => (e.host member).name
  addresses : Function.Injective e.address
  rosters : ∀ time member other peer,
    (e.roster time member).find? (e.host other).name = some peer → peer.address = e.address other
  requests : ∀ time member, (e.node time member).operations.size < 2 ^ 64

end Execution

end Fleet

end ReplicaRing
