import ReplicaRing.Simulation.Call

/-! One node among peers that follow scripts. -/

namespace ReplicaRing.Simulation

/-- A reply: the message that is replied to, with some of its fields changed. -/
structure ScriptedReply where
  verb : UInt8
  payload : Bytes := []
  sender : String
  shift : UInt64 := 0
  version : Option UInt8 := none
  topic : Option Topic := none
  delay : Nat := 0

def ScriptedReply.message (reply : ScriptedReply) (request : Message) : Message :=
  { request with
    version := reply.version.getD request.version
    topic := reply.topic.getD request.topic
    verb := reply.verb
    args := request.args.withRequestId (request.requestId + reply.shift)
    replyTo := reply.sender
    payload := reply.payload }

inductive Turn
  | replies (replies : List ScriptedReply)
  | fails (after : Nat)
  | hangs

structure Sending where
  time : Nat
  target : Address
  message : Message

structure ScriptedPeers where
  /-- The turns for messages to an address about a topic. -/
  turns : Table (Address × Topic) (List Turn) := {}
  /-- The latest first. -/
  sendings : List Sending := []

namespace ScriptedPeers

/-- The next turn of a list whose last turn is repeated. -/
def nextTurn : List Turn → Turn × List Turn
  | [] => (.replies [], [])
  | [turn] => (turn, [turn])
  | turn :: rest => (turn, rest)

def fate (request : Message) : Turn → Fate
  | .replies replies =>
      .taken <| replies.filterMap fun reply =>
        (reply.message request).encode.toOption.map fun datagram =>
          (reply.delay, .handed 0 datagram)
  | .fails after => .refused after
  | .hangs => .stuck

instance : Medium ScriptedPeers where
  send peers now _ target datagram :=
    match Message.decode datagram with
    | .error _ => (.taken [], peers)
    | .ok message =>
        let (turn, rest) := nextTurn ((peers.turns.find? (target, message.topic)).getD [])
        (fate message turn, {
          turns := peers.turns.insert (target, message.topic) rest
          sendings := ⟨now, target, message⟩ :: peers.sendings })
  receive peers _ := (none, peers)

end ScriptedPeers

/-- What came of calls: their answers with the times they took, the time until all had ended, what was
sent meanwhile, and how many requests still wait for replies. -/
structure Report where
  answers : List (Answer × Nat)
  time : Nat
  sendings : List Sending
  routes : Nat

namespace World

def among (turns : Table (Address × Topic) (List Turn)) (host : Host) (address : Address)
    (roster : Roster) : World ScriptedPeers :=
  { medium := { turns }
    nodes := #[{ host, address, membership := { roster }, storage := {}, nextId := 1 }] }

def report (world : World ScriptedPeers) (calls : List Call) :
    Option (Report × World ScriptedPeers) := do
  let began := world.now
  let silent := { world with medium := { world.medium with sendings := [] } }
  let (answers, world) ← silent.call 0 calls
  let routes := (world.nodes[0]?.map fun node => node.routes.size).getD 0
  return ({
    answers := answers.map fun (answer, time) => (answer, time - began)
    time := world.now - began
    sendings := world.medium.sendings.reverse
    routes }, world)

def setMembers (world : World ScriptedPeers) (roster : Roster) : World ScriptedPeers :=
  world.modifyNode 0 fun node => { node with membership := node.membership.replace roster }

end World

/-- The order of sendings in which their requests do not count. -/
def Sending.isBefore (a b : Sending) : Bool :=
  if a.time ≠ b.time then a.time < b.time
  else if a.target.port ≠ b.target.port then a.target.port < b.target.port
  else if a.message.topic ≠ b.message.topic then a.message.topic.name < b.message.topic.name
  else a.message.payload ≤ b.message.payload

end ReplicaRing.Simulation
