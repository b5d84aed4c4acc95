import ReplicaRing.Error

/-! How a node answers the datagrams that reach it. -/

namespace ReplicaRing.Server

def pong (host : Host) (message : Message) : Message := host.reply message Verb.pong

def put {S : Type} [Storage S] (host : Host) (storage : S) (message : Message) :
    Except ProtocolError Message × S :=
  match Entry.decode message.payload with
  | .error error => (.error (.envelope error), storage)
  | .ok entry =>
      match Storage.put storage entry.key entry.value with
      | (.error error, storage) => (.error (.storage error), storage)
      | (.ok (), storage) => (.ok (host.reply message Verb.putAck), storage)

def get {S : Type} [Storage S] (host : Host) (storage : S) (message : Message) :
    Except ProtocolError Message := do
  let entry ← (Entry.decode message.payload).mapError .envelope
  match ← (Storage.get storage entry.key).mapError .storage with
  | some value =>
      let payload ← ({ key := entry.key, value : Entry }.encode).mapError .envelope
      return (host.reply message Verb.getAck).withPayload payload
  | none => return host.reply message Verb.getNack

def address (peer : Peer) (message : Message) : Except ProtocolError (Address × Bytes) :=
  (message.encode.mapError .wire).map fun datagram => (peer.address, datagram)

/-- What becomes of a datagram: the storage after it, and at most one of a datagram to send and a reply
for the operation that waits for it. -/
structure Response (S : Type) where
  storage : S
  outgoing : Option (Address × Bytes) := none
  reply : Option Message := none

/-- Sends an answer to the peer that a message names, if the peer is known and the answer can be
written. -/
def respond {S : Type} (roster : Roster) (storage : S) (message : Message)
    (answer : Except ProtocolError Message) : Response S :=
  let outgoing := do
    let answer ← answer
    match roster.find? message.replyTo with
    | none => .error (.unknownPeer message.replyTo)
    | some peer => address peer answer
  { storage, outgoing := outgoing.toOption }

def handle {S : Type} [Storage S] (host : Host) (roster : Roster) (storage : S)
    (message : Message) : Response S :=
  match message.role with
  | .noop | .unknown => { storage }
  | .ping => respond roster storage message (.ok (pong host message))
  | .put =>
      let (answer, storage) := put host storage message
      respond roster storage message answer
  | .get => respond roster storage message (get host storage message)
  | .pong | .putAck | .getAck | .getNack => { storage, reply := some message }

/-- Handles a datagram.  What cannot be read, and what has another version, is dropped. -/
def receive {S : Type} [Storage S] (host : Host) (roster : Roster) (storage : S)
    (datagram : Bytes) : Response S :=
  match Message.decode datagram with
  | .error _ => { storage }
  | .ok message =>
      if message.version = host.protocol.version then handle host roster storage message
      else { storage }

end ReplicaRing.Server
