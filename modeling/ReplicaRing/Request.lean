import ReplicaRing.Entry
import ReplicaRing.Level

/-! Requests that go to every replica of a key, and what their replies mean. -/

namespace ReplicaRing

inductive Request
  | store (key value : Bytes) (level : Level)
  | load (key : Bytes) (level : Level)
  deriving DecidableEq

inductive Receipt
  | stored
  | found (value : Bytes)
  deriving DecidableEq

def Receipt.value? : Receipt → Option Bytes
  | .stored => none
  | .found value => some value

inductive Vote
  | ack (receipt : Receipt)
  | nack
  deriving DecidableEq

namespace Request

def topic : Request → Topic
  | store .. => .store
  | load .. => .load

def verb : Request → UInt8
  | store .. => Verb.put
  | load .. => Verb.get

def key : Request → Bytes
  | store key .. => key
  | load key _ => key

def level : Request → Level
  | store _ _ level => level
  | load _ level => level

def entry : Request → Entry
  | store key value _ => { key, value }
  | load key _ => { key }

def payload (request : Request) : Except EnvelopeError Bytes := request.entry.encode

/-- The vote in a reply.  Only its verb and its payload count here. -/
def classify (request : Request) (reply : Message) : Option Vote :=
  match request with
  | store .. => if reply.verb = Verb.putAck then some (.ack .stored) else none
  | load .. =>
      if reply.verb = Verb.getAck then
        match Entry.decode reply.payload with
        | .ok entry => some (.ack (.found entry.value))
        | .error _ => none
      else if reply.verb = Verb.getNack then some .nack
      else none

end Request

end ReplicaRing
