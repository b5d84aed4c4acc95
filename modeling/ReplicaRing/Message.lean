import ReplicaRing.Bytes

/-! The messages that peers exchange. -/

namespace ReplicaRing

inductive Topic
  | noop
  | ping
  | store
  | load
  deriving DecidableEq, Repr

namespace Topic

/-- Code two is kept for joining a cluster and never sent. -/
def code : Topic → UInt8
  | noop => 0
  | ping => 1
  | store => 3
  | load => 4

def ofCode? (code : UInt8) : Option Topic :=
  [noop, ping, store, load].find? fun topic => topic.code == code

def name : Topic → String
  | noop => "NOOP"
  | ping => "PING"
  | store => "STORE"
  | load => "LOAD"

end Topic

/-- Sixteen bytes that a responder returns unchanged; the first eight number the request. -/
structure Args where
  bytes : Bytes
  length_eq : bytes.length = 16
  deriving DecidableEq

namespace Args

def zero : Args := ⟨List.replicate 16 0, by simp⟩

instance : Inhabited Args := ⟨zero⟩

def requestId (args : Args) : UInt64 := UInt64.ofNat (Bytes.toNat (args.bytes.take 8))

def withRequestId (args : Args) (id : UInt64) : Args :=
  ⟨Bytes.bigEndian 8 id.toNat ++ args.bytes.drop 8, by simp [args.length_eq]⟩

end Args

structure Message where
  version : UInt8
  topic : Topic
  verb : UInt8
  args : Args
  replyTo : String
  payload : Bytes
  deriving DecidableEq

inductive Role
  | noop
  | ping
  | pong
  | put
  | putAck
  | get
  | getAck
  | getNack
  | unknown
  deriving DecidableEq, Repr

namespace Message

def currentVersion : UInt8 := 1

def request (version : UInt8) (topic : Topic) (verb : UInt8) (replyTo : String) : Message :=
  { version, topic, verb, args := .zero, replyTo, payload := [] }

def requestId (message : Message) : UInt64 := message.args.requestId

def withRequestId (message : Message) (id : UInt64) : Message :=
  { message with args := message.args.withRequestId id }

def withPayload (message : Message) (payload : Bytes) : Message := { message with payload }

def reply (message : Message) (verb : UInt8) (replyTo : String) : Message :=
  { message with verb, replyTo, payload := [] }

def role (message : Message) : Role :=
  match message.topic, message.verb with
  | .noop, _ => .noop
  | .ping, 0 => .ping
  | .ping, 1 => .pong
  | .store, 0 => .put
  | .store, 1 => .putAck
  | .load, 0 => .get
  | .load, 1 => .getAck
  | .load, 2 => .getNack
  | _, _ => .unknown

end Message

def Verb.ping : UInt8 := 0
def Verb.pong : UInt8 := 1
def Verb.put : UInt8 := 0
def Verb.putAck : UInt8 := 1
def Verb.get : UInt8 := 0
def Verb.getAck : UInt8 := 1
def Verb.getNack : UInt8 := 2

end ReplicaRing
