import ReplicaRing.Message.Layout
import ReplicaRing.Peer

/-! What can be set on a node, and which settings work together. -/

namespace ReplicaRing

/-- How a node speaks.  Times are in milliseconds and, as instants are, without a bound. -/
structure Protocol where
  version : UInt8 := Message.currentVersion
  pingTimeout : Nat := 500
  ackTimeout : Nat := 1000
  maxValueSize : Nat := 1024
  deriving DecidableEq

structure Host where
  name : String
  protocol : Protocol := {}
  deriving DecidableEq

namespace Host

def request (host : Host) (topic : Topic) (verb : UInt8) : Message :=
  .request host.protocol.version topic verb host.name

def reply (host : Host) (message : Message) (verb : UInt8) : Message :=
  { message.reply verb host.name with version := host.protocol.version }

end Host

structure Settings where
  name : String
  tokens : UInt32 := Peer.defaultTokens
  protocol : Protocol := {}
  pageSize : Nat := 512
  deriving DecidableEq

inductive SettingsError
  | emptyName
  | unfitName
  | noTokens
  | valueTooLarge (maxValueSize : Nat)
  | unfitPageSize (pageSize maxValueSize : Nat)
  deriving DecidableEq, Repr

def SettingsError.reason : SettingsError → String
  | .emptyName => "name is empty"
  | .unfitName => s!"name must be at most {Layout.nameSize} bytes without NUL"
  | .noTokens => "partitions must be positive"
  | .valueTooLarge maxValueSize =>
      s!"max_value_size {maxValueSize} leaves no room for the envelope in a {Layout.maxPayload}"
        ++ " byte payload"
  | .unfitPageSize pageSize maxValueSize =>
      s!"page_size {pageSize} must be between 1 and max_value_size {maxValueSize}"

namespace Settings

/-- Room in a payload for a key and for what surrounds the entry. -/
def envelopeReserve : Nat := 1024

def validate (settings : Settings) : Except SettingsError Unit :=
  let name := Bytes.ofText settings.name
  let maxValueSize := settings.protocol.maxValueSize
  if name = [] then .error .emptyName
  else if Layout.nameSize < name.length ∨ 0 ∈ name then .error .unfitName
  else if settings.tokens = 0 then .error .noTokens
  else if Layout.maxPayload < maxValueSize + envelopeReserve then
    .error (.valueTooLarge maxValueSize)
  else if settings.pageSize = 0 ∨ maxValueSize < settings.pageSize then
    .error (.unfitPageSize settings.pageSize maxValueSize)
  else .ok ()

def host (settings : Settings) : Host := ⟨settings.name, settings.protocol⟩

def peer (settings : Settings) (address : Address) : Peer :=
  ⟨settings.name, address, settings.tokens⟩

end Settings

end ReplicaRing
