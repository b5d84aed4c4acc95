import ReplicaRing.Entry
import ReplicaRing.Settings
import ReplicaRing.Storage

/-! The errors of an exchange between peers, and of a node, in words. -/

namespace ReplicaRing

inductive ProtocolError
  | wire (error : WireError)
  | ring (error : RingError)
  | envelope (error : EnvelopeError)
  | storage (error : StorageError)
  | transport (reason : String)
  | closed
  | unknownPeer (name : String)
  deriving DecidableEq

def ProtocolError.message? : ProtocolError → Option String
  | .wire error => some ("wire error: " ++ error.message)
  | .ring error => some ("ring error: " ++ error.message)
  | .envelope error => error.message?.map ("envelope error: " ++ ·)
  | .storage error => some ("store error: " ++ error.message)
  | .transport reason => some ("transport error: " ++ reason)
  | .closed => some "transport closed"
  | .unknownPeer name => some ("unknown peer: " ++ name)

inductive NodeError
  | protocol (error : ProtocolError)
  | invalidSettings (error : SettingsError)
  deriving DecidableEq

def NodeError.message? : NodeError → Option String
  | .protocol error => error.message?.map ("protocol error: " ++ ·)
  | .invalidSettings error => some ("invalid configuration: " ++ error.reason)

def ProtocolError.oversized (length : Nat) : ProtocolError :=
  .transport s!"datagram of {length} bytes exceeds {Layout.maxDatagram}"

theorem Except.mapError_bind_of_ok {E F A B : Type} {wrap : E → F} {attempt : Except E A} {value : A}
    (h : attempt = .ok value) (next : A → Except F B) :
    (attempt.mapError wrap >>= next) = next value := by
  rw [h]
  rfl

theorem Except.of_mapError_bind {E F A B : Type} {wrap : E → F} {attempt : Except E A}
    {next : A → Except F B} {result : B}
    (h : (attempt.mapError wrap >>= next) = .ok result) :
    ∃ value, attempt = .ok value ∧ next value = .ok result := by
  cases attempt with
  | error error => cases h
  | ok value => exact ⟨value, rfl, h⟩

end ReplicaRing
