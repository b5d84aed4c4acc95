import ReplicaRing.Cbor.Record
import ReplicaRing.Message.Layout

/-! A key with its value, as stores and loads carry it. -/

namespace ReplicaRing

/-- A request for a key carries no value. -/
structure Entry where
  key : Bytes
  value : Bytes := []
  deriving DecidableEq

inductive EnvelopeError
  | malformed
  | tooLarge (length : Nat)
  deriving DecidableEq, Repr

def EnvelopeError.message? : EnvelopeError → Option String
  | .malformed => none
  | .tooLarge length =>
      some s!"envelope too large: {length} bytes, max {Layout.maxPayload}"

namespace Entry

def written (entry : Entry) : Bytes :=
  Cbor.writeMap [("key", Cbor.writeBytes entry.key), ("value", Cbor.writeBytes entry.value)]

def encode (entry : Entry) : Except EnvelopeError Bytes :=
  let payload := entry.written
  if Layout.maxPayload < payload.length then .error (.tooLarge payload.length) else .ok payload

structure Fields where
  key : Option Bytes := none
  value : Option Bytes := none

def readField (fields : Fields) (name : Bytes) : Option (Bytes → Option (Fields × Bytes)) :=
  if name = Bytes.ofText "key" then
    some (Cbor.readOnce fields.key Cbor.readBytes fun key => { fields with key := some key })
  else if name = Bytes.ofText "value" then
    some (Cbor.readOnce fields.value Cbor.readBytes fun value => { fields with value := some value })
  else none

/-- Bytes after the record are ignored. -/
def decode (payload : Bytes) : Except EnvelopeError Entry :=
  match Cbor.readRecord readField {} payload with
  | some (⟨some key, some value⟩, _) => .ok { key, value }
  | _ => .error .malformed

end Entry

end ReplicaRing
