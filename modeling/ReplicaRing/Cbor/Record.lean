import ReplicaRing.Cbor.Item

/-! Records: maps whose keys are field names. -/

namespace ReplicaRing.Cbor

/-- Longer field names are not read. -/
def maxName : Nat := 4096

def readName (bytes : Bytes) : Option (Bytes × Bytes) := do
  let (header, rest) ← readUntagged bytes.length bytes
  match header with
  | .bytes (some length) =>
      if length ≤ maxName then readString false (some length) rest else none
  | .text (some length) =>
      if length ≤ maxName then readString true (some length) rest else none
  | _ => none

/-- The fields of a record, `left` of them or up to a stop.  `field` reads the value of a named field
into what has been gathered so far; it gives nothing for a name it does not know, and the value of
such a field is skipped. -/
def readFields {Fields : Type} (field : Fields → Bytes → Option (Bytes → Option (Fields × Bytes))) :
    (fuel : Nat) → (left : Option Nat) → Fields → Bytes → Option (Fields × Bytes)
  | _, some 0, fields, bytes => some (fields, bytes)
  | 0, _, _, _ => none
  | fuel + 1, left, fields, bytes =>
      match left, Header.read bytes with
      | none, some (.stop, rest) => some (fields, rest)
      | _, _ => do
          let (name, rest) ← readName bytes
          let (fields, rest) ← match field fields name with
            | some readValue => readValue rest
            | none => (skip rest).map fun rest => (fields, rest)
          readFields field fuel (left.map (· - 1)) fields rest

def readRecord {Fields : Type} (field : Fields → Bytes → Option (Bytes → Option (Fields × Bytes)))
    (blank : Fields) (bytes : Bytes) : Option (Fields × Bytes) := do
  let (header, rest) ← readUntagged bytes.length bytes
  match header with
  | .map length => readFields field rest.length length blank rest
  | _ => none

def readOnce {Value Fields : Type} (current : Option Value)
    (read : Bytes → Option (Value × Bytes)) (store : Value → Fields) (bytes : Bytes) :
    Option (Fields × Bytes) :=
  if current.isSome then none else (read bytes).map fun (value, rest) => (store value, rest)

end ReplicaRing.Cbor
