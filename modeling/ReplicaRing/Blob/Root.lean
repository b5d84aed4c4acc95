import ReplicaRing.Cbor.Record

/-! The record under a blob's own key, which holds its size. -/

namespace ReplicaRing.Blob

structure Root where
  size : UInt64
  deriving DecidableEq

namespace Root

def encode (root : Root) : Bytes :=
  Cbor.writeMap [("size", Cbor.writeUnsigned root.size.toNat)]

def readField (size : Option Nat) (name : Bytes) :
    Option (Bytes → Option (Option Nat × Bytes)) :=
  if name = Bytes.ofText "size" then some (Cbor.readOnce size Cbor.readUnsigned some) else none

/-- Bytes after the record are ignored. -/
def decode? (bytes : Bytes) : Option Root :=
  match Cbor.readRecord readField none bytes with
  | some (some size, _) => some ⟨UInt64.ofNat size⟩
  | _ => none

end Root

end ReplicaRing.Blob
