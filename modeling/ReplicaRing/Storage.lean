import ReplicaRing.Bytes
import ReplicaRing.Table

/-! Where a node keeps its entries. -/

namespace ReplicaRing

inductive StorageError
  | lockPoisoned
  deriving DecidableEq, Repr

def StorageError.message : StorageError → String
  | .lockPoisoned => "store lock poisoned"

/-- What a node needs from its storage.  Storing may fail, and may change the storage in doing so. -/
class Storage (S : Type) where
  get : S → Bytes → Except StorageError (Option Bytes)
  put : S → (key value : Bytes) → Except StorageError Unit × S

abbrev MemoryStore := Table Bytes Bytes

instance : Storage MemoryStore where
  get store key := .ok (store.find? key)
  put store key value := (.ok (), store.insert key value)

structure PoisonedStore where
  entries : MemoryStore := {}

instance : Storage PoisonedStore where
  get _ _ := .error .lockPoisoned
  put store _ _ := (.error .lockPoisoned, store)

end ReplicaRing
