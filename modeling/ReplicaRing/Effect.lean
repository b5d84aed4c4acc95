import ReplicaRing.Message
import ReplicaRing.Peer

/-! What operations ask of their node. -/

namespace ReplicaRing

inductive Effect
  | route (id : UInt64)
  | unroute (id : UInt64)
  /-- Send a message on a task of its own, and report it if that fails. -/
  | send (peer : Peer) (message : Message)
  /-- Give up the sends that are not finished. -/
  | abandon
  deriving DecidableEq

end ReplicaRing
