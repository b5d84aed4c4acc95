import ReplicaRing.Address
import ReplicaRing.Bytes

/-! What carries datagrams between nodes. -/

namespace ReplicaRing.Simulation

inductive Arrival
  | handed (node : Nat) (datagram : Bytes)
  | waiting (node : Nat)

inductive Fate
  /-- The datagram is taken, and leads to arrivals after some milliseconds. -/
  | taken (arrivals : List (Nat × Arrival))
  | refused (after : Nat)
  | stuck

class Medium (M : Type) where
  send : M → (now : Nat) → (source target : Address) → (datagram : Bytes) → Fate × M
  receive : M → (node : Nat) → Option Bytes × M

end ReplicaRing.Simulation
