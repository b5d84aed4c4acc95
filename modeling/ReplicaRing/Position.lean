import ReplicaRing.Blake3
import ReplicaRing.Text.Hex

/-! Positions on a ring of `2 ^ 128` places, and the order in which a walk around it meets them. -/

namespace ReplicaRing

abbrev Position := BitVec 128

inductive RingError
  /-- Two things share this position, so they have no order on the ring. -/
  | collision (position : Position)
  | empty
  deriving DecidableEq, Repr

namespace Position

def ofBytes (bytes : Bytes) : Position := BitVec.ofNat 128 bytes.toNat

def toBytes (position : Position) : Bytes := Bytes.bigEndian 16 position.toNat

/-- The place of some bytes: the first half of their digest. -/
def hash (bytes : Bytes) : Position := ofBytes ((Blake3.digest bytes).take 16)

def hex (position : Position) : String := Hex.encode position.toBytes

def brief (position : Position) : String :=
  "RingHash(" ++ Hex.encode (position.toBytes.take 8) ++ ")"

/-- Going upward from `a`, and from the largest position on to zero, `b` is met before `c`. -/
def inOrder (a b c : Position) : Except RingError Bool :=
  if a = b ∨ a = c then .error (.collision a)
  else if b = c then .error (.collision b)
  else
    let ascents := (decide (a < b)).toNat + (decide (b < c)).toNat + (decide (c < a)).toNat
    .ok (ascents == 2)

end Position

def RingError.message : RingError → String
  | .collision position => "hash collision on the ring at " ++ position.hex
  | .empty => "ring has no partitions"

end ReplicaRing
