import ReplicaRing.Bytes

/-! Where a byte string stops being UTF-8. -/

namespace ReplicaRing.Utf8

/-- The first `validLength` bytes are UTF-8.  What follows is either an ill-formed sequence, of which
`badLength` bytes could have begun a character, or a character cut off by the end of the bytes. -/
structure Fault where
  validLength : Nat
  badLength : Option Nat
  deriving DecidableEq, Repr

def Fault.message (fault : Fault) : String :=
  match fault.badLength with
  | some length =>
      s!"invalid utf-8 sequence of {length} bytes from index {fault.validLength}"
  | none => s!"incomplete utf-8 byte sequence from index {fault.validLength}"

/-- The values that the bytes after a given first byte may have, or nothing if no character starts
with it. -/
def tails (first : UInt8) : Option (List (UInt8 × UInt8)) :=
  if first < 0x80 then some []
  else if first < 0xC2 then none
  else if first < 0xE0 then some [(0x80, 0xBF)]
  else if first = 0xE0 then some [(0xA0, 0xBF), (0x80, 0xBF)]
  else if first = 0xED then some [(0x80, 0x9F), (0x80, 0xBF)]
  else if first < 0xF0 then some [(0x80, 0xBF), (0x80, 0xBF)]
  else if first = 0xF0 then some [(0x90, 0xBF), (0x80, 0xBF), (0x80, 0xBF)]
  else if first < 0xF4 then some [(0x80, 0xBF), (0x80, 0xBF), (0x80, 0xBF)]
  else if first = 0xF4 then some [(0x80, 0x8F), (0x80, 0xBF), (0x80, 0xBF)]
  else none

/-- The fault of bytes that stand after `valid` correct ones.  `start` counts those before the
current character and `allowed` is what its remaining bytes may be. -/
def faultFrom : (start valid : Nat) → (allowed : List (UInt8 × UInt8)) → Bytes → Option Fault
  | _, _, [], [] => none
  | start, _, _ :: _, [] => some ⟨start, none⟩
  | _, valid, [], byte :: rest =>
      match tails byte with
      | none => some ⟨valid, some 1⟩
      | some allowed => faultFrom valid (valid + 1) allowed rest
  | start, valid, (low, high) :: allowed, byte :: rest =>
      if low ≤ byte ∧ byte ≤ high then faultFrom start (valid + 1) allowed rest
      else some ⟨start, some (valid - start)⟩

def fault? (bytes : Bytes) : Option Fault := faultFrom 0 0 [] bytes

end ReplicaRing.Utf8
