/-! Byte strings, and numbers written in them with the most significant byte first. -/

namespace ReplicaRing

abbrev Bytes := List UInt8

namespace Bytes

def ofText (text : String) : Bytes := text.toByteArray.data.toList

def IsText (bytes : Bytes) : Prop := (ByteArray.mk bytes.toArray).IsValidUTF8

instance (bytes : Bytes) : Decidable bytes.IsText :=
  inferInstanceAs (Decidable (ByteArray.mk bytes.toArray).IsValidUTF8)

def toText (bytes : Bytes) (h : bytes.IsText) : String := String.ofByteArray _ h

def toText? (bytes : Bytes) : Option String :=
  if h : bytes.IsText then some (bytes.toText h) else none

/-- The last `width` base-256 digits of `value`. -/
def bigEndian : (width value : Nat) → Bytes
  | 0, _ => []
  | width + 1, value => bigEndian width (value / 256) ++ [UInt8.ofNat value]

def toNat (bytes : Bytes) : Nat :=
  bytes.foldl (fun value byte => value * 256 + byte.toNat) 0

/-- The bytes cut into runs of `size`, the last one perhaps shorter; no bytes are one empty run. -/
def runs (size : Nat) (positive : 0 < size) (bytes : Bytes) : List Bytes :=
  if _h : bytes.length ≤ size then [bytes]
  else bytes.take size :: runs size positive (bytes.drop size)
termination_by bytes.length
decreasing_by simp; omega

@[simp] theorem length_bigEndian (width value : Nat) :
    (bigEndian width value).length = width := by
  induction width generalizing value with
  | zero => rfl
  | succ width ih => simp [bigEndian, ih]

theorem isText_ofText (text : String) : (ofText text).IsText := by
  simp only [IsText, ofText, Array.toArray_toList]
  exact text.isValidUTF8

@[simp] theorem toText_ofText (text : String) (h : (ofText text).IsText) :
    (ofText text).toText h = text := by
  simp [toText, ofText]

@[simp] theorem toText?_ofText (text : String) : (ofText text).toText? = some text := by
  simp [toText?, isText_ofText]

@[simp] theorem ofText_toText (bytes : Bytes) (h : bytes.IsText) :
    ofText (bytes.toText h) = bytes := by
  simp [toText, ofText]

end Bytes

end ReplicaRing
