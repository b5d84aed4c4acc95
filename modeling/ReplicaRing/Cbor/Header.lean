import ReplicaRing.Bytes

/-! The header that starts every CBOR item: its kind and a number, most often a length. -/

namespace ReplicaRing.Cbor

inductive Header
  | unsigned (value : Nat)
  /-- Stands for `-1 - value`. -/
  | negative (value : Nat)
  /-- A missing length means that the parts go on up to a stop; so also for text, array and map. -/
  | bytes (length : Option Nat)
  | text (length : Option Nat)
  | array (length : Option Nat)
  | map (length : Option Nat)
  | tag (number : Nat)
  | simple (number : Nat)
  | float
  | stop
  deriving DecidableEq, Repr

namespace Header

/-- The number that the low five bits of a header's first byte announce, with the bytes after it.  The
inner option is empty where no number is given. -/
def readArgument (info : Nat) (rest : Bytes) : Option (Option Nat × Bytes) :=
  if info < 24 then some (some info, rest)
  else if info < 28 then
    let width := 1 <<< (info - 24)
    let field : Bytes := rest.take width
    if field.length < width then none else some (some field.toNat, rest.drop width)
  else if info = 31 then some (none, rest)
  else none

def of? (first : UInt8) (argument : Option Nat) : Option Header :=
  match first.toNat / 32, argument with
  | 0, some value => some (.unsigned value)
  | 1, some value => some (.negative value)
  | 2, length => some (.bytes length)
  | 3, length => some (.text length)
  | 4, length => some (.array length)
  | 5, length => some (.map length)
  | 6, some number => some (.tag number)
  | 7, some number => some (if first.toNat % 32 < 25 then .simple number else .float)
  | 7, none => some .stop
  | _, _ => none

def read : Bytes → Option (Header × Bytes)
  | [] => none
  | first :: rest => do
      let (argument, rest) ← readArgument (first.toNat % 32) rest
      let header ← of? first argument
      return (header, rest)

end Header

def writeHeader (major : UInt8) (value : Nat) : Bytes :=
  let first (info : UInt8) : UInt8 := major * 32 + info
  if value < 24 then [first (UInt8.ofNat value)]
  else if value < 256 then first 24 :: Bytes.bigEndian 1 value
  else if value < 65536 then first 25 :: Bytes.bigEndian 2 value
  else if value < 4294967296 then first 26 :: Bytes.bigEndian 4 value
  else first 27 :: Bytes.bigEndian 8 value

def writeUnsigned (value : Nat) : Bytes := writeHeader 0 value

def writeBytes (bytes : Bytes) : Bytes := writeHeader 2 bytes.length ++ bytes

def writeText (text : String) : Bytes :=
  writeHeader 3 (Bytes.ofText text).length ++ Bytes.ofText text

def writeMap (fields : List (String × Bytes)) : Bytes :=
  writeHeader 5 fields.length ++ fields.flatMap fun (name, value) => writeText name ++ value

end ReplicaRing.Cbor
