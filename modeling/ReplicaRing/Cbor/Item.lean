import ReplicaRing.Cbor.Header

/-! Reading single CBOR items: byte strings, numbers, and items whose content does not matter. -/

namespace ReplicaRing.Cbor

def readExactly (count : Nat) (bytes : Bytes) : Option (Bytes × Bytes) :=
  let field : Bytes := bytes.take count
  if field.length < count then none else some (field, bytes.drop count)

def Header.stringLength? (isText : Bool) : Header → Option (Option Nat)
  | .bytes length => if isText then none else some length
  | .text length => if isText then some length else none
  | _ => none

/-- The chunks of a string without a length, up to the stop that belongs to it.  A chunk may itself be
a string without a length: `nesting` counts the stops to come. -/
def readChunks (isText : Bool) : (fuel nesting : Nat) → Bytes → Option (List Bytes × Bytes)
  | 0, _, _ => none
  | fuel + 1, nesting, bytes => do
      let (header, rest) ← Header.read bytes
      if header = .stop then
        if nesting = 0 then return ([], rest) else readChunks isText fuel (nesting - 1) rest
      else
        match ← header.stringLength? isText with
        | none => readChunks isText fuel (nesting + 1) rest
        | some length =>
            let (chunk, rest) ← readExactly length rest
            if isText && !decide chunk.IsText then none
            else
              let (chunks, rest) ← readChunks isText fuel nesting rest
              return (chunk :: chunks, rest)

/-- The content of a string after its header.  Every chunk of a text has to be text by itself. -/
def readString (isText : Bool) (length : Option Nat) (bytes : Bytes) : Option (Bytes × Bytes) :=
  match length with
  | some length => do
      let (content, rest) ← readExactly length bytes
      if isText && !decide content.IsText then none else return (content, rest)
  | none => do
      let (chunks, rest) ← readChunks isText bytes.length 0 bytes
      return (chunks.flatten, rest)

def readUntagged : (fuel : Nat) → Bytes → Option (Header × Bytes)
  | 0, _ => none
  | fuel + 1, bytes => do
      let (header, rest) ← Header.read bytes
      match header with
      | .tag _ => readUntagged fuel rest
      | _ => return (header, rest)

/-- A number of 64 bits: an unsigned item, or a byte string under tag two.  Other tags are skipped,
except three, which makes a number negative. -/
def readUnsignedFrom : (fuel : Nat) → Bytes → Option (Nat × Bytes)
  | 0, _ => none
  | fuel + 1, bytes => do
      let (header, rest) ← Header.read bytes
      match header with
      | .unsigned value => return (value, rest)
      | .tag 2 =>
          let (header, rest) ← Header.read rest
          let length ← header.stringLength? false
          let (digits, rest) ← readString false length rest
          if digits.toNat < UInt64.size then return (digits.toNat, rest) else none
      | .tag 3 => none
      | .tag _ => readUnsignedFrom fuel rest
      | _ => none

def readUnsigned (bytes : Bytes) : Option (Nat × Bytes) := readUnsignedFrom bytes.length bytes

def readByteElements : (fuel : Nat) → (left : Option Nat) → Bytes → Option (Bytes × Bytes)
  | _, some 0, bytes => some ([], bytes)
  | 0, _, _ => none
  | fuel + 1, left, bytes =>
      match left, Header.read bytes with
      | none, some (.stop, rest) => some ([], rest)
      | _, _ => do
          let (value, rest) ← readUnsignedFrom (fuel + 1) bytes
          if value < 256 then
            let (values, rest) ← readByteElements fuel (left.map (· - 1)) rest
            return (UInt8.ofNat value :: values, rest)
          else none

def readBytes (bytes : Bytes) : Option (Bytes × Bytes) := do
  let (header, rest) ← readUntagged bytes.length bytes
  match header with
  | .bytes length => readString false length rest
  | .array length => readByteElements rest.length length rest
  | _ => none

/-- A place inside an item that is being skipped. -/
inductive Frame
  | one
  | counted (left : Nat)
  | openArray
  /-- Keys and values are to come up to a stop; `half` holds between a key and its value. -/
  | openMap (half : Bool)
  deriving DecidableEq

def Frame.isContainer (frame : Frame) : Bool := frame != .one

def Frame.finish : List Frame → List Frame
  | [] => []
  | .one :: outer => finish outer
  | .counted left :: outer => if left ≤ 1 then finish outer else .counted (left - 1) :: outer
  | .openArray :: outer => .openArray :: outer
  | .openMap half :: outer => .openMap (!half) :: outer

/-- Arrays and maps in each other, the outermost one included. -/
def maxDepth : Nat := 256

def Frame.enter (frame : Frame) (length : Option Nat) (frames : List Frame) :
    Option (List Frame) :=
  if maxDepth ≤ frames.countP Frame.isContainer + 1 then none
  else
    match length with
    | none => some (frame :: frames)
    | some 0 => some (finish frames)
    | some count => some (.counted count :: frames)

def skipFrames : (fuel : Nat) → List Frame → Bytes → Option Bytes
  | _, [], bytes => some bytes
  | 0, _ :: _, _ => none
  | fuel + 1, frame :: outer, bytes => do
      let (header, rest) ← Header.read bytes
      let ended := Frame.finish (frame :: outer)
      match header with
      | .unsigned _ | .negative _ | .float => skipFrames fuel ended rest
      | .simple number =>
          if 20 ≤ number ∧ number ≤ 23 then skipFrames fuel ended rest else none
      | .bytes length =>
          let (_, rest) ← readString false length rest
          skipFrames fuel ended rest
      | .text length =>
          let (_, rest) ← readString true length rest
          skipFrames fuel ended rest
      | .tag _ => skipFrames fuel (.one :: frame :: outer) rest
      | .array length =>
          skipFrames fuel (← Frame.openArray.enter length (frame :: outer)) rest
      | .map length =>
          skipFrames fuel
            (← (Frame.openMap false).enter (length.map (2 * ·)) (frame :: outer)) rest
      | .stop =>
          if frame = .openArray ∨ frame = .openMap false then
            skipFrames fuel (Frame.finish outer) rest
          else none

/-- Reads over one item of any kind.  Of the simple values only false, true, null and undefined are
known. -/
def skip (bytes : Bytes) : Option Bytes := skipFrames bytes.length [.one] bytes

end ReplicaRing.Cbor
