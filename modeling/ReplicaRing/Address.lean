import ReplicaRing.Text.Hex

/-! Internet addresses with a port, read and written in their usual text forms. -/

namespace ReplicaRing

/-- An internet address: four bytes, or eight groups of 16 bits with the number of a local zone. -/
inductive Ip
  | v4 (bytes : Vector UInt8 4)
  | v6 (groups : Vector UInt16 8) (zone : UInt32)
  deriving DecidableEq

structure Address where
  ip : Ip
  port : UInt16
  deriving DecidableEq

namespace Ip

def localhost : Ip := .v4 #v[127, 0, 0, 1]

def dotted (bytes : List UInt8) : String :=
  ".".intercalate (bytes.map fun byte => toString byte.toNat)

def groupText (groups : List UInt16) : String :=
  ":".intercalate (groups.map fun group => String.ofList (Hex.digits group.toNat))

def leadingZeros (groups : List UInt16) : Nat := (groups.takeWhile (· == 0)).length

/-- The first of the longest runs of zeros: where it starts and how long it is. -/
def longestZeros (groups : List UInt16) : Nat × Nat :=
  (List.range groups.length).foldl (fun best start =>
    let length := leadingZeros (groups.drop start)
    if best.2 < length then (start, length) else best) (0, 0)

/-- A run of two or more zeros is written as an empty group; an embedded four-byte address is written
with dots. -/
def v6Text (groups : List UInt16) : String :=
  match groups with
  | [0, 0, 0, 0, 0, 0xFFFF, high, low] =>
      "::ffff:" ++ dotted
        [(high >>> 8).toUInt8, high.toUInt8, (low >>> 8).toUInt8, low.toUInt8]
  | _ =>
      let (start, length) := longestZeros groups
      if length ≤ 1 then groupText groups
      else groupText (groups.take start) ++ "::" ++ groupText (groups.drop (start + length))

end Ip

namespace Address

def localhost (port : UInt16) : Address := ⟨.localhost, port⟩

def text (address : Address) : String :=
  let port := toString address.port.toNat
  match address.ip with
  | .v4 bytes => Ip.dotted bytes.toList ++ ":" ++ port
  | .v6 groups zone =>
      let zone := if zone = 0 then "" else "%" ++ toString zone.toNat
      "[" ++ Ip.v6Text groups.toList ++ zone ++ "]:" ++ port

def decimal? (bound : Nat) (cs : List Char) : Option Nat :=
  if cs.isEmpty || cs.any (fun c => !c.isDigit) then none
  else
    let value := cs.foldl (fun value c => value * 10 + (c.toNat - 48)) 0
    if value < bound then some value else none

def byte? (cs : List Char) : Option UInt8 :=
  if cs.length ≤ 3 && (cs.length == 1 || cs.head? != some '0') then
    (decimal? 256 cs).map UInt8.ofNat
  else none

def group? (cs : List Char) : Option UInt16 :=
  if cs.isEmpty || 4 < cs.length then none
  else cs.foldlM (fun value c => (Hex.value? c).map fun digit => value * 16 + UInt16.ofNat digit) 0

def parts (mark : Char) : List Char → List (List Char)
  | [] => [[]]
  | c :: rest =>
      if c = mark then [] :: parts mark rest
      else match parts mark rest with
        | [] => [[c]]
        | first :: others => (c :: first) :: others

def v4? (cs : List Char) : Option (List UInt8) :=
  let bytes := parts '.' cs
  if bytes.length = 4 then bytes.mapM byte? else none

def groups? (cs : List Char) : Option (List UInt16) :=
  if cs.isEmpty then some []
  else
    let texts := parts ':' cs
    match v4? (texts.getLastD []) with
    | some [a, b, c, d] => do
        let front ← texts.dropLast.mapM group?
        return front ++ [a.toUInt16 * 256 + b.toUInt16, c.toUInt16 * 256 + d.toUInt16]
    | _ => texts.mapM group?

def atGap? : List Char → Option (List Char × List Char)
  | ':' :: ':' :: rest => some ([], rest)
  | c :: rest => (atGap? rest).map fun (front, back) => (c :: front, back)
  | [] => none

/-- A double colon stands for at least one zero group; a four-byte address may only come last. -/
def allGroups? (cs : List Char) : Option (List UInt16) :=
  match atGap? cs with
  | none => groups? cs
  | some (front, back) => do
      let before ← if front.contains '.' then none else groups? front
      let after ← groups? back
      if before.length + after.length < 8 then
        return before ++ List.replicate (8 - before.length - after.length) 0 ++ after
      else none

def v6? (cs : List Char) : Option (Vector UInt16 8) :=
  match allGroups? cs with
  | some groups => if h : groups.toArray.size = 8 then some ⟨groups.toArray, h⟩ else none
  | none => none

def port? (cs : List Char) : Option UInt16 := (decimal? 65536 cs).map UInt16.ofNat

def parse? (text : String) : Option Address :=
  match text.toList with
  | '[' :: rest => do
      let (host, after) := rest.span (· != ']')
      match after with
      | ']' :: ':' :: port =>
          let (ip, zone) := host.span (· != '%')
          let zone ← match zone with
            | [] => some 0
            | _ :: digits => (decimal? 4294967296 digits).map UInt32.ofNat
          return ⟨.v6 (← v6? ip) zone, ← port? port⟩
      | _ => none
  | cs => do
      let (host, port) := cs.span (· != ':')
      match ← v4? host, port with
      | [a, b, c, d], _ :: port => return ⟨.v4 #v[a, b, c, d], ← port? port⟩
      | _, _ => none

end Address

end ReplicaRing
