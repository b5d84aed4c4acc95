/-! How many replicas a store or a load has to reach. -/

namespace ReplicaRing

inductive Level
  | zero
  /-- The primary and one more. -/
  | one
  | two
  | three
  | quorum
  | all
  deriving DecidableEq, Repr

namespace Level

def code : Level → UInt8
  | zero => 0
  | one => 1
  | two => 2
  | three => 3
  | quorum => 0x7F
  | all => 0xFF

def ofCode? (code : UInt8) : Option Level :=
  [zero, one, two, three, quorum, all].find? fun level => level.code == code

instance : Ord Level := ⟨fun a b => compare a.code b.code⟩

instance : LE Level := ⟨fun a b => a.code ≤ b.code⟩

instance (a b : Level) : Decidable (a ≤ b) := inferInstanceAs (Decidable (a.code ≤ b.code))

instance : Min Level := ⟨fun a b => if a ≤ b then a else b⟩

instance : Inhabited Level := ⟨one⟩

def copies (level : Level) (size : Nat) : Nat :=
  match level with
  | zero => 1
  | one => 2
  | two => 3
  | three => 4
  | quorum => size / 2 + 1
  | all => size

def highest (size : Nat) : Level :=
  match size with
  | 0 | 1 => zero
  | 2 => one
  | 3 => two
  | _ => three

/-- The level lowered to what a cluster of `size` peers can honour.  Quorum and all follow the size
of the cluster by themselves. -/
def fitted (level : Level) (size : Nat) : Level :=
  match level with
  | quorum | all => level
  | _ => min level (highest size)

def name : Level → String
  | zero => "zero"
  | one => "one"
  | two => "two"
  | three => "three"
  | quorum => "quorum"
  | all => "all"

/-- Reads a name in any mixture of ASCII cases; a fixed level may also be its digit. -/
def ofName? (text : String) : Option Level :=
  match text.map Char.toLower with
  | "zero" | "0" => some zero
  | "one" | "1" => some one
  | "two" | "2" => some two
  | "three" | "3" => some three
  | "quorum" => some quorum
  | "all" => some all
  | _ => none

end Level

structure UnknownLevel where
  text : String
  deriving DecidableEq, Repr

def UnknownLevel.message (unknown : UnknownLevel) : String :=
  "unknown consistency level: " ++ unknown.text

def Level.parse (text : String) : Except UnknownLevel Level :=
  match Level.ofName? text with
  | some level => .ok level
  | none => .error ⟨text⟩

end ReplicaRing
