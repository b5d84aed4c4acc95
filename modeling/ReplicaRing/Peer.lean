import ReplicaRing.Address
import ReplicaRing.Position

/-! The peers of a cluster, and the tokens that mark their places on the ring. -/

namespace ReplicaRing

structure Peer where
  name : String
  address : Address
  tokens : UInt32
  deriving DecidableEq

def Peer.defaultTokens : UInt32 := 127

def Peer.display (peer : Peer) : String := peer.name ++ "@" ++ peer.address.text

structure Token where
  owner : Peer
  index : UInt32
  position : Position
  deriving DecidableEq

def Token.label (name : String) (index : UInt32) : Bytes :=
  Bytes.ofText name ++ Bytes.bigEndian 4 index.toNat

def Token.place (name : String) (index : UInt32) : Position :=
  Position.hash (Token.label name index)

/-- The token of a peer with a given index, where its label puts it. -/
def Token.mint (owner : Peer) (index : UInt32) : Token :=
  ⟨owner, index, Token.place owner.name index⟩

def Peer.mintTokens (peer : Peer) : List Token :=
  (List.range peer.tokens.toNat).map fun index => Token.mint peer (UInt32.ofNat index)

/-- The known peers in the order of their names, which are distinct. -/
structure Roster where
  peers : List Peer
  sorted : peers.Pairwise fun a b => a.name < b.name

namespace Roster

def empty : Roster := ⟨[], .nil⟩

instance : EmptyCollection Roster := ⟨empty⟩

instance : Inhabited Roster := ⟨empty⟩

def size (roster : Roster) : Nat := roster.peers.length

def isEmpty (roster : Roster) : Bool := roster.peers.isEmpty

def find? (roster : Roster) (name : String) : Option Peer :=
  roster.peers.find? fun peer => peer.name == name

def contains (roster : Roster) (name : String) : Bool := (roster.find? name).isSome

def tokens (roster : Roster) : List Token := roster.peers.flatMap Peer.mintTokens

/-- Puts a peer at its place among peers sorted by name, instead of one of the same name. -/
def place (peer : Peer) : List Peer → List Peer
  | [] => [peer]
  | other :: rest =>
      if peer.name < other.name then peer :: other :: rest
      else if peer.name = other.name then peer :: rest
      else other :: place peer rest

theorem mem_place {peer other : Peer} {peers : List Peer} (h : other ∈ place peer peers) :
    other = peer ∨ other ∈ peers := by
  induction peers with
  | nil => simpa [place] using h
  | cons first rest ih =>
    unfold place at h
    split at h
    · simpa using h
    · split at h
      · rcases List.mem_cons.mp h with h | h
        · exact .inl h
        · exact .inr (.tail _ h)
      · rcases List.mem_cons.mp h with h | h
        · exact .inr (h ▸ .head _)
        · exact (ih h).imp_right (.tail _)

theorem sorted_place (peer : Peer) {peers : List Peer}
    (h : peers.Pairwise fun a b => a.name < b.name) :
    (place peer peers).Pairwise fun a b => a.name < b.name := by
  induction peers with
  | nil => simp [place]
  | cons first rest ih =>
    rw [List.pairwise_cons] at h
    unfold place
    split
    · rename_i hlt
      refine List.pairwise_cons.mpr ⟨fun other hother => ?_, List.pairwise_cons.mpr h⟩
      rcases List.mem_cons.mp hother with rfl | hother
      · exact hlt
      · exact String.lt_trans hlt (h.1 other hother)
    · split
      · rename_i _ heq
        exact List.pairwise_cons.mpr ⟨fun other hother => heq ▸ h.1 other hother, h.2⟩
      · rename_i hnlt hne
        refine List.pairwise_cons.mpr ⟨fun other hother => ?_, ih h.2⟩
        rcases mem_place hother with rfl | hother
        · exact Std.lt_of_le_of_ne (String.not_lt.mp hnlt) (Ne.symm hne)
        · exact h.1 other hother

def insert (roster : Roster) (peer : Peer) : Roster :=
  ⟨place peer roster.peers, sorted_place peer roster.sorted⟩

/-- Of several peers with one name the last is kept. -/
def ofList (peers : List Peer) : Roster := peers.foldl insert empty

end Roster

end ReplicaRing
