import ReplicaRing.Level
import ReplicaRing.Peer

/-! The ring: tokens in the order of their positions, and the replicas that a position selects. -/

namespace ReplicaRing

def Token.firstRepeat? : List Token → Option Position
  | first :: second :: rest =>
      if first.position = second.position then some first.position
      else firstRepeat? (second :: rest)
  | _ => none

theorem Token.pairwise_lt_of_firstRepeat? {tokens : List Token}
    (hle : tokens.Pairwise fun a b => a.position ≤ b.position)
    (h : firstRepeat? tokens = none) :
    tokens.Pairwise fun a b => a.position < b.position := by
  fun_induction firstRepeat? tokens with
  | case1 first second rest heq => simp at h
  | case2 first second rest hne ih =>
    rw [List.pairwise_cons] at hle
    refine List.pairwise_cons.mpr ⟨fun other hother => ?_, ih hle.2 h⟩
    have hfirst : first.position < second.position := by
      have := hle.1 second (.head _)
      bv_omega
    rcases List.mem_cons.mp hother with rfl | hother
    · exact hfirst
    · have := (List.pairwise_cons.mp hle.2).1 other hother
      bv_omega
  | case3 tokens hshort =>
    match tokens, hshort with
    | [], _ => exact .nil
    | [_], _ => simp
    | a :: b :: r, hshort => exact absurd rfl (hshort a b r)

/-- Tokens with distinct positions, in ascending order. -/
structure Ring where
  tokens : Array Token
  sorted : tokens.toList.Pairwise fun a b => a.position < b.position

namespace Ring

def sortTokens (tokens : List Token) : List Token :=
  tokens.mergeSort fun a b => decide (a.position ≤ b.position)

theorem pairwise_sortTokens (tokens : List Token) :
    (sortTokens tokens).Pairwise fun a b => a.position ≤ b.position := by
  let le (a b : Token) : Bool := decide (a.position ≤ b.position)
  have trans (a b c : Token) (hab : le a b) (hbc : le b c) : le a c := by
    simp only [le, decide_eq_true_eq] at *
    exact BitVec.le_trans hab hbc
  have total (a b : Token) : (le a b || le b a) = true := by
    simp only [le, Bool.or_eq_true, decide_eq_true_eq]
    exact BitVec.le_total _ _
  simpa [sortTokens, le] using List.pairwise_mergeSort trans total tokens

/-- Fails at the smallest position that two tokens share. -/
def ofTokens (tokens : List Token) : Except RingError Ring :=
  let ordered := sortTokens tokens
  match h : Token.firstRepeat? ordered with
  | some position => .error (.collision position)
  | none => .ok ⟨ordered.toArray, Token.pairwise_lt_of_firstRepeat? (pairwise_sortTokens tokens) h⟩

def ofRoster (roster : Roster) : Except RingError Ring := ofTokens roster.tokens

abbrev size (ring : Ring) : Nat := ring.tokens.size

def isEmpty (ring : Ring) : Bool := ring.tokens.isEmpty

def position (ring : Ring) (index : Fin ring.size) : Position := ring.tokens[index].position

def owner (ring : Ring) (index : Fin ring.size) : Peer := ring.tokens[index].owner

/-- The lower of two neighbours, given indices `low` and `high` whose positions enclose the key. -/
def narrow (ring : Ring) (key : Position) (low high : Fin ring.size) :
    Except RingError (Fin ring.size) :=
  if h : 1 < high.val - low.val then
    let middle : Fin ring.size := ⟨low.val + (high.val - low.val) / 2, by omega⟩
    match Position.inOrder (ring.position middle) key (ring.position high) with
    | .error e => .error e
    | .ok true => narrow ring key middle high
    | .ok false => narrow ring key low middle
  else .ok low
termination_by high.val - low.val
decreasing_by all_goals grind

/-- The index of the token that a key belongs to: the one at the key, or the one before it, which for
a key below every token is the last. -/
def locate (ring : Ring) (key : Position) : Except RingError (Fin ring.size) :=
  if h : 0 < ring.size then
    let first : Fin ring.size := ⟨0, h⟩
    let last : Fin ring.size := ⟨ring.size - 1, by omega⟩
    if ring.size = 1 then .ok first
    else
      match ring.tokens.findFinIdx? fun token => token.position == key with
      | some index => .ok index
      | none =>
        match Position.inOrder (ring.position last) key (ring.position first) with
        | .error e => .error e
        | .ok true => .ok last
        | .ok false => narrow ring key first last
  else .error .empty

def primary (ring : Ring) (key : Position) : Except RingError Peer :=
  (ring.locate key).map ring.owner

/-- The index met after some steps backward from `start`, going from the first token on to the last. -/
def back (ring : Ring) (start : Fin ring.size) (steps : Nat) : Fin ring.size :=
  ⟨(start.val + ring.size - steps) % ring.size, Nat.mod_lt _ (Nat.zero_lt_of_lt start.isLt)⟩

/-- Extends the chosen peers with the owners met after the given numbers of steps, leaving out those
already chosen, until there are `copies` of them. -/
def choose (ring : Ring) (start : Fin ring.size) (copies : Nat) :
    (steps : List Nat) → (chosen : List Peer) → List Peer
  | [], chosen => chosen
  | step :: rest, chosen =>
      if copies ≤ chosen.length then chosen
      else
        let peer := ring.owner (ring.back start step)
        if chosen.any fun other => other.name == peer.name then choose ring start copies rest chosen
        else choose ring start copies rest (chosen ++ [peer])

/-- The most bytes that a list may take. -/
def maxBytes : Nat := 0x7fffffffffffffff

/-- A list takes eight bytes for each peer. -/
def hasRoom (copies : Nat) : Bool := decide (8 * copies ≤ maxBytes)

/-- At most `copies` peers that are responsible for a key, the primary first: the distinct owners met
in one lap backward. -/
def select (ring : Ring) (key : Position) (copies : Nat) : Except RingError (List Peer) :=
  (ring.locate key).map fun start => ring.choose start copies (List.range ring.size) []

/-- The selection together with the room for it.  Room for all `copies` is asked for before the first
peer is chosen, and where no list could have it the program breaks off (`none`), however few peers there
are.  Room that a list could have is taken to be there. -/
def replicas (ring : Ring) (key : Position) (copies : Nat) :
    Option (Except RingError (List Peer)) :=
  match ring.locate key with
  | .error error => some (.error error)
  | .ok start =>
      if hasRoom copies then some (.ok (ring.choose start copies (List.range ring.size) []))
      else none

end Ring

/-- The replicas of a key at a level, for one snapshot of the cluster.  A level that is fitted asks for
no more of them than there are peers, and a list has room for those. -/
def Roster.replicas (roster : Roster) (key : Position) (level : Level) :
    Except RingError (List Peer) := do
  let ring ← Ring.ofRoster roster
  ring.select key ((level.fitted roster.size).copies roster.size)

end ReplicaRing
