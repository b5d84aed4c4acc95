import ReplicaRing.Peer

/-! The current roster of a node, and notices of its changes. -/

namespace ReplicaRing

inductive Notice
  | joined (peer : Peer)
  | left (peer : Peer)
  deriving DecidableEq

/-- The newest notices, oldest first, and how many there have been in all. -/
structure Feed where
  sent : Nat := 0
  kept : List Notice := []

namespace Feed

def capacity : Nat := 64

def publish (feed : Feed) (notices : List Notice) : Feed :=
  let all := feed.kept ++ notices
  ⟨feed.sent + notices.length, all.drop (all.length - capacity)⟩

end Feed

structure Membership where
  roster : Roster := {}
  feed : Feed := {}

/-- How many notices a subscriber has already seen or missed. -/
abbrev Subscription := Nat

structure Delivery where
  lost : Nat
  notices : List Notice
  deriving DecidableEq

def Roster.without (roster other : Roster) : List Peer :=
  roster.peers.filter fun peer => other.find? peer.name ≠ some peer

namespace Membership

def size (membership : Membership) : Nat := membership.roster.size

def isEmpty (membership : Membership) : Bool := membership.roster.isEmpty

def resolve (membership : Membership) (name : String) : Option Peer :=
  membership.roster.find? name

/-- What changes from one roster to the next.  A peer that has a new address or a new number of
tokens leaves and joins. -/
def changes (old new : Roster) : List Notice :=
  (old.without new).map .left ++ (new.without old).map .joined

def replace (membership : Membership) (roster : Roster) : Membership :=
  ⟨roster, membership.feed.publish (changes membership.roster roster)⟩

def subscribe (membership : Membership) : Subscription := membership.feed.sent

/-- What has been announced to a subscriber since it last looked. -/
def drain (membership : Membership) (subscription : Subscription) : Delivery × Subscription :=
  let feed := membership.feed
  let waiting := feed.sent - subscription
  let seen := feed.kept.length - waiting
  (⟨waiting - feed.kept.length, feed.kept.drop seen⟩, feed.sent)

end Membership

end ReplicaRing
