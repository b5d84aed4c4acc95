import Mathlib.Data.List.Perm.Basic
import ReplicaRing.Membership
import ReplicaRing.Proofs.Ring.Leaving

/-! What a replacement announces, and that heeding it turns the old roster into the new one. -/

namespace ReplicaRing

namespace Roster

variable {roster other : Roster} {name : String} {peer : Peer}

private theorem find?_eq_some_iff :
    roster.find? name = some peer ↔ peer ∈ roster.peers ∧ peer.name = name := by
  constructor
  · intro h
    exact ⟨List.mem_of_find?_eq_some h, by simpa using List.find?_some h⟩
  · rintro ⟨hmem, rfl⟩
    cases hfind : roster.find? peer.name with
    | none =>
        have hnone := List.find?_eq_none.mp hfind peer hmem
        simp at hnone
    | some found =>
        have hname : found.name = peer.name := by simpa using List.find?_some hfind
        rw [eq_of_name_eq (List.mem_of_find?_eq_some hfind) hmem hname]

private theorem mem_peers_iff : peer ∈ roster.peers ↔ roster.find? peer.name = some peer := by
  rw [find?_eq_some_iff, and_iff_left rfl]

theorem eq_of_find?_eq (h : ∀ name, roster.find? name = other.find? name) : roster = other := by
  have hmem : ∀ peer, peer ∈ roster.peers ↔ peer ∈ other.peers := by
    intro peer
    rw [mem_peers_iff, mem_peers_iff, h]
  have hperm : roster.peers.Perm other.peers :=
    (List.perm_ext_iff_of_nodup (roster.names_nodup.of_map _) (other.names_nodup.of_map _)).mpr hmem
  have heq : roster.peers = other.peers := by
    refine hperm.eq_of_pairwise (fun first second _ _ hlt hgt => ?_) roster.sorted other.sorted
    exact absurd hgt (Std.not_gt_of_lt hlt)
  obtain ⟨peers, hsorted⟩ := roster
  obtain ⟨others, hothers⟩ := other
  subst heq
  rfl

private theorem find?_place (peer : Peer) (peers : List Peer) (name : String) :
    (place peer peers).find? (fun other => other.name == name) =
      if name = peer.name then some peer else peers.find? fun other => other.name == name := by
  induction peers with
  | nil =>
      by_cases hname : name = peer.name
      · simp [place, hname]
      · simp [place, hname, Ne.symm hname]
  | cons first rest ih =>
      rw [place]
      split
      case isTrue hlt =>
        by_cases hname : name = peer.name
        · simp [hname]
        · simp [hname, Ne.symm hname]
      case isFalse hnlt =>
        split
        case isTrue heq =>
          by_cases hname : name = peer.name
          · simp [hname]
          · simp [hname, Ne.symm hname, ← heq]
        case isFalse hne =>
          rw [List.find?_cons, ih, List.find?_cons]
          by_cases hfirst : first.name = name
          · have hother : ¬name = peer.name := fun hname => hne (hname.symm.trans hfirst.symm)
            simp [hfirst, hother]
          · simp only [beq_false_of_ne hfirst]

theorem find?_insert (roster : Roster) (peer : Peer) (name : String) :
    (roster.insert peer).find? name =
      if name = peer.name then some peer else roster.find? name :=
  find?_place peer roster.peers name

private theorem find?_erase (roster : Roster) (left name : String) :
    (roster.erase left).find? name = if name = left then none else roster.find? name := by
  rw [find?, erase, List.find?_filter]
  split
  case isTrue hleft =>
    rw [List.find?_eq_none]
    intro peer _
    simp [hleft]
  case isFalse hstays =>
    rw [find?]
    congr 1
    funext peer
    by_cases hname : peer.name = name
    · simp [hname, hstays]
    · simp [hname]

private theorem mem_without :
    peer ∈ roster.without other ↔ peer ∈ roster.peers ∧ other.find? peer.name ≠ some peer := by
  simp [without]

private theorem exists_mem_without_iff :
    (∃ peer ∈ roster.without other, peer.name = name) ↔
      ∃ peer, roster.find? name = some peer ∧ other.find? name ≠ some peer := by
  constructor
  · rintro ⟨peer, hmem, rfl⟩
    obtain ⟨hpeer, hdiffers⟩ := mem_without.mp hmem
    exact ⟨peer, mem_peers_iff.mp hpeer, hdiffers⟩
  · rintro ⟨peer, hfind, hdiffers⟩
    obtain ⟨hpeer, rfl⟩ := find?_eq_some_iff.mp hfind
    exact ⟨peer, mem_without.mpr ⟨hpeer, hdiffers⟩, rfl⟩

private theorem find?_without_eq_some_iff :
    ((roster.without other).find? fun found => found.name == name) = some peer ↔
      roster.find? name = some peer ∧ other.find? name ≠ some peer := by
  constructor
  · intro hfind
    obtain ⟨hpeer, hdiffers⟩ := mem_without.mp (List.mem_of_find?_eq_some hfind)
    obtain rfl : peer.name = name := by simpa using List.find?_some hfind
    exact ⟨mem_peers_iff.mp hpeer, hdiffers⟩
  · rintro ⟨hfind, hdiffers⟩
    obtain ⟨hpeer, rfl⟩ := find?_eq_some_iff.mp hfind
    have hmem := mem_without.mpr ⟨hpeer, hdiffers⟩
    cases hfound : (roster.without other).find? fun found => found.name == peer.name with
    | none => simpa using List.find?_eq_none.mp hfound peer hmem
    | some found =>
        have hname : found.name = peer.name := by simpa using List.find?_some hfound
        have hheld := (mem_without.mp (List.mem_of_find?_eq_some hfound)).1
        rw [eq_of_name_eq hheld hpeer hname]

/-- The roster lacks the name of a peer, or has another address or number of tokens under it. -/
def DiffersAt (roster : Roster) (peer : Peer) : Prop :=
  ∀ found ∈ roster.peers, found.name = peer.name →
    found.address ≠ peer.address ∨ found.tokens ≠ peer.tokens

private theorem differsAt_iff : roster.DiffersAt peer ↔ roster.find? peer.name ≠ some peer := by
  rw [Ne, ← mem_peers_iff]
  constructor
  · intro hdiffers hheld
    rcases hdiffers peer hheld rfl with haddress | htokens
    · exact haddress rfl
    · exact htokens rfl
  · intro hnot found hfound hname
    by_contra hsame
    obtain ⟨haddress, htokens⟩ := not_or.mp hsame
    obtain ⟨foundName, foundAddress, foundTokens⟩ := found
    obtain ⟨peerName, peerAddress, peerTokens⟩ := peer
    simp only [ne_eq, not_not] at hname haddress htokens
    subst hname haddress htokens
    exact hnot hfound

theorem mem_without_iff :
    peer ∈ roster.without other ↔ peer ∈ roster.peers ∧ other.DiffersAt peer := by
  rw [mem_without, differsAt_iff]

theorem sorted_without (roster other : Roster) :
    (roster.without other).Pairwise fun a b => a.name < b.name :=
  roster.sorted.filter _

/-- The roster that a subscriber has after a notice. -/
def heed (roster : Roster) : Notice → Roster
  | .joined peer => roster.insert peer
  | .left peer => roster.erase peer.name

def replay (roster : Roster) (notices : List Notice) : Roster := notices.foldl heed roster

theorem replay_append (roster : Roster) (first second : List Notice) :
    roster.replay (first ++ second) = (roster.replay first).replay second :=
  List.foldl_append

private theorem find?_replay_left (roster : Roster) (peers : List Peer) (name : String) :
    (roster.replay (peers.map .left)).find? name =
      if ∃ peer ∈ peers, peer.name = name then none else roster.find? name := by
  induction peers generalizing roster with
  | nil => simp [replay]
  | cons peer rest ih =>
      have hstep : roster.replay ((peer :: rest).map .left) =
          (roster.erase peer.name).replay (rest.map .left) := rfl
      rw [hstep, ih, find?_erase]
      by_cases hname : name = peer.name
      · simp [hname]
      · simp [hname, Ne.symm hname]

private theorem find?_replay_joined (roster : Roster) {peers : List Peer}
    (hsorted : peers.Pairwise fun a b => a.name < b.name) (name : String) :
    (roster.replay (peers.map .joined)).find? name =
      (peers.find? fun peer => peer.name == name).or (roster.find? name) := by
  induction peers generalizing roster with
  | nil => rfl
  | cons peer rest ih =>
      obtain ⟨hfirst, hrest⟩ := List.pairwise_cons.mp hsorted
      have hstep : roster.replay ((peer :: rest).map .joined) =
          (roster.insert peer).replay (rest.map .joined) := rfl
      rw [hstep, ih _ hrest, find?_insert, List.find?_cons]
      by_cases hname : peer.name = name
      · have hnone : (rest.find? fun other => other.name == name) = none := by
          rw [List.find?_eq_none]
          intro other hother
          have hne := Std.ne_of_lt (hfirst other hother)
          rw [hname] at hne
          simpa using hne.symm
        simp [hname, hnone]
      · rw [if_neg (Ne.symm hname)]
        simp only [beq_false_of_ne hname]

end Roster

namespace Membership

theorem replay_changes (old new : Roster) : old.replay (changes old new) = new := by
  apply Roster.eq_of_find?_eq
  intro name
  rw [changes, Roster.replay_append, Roster.find?_replay_joined _ (Roster.sorted_without _ _),
    Roster.find?_replay_left]
  simp only [Roster.exists_mem_without_iff]
  have hjoined : ∀ peer, ((new.without old).find? fun found => found.name == name) = some peer ↔
      new.find? name = some peer ∧ old.find? name ≠ some peer :=
    fun _ => Roster.find?_without_eq_some_iff
  generalize ((new.without old).find? fun found => found.name == name) = joined at hjoined ⊢
  cases joined with
  | some peer => rw [((hjoined peer).mp rfl).1, Option.some_or]
  | none =>
      -- Nobody joins under the name: whoever has it in the new roster had it in the old one.
      have hkept : ∀ peer, new.find? name = some peer → old.find? name = some peer := by
        intro peer hnew
        by_contra hold
        exact nomatch (hjoined peer).mpr ⟨hnew, hold⟩
      rw [Option.none_or]
      split
      case isTrue hleft =>
        obtain ⟨peer, hold, hgone⟩ := hleft
        symm
        rw [Option.eq_none_iff_forall_ne_some]
        intro found hnew
        rw [Option.some.inj ((hkept found hnew).symm.trans hold)] at hnew
        exact hgone hnew
      case isFalse hstays =>
        apply Option.ext
        intro peer
        refine ⟨fun hold => ?_, hkept peer⟩
        by_contra hgone
        exact hstays ⟨peer, hold, hgone⟩

end Membership

end ReplicaRing
