import Mathlib.Data.List.Perm.Subperm
import ReplicaRing.Proofs.Ring.Building
import ReplicaRing.Proofs.Ring.Walk

/-!
What the ring loses with a peer.  Where the peer was among the replicas of a key, the next one on the
walk takes over; all others stay.
-/

namespace ReplicaRing

namespace Roster

def erase (roster : Roster) (name : String) : Roster :=
  ⟨roster.peers.filter fun peer => peer.name ≠ name, roster.sorted.filter _⟩

theorem names_nodup (roster : Roster) : (roster.peers.map Peer.name).Nodup :=
  List.pairwise_map.mpr (roster.sorted.imp fun hlt => Std.ne_of_lt hlt)

theorem eq_of_name_eq {roster : Roster} {first second : Peer} (hfirst : first ∈ roster.peers)
    (hsecond : second ∈ roster.peers) (h : first.name = second.name) : first = second :=
  List.inj_on_of_nodup_map roster.names_nodup hfirst hsecond h

theorem owner_of_mem_mintTokens {peer : Peer} {token : Token} (h : token ∈ peer.mintTokens) :
    token.owner = peer := by
  obtain ⟨index, -, rfl⟩ := List.mem_map.mp h
  rfl

private theorem owner_of_mem_tokens {roster : Roster} {token : Token} (h : token ∈ roster.tokens) :
    token.owner ∈ roster.peers := by
  obtain ⟨peer, hpeer, htoken⟩ := List.mem_flatMap.mp h
  rwa [owner_of_mem_mintTokens htoken]

theorem exists_token {roster : Roster} {peer : Peer} (h : peer ∈ roster.peers)
    (htokens : peer.tokens ≠ 0) : ∃ token ∈ roster.tokens, token.owner = peer := by
  have hpos : 0 < peer.tokens.toNat :=
    Nat.pos_of_ne_zero fun hzero => htokens (UInt32.toNat.inj hzero)
  refine ⟨Token.mint peer (UInt32.ofNat 0), List.mem_flatMap.mpr ⟨peer, h, ?_⟩, rfl⟩
  exact List.mem_map.mpr ⟨0, List.mem_range.mpr hpos, rfl⟩

private theorem tokens_erase (roster : Roster) (name : String) :
    (roster.erase name).tokens = roster.tokens.filter fun token => token.owner.name ≠ name := by
  obtain ⟨peers, hsorted⟩ := roster
  simp only [tokens, erase]
  clear hsorted
  induction peers with
  | nil => rfl
  | cons peer rest ih =>
      rw [List.filter_cons, List.flatMap_cons, List.filter_append, ← ih]
      split
      case isTrue hkept =>
        have hall : ∀ token ∈ peer.mintTokens, decide (token.owner.name ≠ name) = true := by
          intro token htoken
          rwa [owner_of_mem_mintTokens htoken]
        rw [List.flatMap_cons, List.filter_eq_self.mpr hall]
      case isFalse hleft =>
        have hnone : ∀ token ∈ peer.mintTokens, ¬decide (token.owner.name ≠ name) = true := by
          intro token htoken
          rwa [owner_of_mem_mintTokens htoken]
        rw [List.filter_eq_nil_iff.mpr hnone, List.nil_append]

end Roster

section Taking

variable {α : Type} [DecidableEq α] {items : List α} {item : α} {count : Nat}

private theorem take_erase_of_notMem (h : item ∉ items.take count) :
    (items.erase item).take count = items.take count := by
  induction items generalizing count with
  | nil => rfl
  | cons first rest ih =>
      cases count with
      | zero => simp
      | succ count =>
          rw [List.take_succ_cons, List.mem_cons, not_or] at h
          rw [List.erase_cons_tail (by simpa using Ne.symm h.1), List.take_succ_cons,
            List.take_succ_cons, ih h.2]

private theorem take_erase_of_mem (h : item ∈ items.take count) :
    (items.erase item).take count = (items.take count).erase item ++ items[count]?.toList := by
  induction items generalizing count with
  | nil => simp at h
  | cons first rest ih =>
      cases count with
      | zero => simp at h
      | succ count =>
          rw [List.take_succ_cons, List.getElem?_cons_succ]
          by_cases hfirst : first = item
          · rw [hfirst, List.erase_cons_head, List.erase_cons_head, List.take_add_one]
          · rw [List.take_succ_cons, List.mem_cons] at h
            rw [List.erase_cons_tail (by simpa using hfirst),
              List.erase_cons_tail (by simpa using hfirst), List.take_succ_cons,
              ih (h.resolve_left fun heq => hfirst heq.symm), List.cons_append]

end Taking

namespace Ring

variable {roster : Roster} {ring rest : Ring} {peer other : Peer}

theorem owner_of_ofRoster (h : ofRoster roster = .ok ring) {token : Token}
    (htoken : token ∈ ring.tokens.toList) : token.owner ∈ roster.peers :=
  Roster.owner_of_mem_tokens ((perm_of_ofTokens h).mem_iff.mp htoken)

theorem size_pos_of_owner (h : ofRoster roster = .ok ring) (hpeer : peer ∈ roster.peers)
    (htokens : peer.tokens ≠ 0) : 0 < ring.size := by
  obtain ⟨token, htoken, -⟩ := Roster.exists_token hpeer htokens
  exact List.length_pos_of_mem ((perm_of_ofTokens h).mem_iff.mpr htoken)

theorem mem_peers_of_mem_walk (h : ofRoster roster = .ok ring) {key : Position}
    (hwalk : peer ∈ ring.walk key) : peer ∈ roster.peers := by
  obtain ⟨token, htoken, rfl⟩ := List.mem_map.mp ((Peer.distinct_sublist _).subset hwalk)
  exact owner_of_ofRoster h (Token.mem_lap.mp htoken)

theorem length_walk_le (h : ofRoster roster = .ok ring) (key : Position) :
    (ring.walk key).length ≤ roster.size :=
  ((ring.walk_nodup key).subperm fun _ hmem => mem_peers_of_mem_walk h hmem).length_le

private theorem walk_erase (h : ofRoster roster = .ok ring) (hpeer : peer ∈ roster.peers)
    (hrest : rest.tokens.toList =
      ring.tokens.toList.filter fun token => token.owner.name ≠ peer.name)
    (key : Position) : rest.walk key = (ring.walk key).erase peer := by
  let keep (other : Peer) : Bool := other.name ≠ peer.name
  calc rest.walk key
      = Peer.distinct (((Token.lap key ring.tokens.toList).map Token.owner).filter keep) := by
        rw [walk, hrest, Token.lap_filter, List.filter_map]
        rfl
    _ = (ring.walk key).filter keep :=
        Peer.distinct_filter (fun first second hname => by simp only [keep, hname]) _
    _ = (ring.walk key).filter (· != peer) := by
        refine List.filter_congr fun other hother => ?_
        have hsame : other.name = peer.name ↔ other = peer :=
          ⟨Roster.eq_of_name_eq (mem_peers_of_mem_walk h hother) hpeer, congrArg Peer.name⟩
        by_cases heq : other = peer <;> simp [keep, hsame, heq]
    _ = (ring.walk key).erase peer := ((ring.walk_nodup key).erase_eq_filter peer).symm

/-- When a peer leaves, the others that a key has keep their places, and where the peer was among the
replicas the next one on the walk follows them.  So many copies that there is no room for them are
refused with the peer and without. -/
theorem replicas_without_peer (hring : ofRoster roster = .ok ring) (hpeer : peer ∈ roster.peers)
    (hother : other ∈ roster.peers) (hne : other ≠ peer) (htokens : other.tokens ≠ 0) :
    ∃ rest, ofRoster (roster.erase peer.name) = .ok rest ∧
      ∀ key, ∃ walk, (roster.size < 2 ^ 60 → ring.replicas key roster.size = some (.ok walk)) ∧
        (∀ copies, 2 ^ 60 ≤ copies →
          ring.replicas key copies = none ∧ rest.replicas key copies = none) ∧
        ∀ copies, copies < 2 ^ 60 →
          ring.replicas key copies = some (.ok (walk.take copies)) ∧
          rest.replicas key copies = some (.ok ((walk.erase peer).take copies)) ∧
          (peer ∉ walk.take copies → rest.replicas key copies = some (.ok (walk.take copies))) ∧
          (peer ∈ walk.take copies → rest.replicas key copies =
            some (.ok ((walk.take copies).erase peer ++ walk[copies]?.toList))) := by
  obtain ⟨rest, hrest, htokensRest⟩ :=
    ofTokens_filter hring fun token => token.owner.name ≠ peer.name
  rw [← Roster.tokens_erase] at hrest
  have hpos := size_pos_of_owner hring hother htokens
  have hposRest : 0 < rest.size := by
    have hname : other.name ≠ peer.name := fun heq => hne (Roster.eq_of_name_eq hother hpeer heq)
    have hleft : other ∈ (roster.erase peer.name).peers :=
      List.mem_filter.mpr ⟨hother, decide_eq_true hname⟩
    exact size_pos_of_owner hrest hleft htokens
  refine ⟨rest, hrest, fun key => ⟨ring.walk key, fun hroom => ?_, fun copies hcopies => ?_,
    fun copies hroom => ?_⟩⟩
  · rw [replicas_of_lt key hpos hroom, List.take_of_length_le (length_walk_le hring key)]
  · exact ⟨replicas_of_le key hpos hcopies, replicas_of_le key hposRest hcopies⟩
  have hcopies := replicas_of_lt key hposRest hroom
  rw [walk_erase hring hpeer htokensRest] at hcopies
  refine ⟨replicas_of_lt key hpos hroom, hcopies, fun hnot => ?_, fun hmem => ?_⟩
  · rw [hcopies, take_erase_of_notMem hnot]
  · rw [hcopies, take_erase_of_mem hmem]

end Ring

namespace Trio

/-! Three peers, one of which has two tokens and leaves. -/

def leaver : Peer := ⟨"a", .localhost 1, 2⟩

def second : Peer := ⟨"b", .localhost 2, 1⟩

def third : Peer := ⟨"d", .localhost 3, 1⟩

def roster : Roster := ⟨[leaver, second, third], by decide⟩

def tokens : List Token :=
  [Token.mint second 0, Token.mint leaver 0, Token.mint third 0, Token.mint leaver 1]

theorem sorted_tokens : tokens.Pairwise fun a b => a.position < b.position :=
  List.isChain_iff_pairwise.mp (by decide +kernel)

theorem perm_tokens : roster.tokens.Perm tokens :=
  (@List.perm_middle _ (Token.mint second 0) [Token.mint leaver 0, Token.mint leaver 1] _).trans
    (.cons _ (.cons _ (.swap _ _ [])))

def ring : Ring := ⟨tokens.toArray, sorted_tokens⟩

def key : Position := 0x50000000000000000000000000000000

private theorem ofRoster_roster : Ring.ofRoster roster = .ok ring :=
  Ring.ofTokens_of_perm sorted_tokens perm_tokens

private theorem replicas_eq {copies : Nat} (h : copies < 2 ^ 60) :
    ring.replicas key copies = some (.ok ([leaver, second, third].take copies)) := by
  have hwalk : ring.walk key = [leaver, second, third] := by decide +kernel
  rw [Ring.replicas_of_lt key (by decide) h, hwalk]

theorem replicas_without_peer_of_leaver :
    ∃ rest, Ring.ofRoster roster = .ok ring ∧ Ring.ofRoster (roster.erase "a") = .ok rest ∧
      ring.replicas key 2 = some (.ok [leaver, second]) ∧
      rest.replicas key 2 = some (.ok [second, third]) := by
  have hleaver : leaver ∈ roster.peers := by decide
  have hsecond : second ∈ roster.peers := by decide
  obtain ⟨rest, hrest, hkeys⟩ :=
    Ring.replicas_without_peer ofRoster_roster hleaver hsecond (by decide) (by decide)
  obtain ⟨walk, hwalk, -, hcopies⟩ := hkeys key
  have hwalk := hwalk (by decide)
  rw [replicas_eq (by decide)] at hwalk
  cases hwalk
  obtain ⟨-, -, -, hleft⟩ := hcopies 2 (by decide)
  exact ⟨rest, ofRoster_roster, hrest, replicas_eq (by decide), hleft (by decide)⟩

private theorem sorted_staying :
    [Token.mint second 0, Token.mint third 0].Pairwise fun a b => a.position < b.position :=
  sorted_tokens.sublist (.cons_cons _ (.cons _ (.cons_cons _ (.cons _ .slnil))))

def rest : Ring := ⟨#[Token.mint second 0, Token.mint third 0], sorted_staying⟩

private theorem ofRoster_erase : Ring.ofRoster (roster.erase leaver.name) = .ok rest :=
  Ring.ofTokens_of_perm sorted_staying (.refl _)

/-- Two peers stay for the key, and yet nothing comes back for so many copies. -/
theorem no_replicas_of_excess_without_leaver :
    Ring.ofRoster roster = .ok ring ∧ Ring.ofRoster (roster.erase leaver.name) = .ok rest ∧
      ring.replicas key roster.size = some (.ok [leaver, second, third]) ∧
      rest.replicas key (2 ^ 60) ≠
        some (.ok (([leaver, second, third].erase leaver).take (2 ^ 60))) := by
  refine ⟨ofRoster_roster, ofRoster_erase, replicas_eq (by decide), fun hsome => ?_⟩
  rw [Ring.replicas_of_le key (by decide) (Nat.le_refl _)] at hsome
  cases hsome

end Trio

end ReplicaRing
