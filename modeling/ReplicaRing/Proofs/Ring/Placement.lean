import ReplicaRing.Proofs.Replication.Sending
import ReplicaRing.Proofs.Ring.Leaving

/-! Where a cluster puts a key: as many replicas as the level asks for and the cluster can give. -/

namespace ReplicaRing

private theorem Level.copies_fitted (level : Level) {size : Nat} (h : 0 < size) :
    (level.fitted size).copies size = min (level.copies size) size := by
  match size with
  | 1 | 2 | 3 => cases level <;> rfl
  | size + 4 =>
      have hfitted : level.fitted (size + 4) = level := by cases level <;> rfl
      have hcopies : level.copies (size + 4) ≤ size + 4 := by
        cases level <;> simp only [copies] <;> omega
      rw [hfitted, Nat.min_eq_left hcopies]

namespace Ring

variable {roster : Roster} {ring : Ring} {peer : Peer}

private theorem mem_walk (h : ofRoster roster = .ok ring) (hpeer : peer ∈ roster.peers)
    (htokens : peer.tokens ≠ 0) (key : Position) : peer ∈ ring.walk key := by
  obtain ⟨token, htoken, rfl⟩ := Roster.exists_token hpeer htokens
  have hmem : token ∈ Token.lap key ring.tokens.toList :=
    Token.mem_lap.mpr ((perm_of_ofTokens h).mem_iff.mpr htoken)
  obtain ⟨first, hfirst, hname⟩ := Peer.exists_mem_distinct (List.mem_map_of_mem hmem)
  rwa [← Roster.eq_of_name_eq (mem_peers_of_mem_walk h hfirst) hpeer hname]

private theorem length_walk (h : ofRoster roster = .ok ring)
    (htokens : ∀ peer ∈ roster.peers, peer.tokens ≠ 0) (key : Position) :
    (ring.walk key).length = roster.size := by
  refine Nat.le_antisymm (length_walk_le h key) ?_
  have hnodup : roster.peers.Nodup := roster.names_nodup.of_map Peer.name
  exact (hnodup.subperm fun peer hpeer => mem_walk h hpeer (htokens peer hpeer) key).length_le

end Ring

namespace Roster

variable {roster : Roster}

/-- The replicas of a key are the first peers of the walk from it, or there is no ring to walk. -/
theorem replicas_eq (roster : Roster) (key : Position) (level : Level) :
    roster.replicas key level =
      match Ring.ofRoster roster with
      | .error error => .error error
      | .ok ring =>
          if ring.size = 0 then .error .empty
          else .ok ((ring.walk key).take (min (level.copies roster.size) roster.size)) := by
  unfold replicas
  cases hring : Ring.ofRoster roster with
  | error error => rfl
  | ok ring =>
      change ring.select key _ = _
      simp only
      split
      case isTrue hnone => exact Ring.select_of_size_eq_zero hnone key _
      case isFalse hsome =>
        have hpos : 0 < ring.size := Nat.pos_of_ne_zero hsome
        obtain ⟨token, htoken⟩ := List.exists_mem_of_length_pos hpos
        have hsize : 0 < roster.size := List.length_pos_of_mem (Ring.owner_of_ofRoster hring htoken)
        rw [ring.select_eq key _ hpos, level.copies_fitted hsize]

/-- There is room for what a cluster of fewer than `2 ^ 60` peers asks of its ring. -/
theorem replicas_eq_of_size_lt {ring : Ring} (hring : Ring.ofRoster roster = .ok ring)
    (hsize : roster.size < 2 ^ 60) (key : Position) (level : Level) :
    ring.replicas key ((level.fitted roster.size).copies roster.size) =
      some (roster.replicas key level) := by
  have hreplicas : roster.replicas key level =
      ring.select key ((level.fitted roster.size).copies roster.size) := by
    rw [replicas, hring]
    rfl
  rw [hreplicas]
  refine Ring.replicas_eq_select key ?_
  match hpeers : roster.size with
  | 0 => cases level <;> decide
  | size + 1 =>
      rw [level.copies_fitted (Nat.succ_pos size)]
      exact Nat.lt_of_le_of_lt (Nat.min_le_right _ _) (hpeers ▸ hsize)

theorem exists_replicas (hsome : 0 < roster.size)
    (htokens : ∀ peer ∈ roster.peers, peer.tokens ≠ 0)
    (hdistinct : (roster.tokens.map Token.position).Nodup) (key : Position) (level : Level) :
    ∃ peers, roster.replicas key level = .ok peers ∧
      peers.length = min (level.copies roster.size) roster.size ∧
      (peers.map Peer.name).Nodup ∧ ∀ peer ∈ peers, peer ∈ roster.peers := by
  obtain ⟨ring, hring⟩ := Ring.exists_of_nodup hdistinct
  change Ring.ofRoster roster = .ok ring at hring
  obtain ⟨peer, hpeer⟩ := List.exists_mem_of_length_pos hsome
  have hpos := Ring.size_pos_of_owner hring hpeer (htokens peer hpeer)
  have hreplicas := roster.replicas_eq key level
  rw [hring] at hreplicas
  simp only [Nat.ne_of_gt hpos, if_false] at hreplicas
  refine ⟨_, hreplicas, ?_, replicas_names hreplicas, fun peer hmem => ?_⟩
  · rw [List.length_take, Ring.length_walk hring htokens]
    exact Nat.min_eq_left (Nat.min_le_right _ _)
  · exact Ring.mem_peers_of_mem_walk hring (List.mem_of_mem_take hmem)

end Roster

end ReplicaRing
