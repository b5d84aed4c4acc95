import ReplicaRing.Proofs.Replication.Sending

/-! With fewer copies to make, a key has the first of the same targets. -/

namespace ReplicaRing

variable {fewer copies : Nat}

private theorem Ring.prefix_choose (ring : Ring) (start : Fin ring.size) (copies : Nat)
    (steps : List Nat)
    (chosen : List Peer) : chosen <+: ring.choose start copies steps chosen := by
  induction steps generalizing chosen with
  | nil => exact List.prefix_rfl
  | cons step rest ih =>
      rw [choose]
      split
      · exact List.prefix_rfl
      · simp only
        split
        · exact ih chosen
        · exact (List.prefix_append chosen _).trans (ih _)

private theorem Ring.choose_prefix_choose (ring : Ring) (start : Fin ring.size) (h : fewer ≤ copies)
    (steps : List Nat) (chosen : List Peer) :
    ring.choose start fewer steps chosen <+: ring.choose start copies steps chosen := by
  induction steps generalizing chosen with
  | nil => exact List.prefix_rfl
  | cons step rest ih =>
      rw [choose]
      split
      case isTrue => exact ring.prefix_choose start copies _ chosen
      case isFalse hfewer =>
        rw [choose, if_neg fun hcopies => hfewer (Nat.le_trans h hcopies)]
        simp only
        split
        · exact ih chosen
        · exact ih _

private theorem Ring.select_prefix {ring : Ring} {key : Position} {few many : List Peer}
    (hfew : ring.select key fewer = .ok few) (hmany : ring.select key copies = .ok many)
    (h : fewer ≤ copies) : few <+: many := by
  unfold select at hfew hmany
  cases hstart : ring.locate key with
  | error error =>
      rw [hstart] at hfew
      cases hfew
  | ok start =>
      rw [hstart] at hfew hmany
      cases hfew
      cases hmany
      exact ring.choose_prefix_choose start h _ []

theorem Roster.replicas_prefix {roster : Roster} {key : Position} {lower level : Level}
    {few many : List Peer} (hfew : roster.replicas key lower = .ok few)
    (hmany : roster.replicas key level = .ok many)
    (h : (lower.fitted roster.size).copies roster.size ≤
      (level.fitted roster.size).copies roster.size) : few <+: many := by
  unfold replicas at hfew hmany
  cases hring : Ring.ofRoster roster with
  | error error =>
      rw [hring] at hfew
      cases hfew
  | ok ring =>
      rw [hring] at hfew hmany
      exact Ring.select_prefix hfew hmany h

end ReplicaRing
