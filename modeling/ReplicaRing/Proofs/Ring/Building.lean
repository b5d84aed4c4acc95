import Mathlib.Data.List.Nodup
import ReplicaRing.Ring

/-! Which tokens make a ring, and that their order does not matter. -/

namespace ReplicaRing

private theorem Token.firstRepeat?_eq_none {tokens : List Token}
    (h : tokens.Pairwise fun a b => a.position < b.position) : firstRepeat? tokens = none := by
  induction tokens with
  | nil => rfl
  | cons first rest ih =>
      obtain ⟨hfirst, hrest⟩ := List.pairwise_cons.mp h
      cases rest with
      | nil => rfl
      | cons second rest =>
          rw [firstRepeat?, if_neg (BitVec.ne_of_lt (hfirst second List.mem_cons_self)), ih hrest]

private theorem Token.eq_of_position_eq {tokens : List Token} {first second : Token}
    (h : tokens.Pairwise fun a b => a.position < b.position) (hfirst : first ∈ tokens)
    (hsecond : second ∈ tokens) (heq : first.position = second.position) : first = second := by
  have hdistinct : (tokens.map Token.position).Nodup :=
    List.pairwise_map.mpr (h.imp fun hlt => BitVec.ne_of_lt hlt)
  exact List.inj_on_of_nodup_map hdistinct hfirst hsecond heq

namespace Ring

variable {tokens ordered : List Token} {ring : Ring}

private theorem sortTokens_eq (hsorted : ordered.Pairwise fun a b => a.position < b.position)
    (hperm : tokens.Perm ordered) : sortTokens tokens = ordered := by
  have hsort : (sortTokens tokens).Perm tokens := List.mergeSort_perm _ _
  refine List.Perm.eq_of_pairwise (fun first second hfirst hsecond hle hge => ?_)
    (pairwise_sortTokens tokens) (hsorted.imp fun hlt => BitVec.le_of_lt hlt)
    (hsort.trans hperm)
  exact Token.eq_of_position_eq hsorted ((hsort.trans hperm).mem_iff.mp hfirst) hsecond
    (BitVec.le_antisymm hle hge)

theorem ofTokens_of_perm (hsorted : ordered.Pairwise fun a b => a.position < b.position)
    (hperm : tokens.Perm ordered) : ofTokens tokens = .ok ⟨ordered.toArray, hsorted⟩ := by
  have hsort := sortTokens_eq hsorted hperm
  unfold ofTokens
  simp only
  split
  case h_1 position hrepeat =>
    rw [hsort, Token.firstRepeat?_eq_none hsorted] at hrepeat
    cases hrepeat
  case h_2 =>
    simp only [hsort]

theorem ofTokens_of_sorted (hsorted : tokens.Pairwise fun a b => a.position < b.position) :
    ofTokens tokens = .ok ⟨tokens.toArray, hsorted⟩ := ofTokens_of_perm hsorted (.refl _)

theorem ofTokens_nil : ofTokens [] = .ok ⟨#[], .nil⟩ := ofTokens_of_sorted .nil

theorem exists_of_nodup (h : (tokens.map Token.position).Nodup) :
    ∃ ring, ofTokens tokens = .ok ring := by
  have hperm : (sortTokens tokens).Perm tokens := List.mergeSort_perm _ _
  have hdistinct : (sortTokens tokens).Pairwise fun a b => a.position ≠ b.position :=
    List.pairwise_map.mp ((hperm.map Token.position).nodup_iff.mpr h)
  have hsorted : (sortTokens tokens).Pairwise fun a b => a.position < b.position :=
    ((pairwise_sortTokens tokens).and hdistinct).imp fun ⟨hle, hne⟩ => by bv_omega
  exact ⟨_, ofTokens_of_perm hsorted hperm.symm⟩

theorem perm_of_ofTokens (h : ofTokens tokens = .ok ring) :
    ring.tokens.toList.Perm tokens := by
  unfold ofTokens at h
  simp only at h
  split at h
  case h_1 => cases h
  case h_2 =>
    cases h
    exact List.mergeSort_perm _ _

/-- Some of the tokens of a ring are a ring, in the same order. -/
theorem ofTokens_filter (h : ofTokens tokens = .ok ring) (keep : Token → Bool) :
    ∃ rest, ofTokens (tokens.filter keep) = .ok rest ∧
      rest.tokens.toList = ring.tokens.toList.filter keep :=
  ⟨_, ofTokens_of_perm (ring.sorted.filter keep) ((perm_of_ofTokens h).symm.filter keep), rfl⟩

end Ring

end ReplicaRing
