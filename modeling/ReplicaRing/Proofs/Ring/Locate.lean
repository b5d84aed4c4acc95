import ReplicaRing.Ring

/-! Which token a key belongs to: the last one at or below it, or else the last one of all. -/

namespace ReplicaRing

namespace Position

variable {a b c : Position}

theorem inOrder_of_lt (hac : a < c) (hab : a ≠ b) (hbc : b ≠ c) :
    inOrder a b c = .ok (decide (a < b ∧ b < c)) := by
  have hne : a ≠ c := BitVec.ne_of_lt hac
  have hnlt : ¬c < a := BitVec.lt_asymm hac
  rw [inOrder, if_neg (by simp [hab, hne]), if_neg hbc]
  by_cases hleft : a < b <;> by_cases hright : b < c <;> simp [hleft, hright, hnlt]

theorem inOrder_of_gt (hca : c < a) (hab : a ≠ b) (hbc : b ≠ c) :
    inOrder a b c = .ok (decide (a < b ∨ b < c)) := by
  have hne : a ≠ c := (BitVec.ne_of_lt hca).symm
  rw [inOrder, if_neg (by simp [hab, hne]), if_neg hbc]
  by_cases hleft : a < b <;> by_cases hright : b < c
  · exact absurd (BitVec.lt_trans hleft hright) (BitVec.lt_asymm hca)
  all_goals simp [hleft, hright, hca]

end Position

namespace Ring

variable {ring : Ring} {key : Position} {low high index : Fin ring.size}

private theorem position_lt (h : low < high) : ring.position low < ring.position high :=
  List.pairwise_iff_getElem.mp ring.sorted low.val high.val low.isLt high.isLt h

theorem position_le (h : low ≤ high) : ring.position low ≤ ring.position high := by
  rcases Nat.lt_or_eq_of_le h with hlt | heq
  · exact BitVec.le_of_lt (position_lt hlt)
  · rw [Fin.ext heq]
    exact BitVec.le_refl _

/-- The token at an index is the one that a key belongs to. -/
inductive Governs (ring : Ring) (key : Position) : Fin ring.size → Prop
  | below (index : Fin ring.size) (hbelow : ring.position index ≤ key)
      (habove : ∀ other, index < other → key < ring.position other) : Governs ring key index
  | last (index : Fin ring.size) (hlast : index.val + 1 = ring.size)
      (habove : ∀ other, key < ring.position other) : Governs ring key index

private theorem Governs.of_between (hnext : high.val = low.val + 1) (hlow : ring.position low ≤ key)
    (hhigh : key < ring.position high) : ring.Governs key low := by
  refine .below low hlow fun other hother => ?_
  have hle : ring.position high ≤ ring.position other :=
    position_le (Fin.mk_le_of_le_val (by omega))
  bv_omega

private theorem Governs.of_position_eq (h : ring.position index = key) : ring.Governs key index :=
  .below index (h ▸ BitVec.le_refl _) fun _ hother => h ▸ position_lt hother

private theorem Governs.of_size_eq_one (hone : ring.size = 1) (index : Fin ring.size) :
    ring.Governs key index := by
  have honly : ∀ other, other = index := fun other => Fin.ext (by omega)
  by_cases hbelow : ring.position index ≤ key
  · exact .below index hbelow fun other hother => absurd (honly other) (Fin.ne_of_gt hother)
  · refine .last index (by omega) fun other => ?_
    rw [honly other]
    exact BitVec.not_le.mp hbelow

private theorem Governs.of_outside (hfirst : low.val = 0) (hlast : high.val + 1 = ring.size)
    (h : ring.position high < key ∨ key < ring.position low) : ring.Governs key high := by
  rcases h with hpast | hbefore
  · refine .below high (BitVec.le_of_lt hpast) fun other hother => ?_
    exact absurd hother (Fin.not_lt.mpr (Fin.mk_le_mk.mpr (by omega)))
  · refine .last high hlast fun other => ?_
    have hle : ring.position low ≤ ring.position other := position_le (Fin.mk_le_of_le_val (by omega))
    bv_omega

/-- The search keeps the key between the two ends and stops when they are neighbours. -/
theorem narrow_governs (hfree : ∀ other, ring.position other ≠ key)
    (hlow : ring.position low < key) (hhigh : key < ring.position high) :
    ∃ index, ring.narrow key low high = .ok index ∧ ring.Governs key index := by
  have hlt : low < high := by
    refine Fin.not_le.mp fun hle => ?_
    have := position_le hle
    bv_omega
  -- Between two tokens the order round the ring is that of the positions.
  have horder : ∀ {middle high : Fin ring.size}, middle < high → key < ring.position high →
      Position.inOrder (ring.position middle) key (ring.position high) =
        .ok (decide (ring.position middle < key)) := by
    intro middle high hmiddle hhigh
    rw [Position.inOrder_of_lt (position_lt hmiddle) (hfree middle) (BitVec.ne_of_lt hhigh)]
    simp [hhigh]
  fun_induction narrow ring key low high with
  | case1 low high hwide middle error herror =>
      rw [horder (Fin.mk_lt_of_lt_val (by omega)) hhigh] at herror
      cases herror
  | case2 low high hwide middle hmiddle ih =>
      rw [horder (Fin.mk_lt_of_lt_val (by omega)) hhigh] at hmiddle
      exact ih (by simpa using hmiddle) hhigh (Fin.mk_lt_of_lt_val (by omega))
  | case3 low high hwide middle hmiddle ih =>
      rw [horder (Fin.mk_lt_of_lt_val (by omega)) hhigh] at hmiddle
      have hnlt : ¬ring.position middle < key := by simpa using hmiddle
      have hne := hfree middle
      have hlower : low.val < low.val + (high.val - low.val) / 2 := by omega
      exact ih hlow (by bv_omega) hlower
  | case4 low high hnarrow =>
      exact ⟨low, rfl, .of_between (by omega) (BitVec.le_of_lt hlow) hhigh⟩

theorem locate_of_size_eq_zero (h : ring.size = 0) (key : Position) :
    ring.locate key = .error .empty := by
  rw [locate, dif_neg (Nat.not_lt.mpr (Nat.le_of_eq h))]

theorem locate_governs (ring : Ring) (key : Position) (hsize : 0 < ring.size) :
    ∃ index, ring.locate key = .ok index ∧ ring.Governs key index := by
  unfold locate
  rw [dif_pos hsize]
  simp only
  split
  case isTrue hone => exact ⟨_, rfl, .of_size_eq_one hone _⟩
  case isFalse hmany =>
    split
    case h_1 index hfound =>
      have hat : ring.position index = key := by
        simpa [position] using (Array.findFinIdx?_eq_some_iff.mp hfound).1
      exact ⟨index, rfl, .of_position_eq hat⟩
    case h_2 hnone =>
      have hfree : ∀ other, ring.position other ≠ key := fun other heq =>
        Array.findFinIdx?_eq_none_iff.mp hnone _ (Array.getElem_mem other.isLt) (beq_iff_eq.mpr heq)
      let first : Fin ring.size := ⟨0, hsize⟩
      let last : Fin ring.size := ⟨ring.size - 1, by omega⟩
      have hends : ring.position first < ring.position last :=
        position_lt (Fin.mk_lt_mk.mpr (by omega))
      rw [Position.inOrder_of_gt hends (hfree last) (hfree first).symm]
      by_cases houtside : ring.position last < key ∨ key < ring.position first
      · simp only [houtside, decide_true]
        exact ⟨last, rfl, .of_outside rfl (Nat.sub_add_cancel hsize) houtside⟩
      · simp only [houtside, decide_false]
        obtain ⟨hlast, hfirst⟩ := not_or.mp houtside
        have hlow : ring.position first < key := by
          have := hfree first
          bv_omega
        have hhigh : key < ring.position last := by
          have := hfree last
          bv_omega
        exact narrow_governs hfree hlow hhigh

end Ring

end ReplicaRing
