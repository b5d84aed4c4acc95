import Mathlib.Algebra.Group.Int.Defs
import Mathlib.Data.List.Nodup
import ReplicaRing.Proofs.Ring.Locate

/-!
The order round the ring is that of distances: on the way upward from `a`, `b` is met before `c` when it is
nearer.  So it does not matter which of the three is named first, exchanging two of them turns the order
round, and what is met before a place is met before all that comes after that place.
-/

namespace ReplicaRing.Position

variable {a b c d : Position}

/-- How far it is upward from `a` to `b`, going from the largest position on to zero. -/
def distance (a b : Position) : Int := ((b.toNat : Int) - a.toNat) % 2 ^ 128

private theorem distance_of_le (h : a ≤ b) : distance a b = (b.toNat : Int) - a.toNat := by
  have hle : a.toNat ≤ b.toNat := h
  have hlimit := b.isLt
  exact Int.emod_eq_of_lt (by omega) (by omega)

private theorem distance_of_lt (h : b < a) : distance a b =
    (b.toNat : Int) - a.toNat + 2 ^ 128 := by
  have hlt : b.toNat < a.toNat := h
  have hlimit := a.isLt
  rw [distance, ← Int.add_emod_right]
  exact Int.emod_eq_of_lt (by omega) (by omega)

private theorem distance_self (a : Position) : distance a a = 0 := by
  rw [distance_of_le (BitVec.le_refl a), Int.sub_self]

private theorem distance_nonneg (a b : Position) : 0 ≤ distance a b :=
  Int.emod_nonneg _ (by decide)

private theorem distance_lt (a b : Position) : distance a b < 2 ^ 128 :=
  Int.emod_lt_of_pos _ (by decide)

private theorem distance_add_distance (h : a ≠ b) : distance a b + distance b a = 2 ^ 128 := by
  rcases Nat.lt_or_gt_of_ne (BitVec.toNat_ne.mp h) with hlt | hgt
  · rw [distance_of_le (BitVec.le_of_lt hlt), distance_of_lt hlt]
    omega
  · rw [distance_of_lt hgt, distance_of_le (BitVec.le_of_lt hgt)]
    omega

private theorem distance_split (h : distance a b ≤ distance a c) :
    distance a c = distance a b + distance b c := by
  have hsteps : (c.toNat : Int) - b.toNat = c.toNat - a.toNat - (b.toNat - a.toNat) := by omega
  have hrest : distance b c = (distance a c - distance a b) % 2 ^ 128 := by
    rw [distance, distance, distance, ← Int.sub_emod, hsteps]
  have hnonneg := distance_nonneg a b
  have hlimit := distance_lt a c
  rw [hrest, Int.emod_eq_of_lt (by omega) (by omega)]
  omega

private theorem distance_lt_rotate (hab : a ≠ b) (hbc : b ≠ c) :
    distance b c < distance b a ↔ distance a b < distance a c := by
  have hround := distance_add_distance hab
  have hreturn := distance_add_distance hbc
  have hlimit := distance_lt c b
  have hlimit' := distance_lt a c
  have hnonneg := distance_nonneg a c
  by_cases hnear : distance a b ≤ distance a c
  · -- The way from `b` back to `a` goes past `c`.
    have hway := distance_split hnear
    omega
  · -- It ends before `c`.
    have hway := distance_split (Int.le_of_not_le hnear)
    omega

private theorem distance_injective (h : distance a b = distance a c) : b = c := by
  by_contra hne
  have hway := distance_split (Int.le_of_eq h)
  have hreturn := distance_add_distance hne
  have hlimit := distance_lt c b
  omega

private theorem distance_lt_of_le (h : a ≤ c) : distance a b < distance a c ↔ a ≤ b ∧ b < c := by
  rw [distance_of_le h]
  by_cases hab : a ≤ b
  · rw [distance_of_le hab]
    bv_omega
  · rw [distance_of_lt (BitVec.not_le.mp hab)]
    bv_omega

private theorem distance_lt_of_lt (h : c < a) : distance a b < distance a c ↔ a ≤ b ∨ b < c := by
  rw [distance_of_lt h]
  by_cases hab : a ≤ b
  · rw [distance_of_le hab]
    bv_omega
  · rw [distance_of_lt (BitVec.not_le.mp hab)]
    bv_omega

private theorem nodup_iff : [a, b, c].Nodup ↔ a ≠ b ∧ a ≠ c ∧ b ≠ c := by
  simp [and_assoc]

private theorem inOrder_of_nodup (h : [a, b, c].Nodup) :
    inOrder a b c = .ok (decide (distance a b < distance a c)) := by
  obtain ⟨hab, hac, hbc⟩ := nodup_iff.mp h
  have hle : a < b ↔ a ≤ b := by bv_omega
  rcases Nat.lt_or_gt_of_ne (BitVec.toNat_ne.mp hac) with hlt | hgt
  · rw [inOrder_of_lt hlt hab hbc, decide_eq_decide.mpr]
    rw [distance_lt_of_le (BitVec.le_of_lt hlt), hle]
  · rw [inOrder_of_gt hgt hab hbc, decide_eq_decide.mpr]
    rw [distance_lt_of_lt hgt, hle]

private theorem inOrder_of_count {repeated : Position} (h : 1 < [a, b, c].count repeated) :
    inOrder a b c = .error (.collision repeated) := by
  have htwice : a = repeated ∧ b = repeated ∨ a = repeated ∧ c = repeated ∨
      b = repeated ∧ c = repeated := by
    grind
  rcases htwice with ⟨rfl, rfl⟩ | ⟨rfl, rfl⟩ | ⟨rfl, rfl⟩
  · rw [inOrder, if_pos (.inl rfl)]
  · rw [inOrder, if_pos (.inr rfl)]
  · by_cases hac : a = c
    · rw [inOrder, if_pos (.inl hac), hac]
    · rw [inOrder, if_neg (by simp [hac]), if_pos rfl]

private theorem exists_collision (h : ¬[a, b, c].Nodup) :
    ∃ repeated, 1 < [a, b, c].count repeated ∧ inOrder a b c = .error (.collision repeated) := by
  obtain ⟨repeated, htwice⟩ : ∃ repeated, 1 < [a, b, c].count repeated := by
    simpa [List.nodup_iff_count_le_one] using h
  exact ⟨repeated, htwice, inOrder_of_count htwice⟩

private theorem inOrder_rotate (a b c : Position) : inOrder b c a = inOrder a b c := by
  have hperm : [b, c, a].Perm [a, b, c] := List.perm_append_singleton a [b, c]
  by_cases h : [a, b, c].Nodup
  · obtain ⟨hab, -, hbc⟩ := nodup_iff.mp h
    rw [inOrder_of_nodup h, inOrder_of_nodup (hperm.nodup_iff.mpr h),
      decide_eq_decide.mpr (distance_lt_rotate hab hbc)]
  · obtain ⟨repeated, htwice, hfails⟩ := exists_collision h
    rw [hfails, inOrder_of_count (hperm.count_eq repeated ▸ htwice)]

private theorem inOrder_swap (a b c : Position) : inOrder a c b = (inOrder a b c).map not := by
  have hperm : [a, c, b].Perm [a, b, c] := .cons a (.swap b c [])
  by_cases h : [a, b, c].Nodup
  · obtain ⟨-, -, hbc⟩ := nodup_iff.mp h
    have hne : distance a b ≠ distance a c := mt distance_injective hbc
    have hother : distance a c < distance a b ↔ ¬distance a b < distance a c := by omega
    rw [inOrder_of_nodup h, inOrder_of_nodup (hperm.nodup_iff.mpr h), decide_eq_decide.mpr hother,
      decide_not]
    rfl
  · obtain ⟨repeated, htwice, hfails⟩ := exists_collision h
    rw [hfails, inOrder_of_count (hperm.count_eq repeated ▸ htwice)]
    rfl

private theorem nodup_of_distance_lt (hab : a ≠ b) (h : distance a b < distance a c) :
    [a, b, c].Nodup := by
  refine nodup_iff.mpr ⟨hab, ?_, ?_⟩
  · rintro rfl
    rw [distance_self] at h
    exact Int.not_lt.mpr (distance_nonneg a b) h
  · rintro rfl
    exact Int.lt_irrefl _ h

private theorem inOrder_eq_true_iff :
    inOrder a b c = .ok true ↔ a ≠ b ∧ distance a b < distance a c := by
  constructor
  · intro hmet
    by_cases h : [a, b, c].Nodup
    · rw [inOrder_of_nodup h] at hmet
      exact ⟨(nodup_iff.mp h).1, of_decide_eq_true (Except.ok.inj hmet)⟩
    · obtain ⟨repeated, -, hfails⟩ := exists_collision h
      rw [hfails] at hmet
      cases hmet
  · rintro ⟨hab, hlt⟩
    rw [inOrder_of_nodup (nodup_of_distance_lt hab hlt), decide_eq_true hlt]

private theorem inOrder_trans (hbc : inOrder a b c = .ok true) (hcd : inOrder a c d = .ok true) :
    inOrder a b d = .ok true := by
  obtain ⟨hab, hnear⟩ := inOrder_eq_true_iff.mp hbc
  obtain ⟨-, hfar⟩ := inOrder_eq_true_iff.mp hcd
  exact inOrder_eq_true_iff.mpr ⟨hab, Int.lt_trans hnear hfar⟩

/-- The order round the ring is cyclic.  It is that of distances upward from the first of three places, and
fails at a place that is named twice; it stays the same when the three take turns and is turned round when
two of them change places, also in how it fails; and it is transitive round the ring. -/
theorem inOrder_cyclic (a b c d : Position) :
    (¬[a, b, c].Nodup → ∃ repeated, 1 < [a, b, c].count repeated ∧
      inOrder a b c = .error (.collision repeated)) ∧
    ([a, b, c].Nodup → inOrder a b c = .ok (decide (distance a b < distance a c))) ∧
    (inOrder b c a = inOrder a b c ∧ inOrder c a b = inOrder a b c) ∧
    (inOrder b a c = (inOrder a b c).map not ∧ inOrder a c b = (inOrder a b c).map not ∧
      inOrder c b a = (inOrder a b c).map not) ∧
    (inOrder a b c = .ok true → inOrder a c d = .ok true → inOrder a b d = .ok true) := by
  have hturn := inOrder_rotate a b c
  have hturnAgain := inOrder_rotate b c a
  have hswap := inOrder_swap a b c
  refine ⟨exists_collision, inOrder_of_nodup, ⟨hturn, hturnAgain.trans hturn⟩, ⟨?_, hswap, ?_⟩,
    inOrder_trans⟩
  · rw [← inOrder_rotate, hswap]
  · rw [inOrder_rotate, hswap]

theorem inOrder_cyclic_past_largest :
    let start : Position := BitVec.allOnes 128 - 1
    (¬[start, 5, start].Nodup ∧
      ∃ repeated, 1 < [start, 5, start].count repeated ∧
        inOrder start 5 start = .error (.collision repeated)) ∧
    ([start, 0, 5].Nodup ∧ inOrder start 0 5 = .ok true) ∧
    (inOrder start 5 7 = .ok true ∧ inOrder start 0 7 = .ok true) := by
  intro start
  have htwice : ¬[start, 5, start].Nodup := by decide
  have hdistinct : [start, 0, 5].Nodup := by decide
  have hnear : inOrder start 0 5 = .ok true :=
    ((inOrder_cyclic start 0 5 7).2.1 hdistinct).trans (by decide)
  have hfar : inOrder start 5 7 = .ok true := by decide
  exact ⟨⟨htwice, (inOrder_cyclic start 5 start 7).1 htwice⟩, ⟨hdistinct, hnear⟩, hfar,
    (inOrder_cyclic start 0 5 7).2.2.2.2 hnear hfar⟩

end ReplicaRing.Position
