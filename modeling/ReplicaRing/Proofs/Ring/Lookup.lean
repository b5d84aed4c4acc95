import ReplicaRing.Proofs.Ring.Building
import ReplicaRing.Proofs.Ring.Locate

/-!
The search for the token of a key against a plain count: the index it finds is one less than the number
of tokens at or below the key, or that of the last token when there are none.
-/

namespace ReplicaRing

/-- The index of the last token at or below a key among the tokens in the order of their positions, and of
the last token of all when every one is above the key. -/
def Token.lastIndexUpTo (key : Position) (tokens : List Token) : Nat :=
  let count := tokens.countP fun token => token.position ≤ key
  if count = 0 then tokens.length - 1 else count - 1

private theorem Token.lastIndexUpTo_perm {tokens others : List Token} (key : Position)
    (h : tokens.Perm others) : lastIndexUpTo key tokens = lastIndexUpTo key others := by
  rw [lastIndexUpTo, lastIndexUpTo, h.countP_eq, h.length_eq]

private theorem countP_eq_of_getElem {Item : Type} {test : Item → Bool} {items : List Item}
    {count : Nat}
    (hcount : count ≤ items.length)
    (hbefore : ∀ index (h : index < items.length), index < count → test items[index])
    (hafter : ∀ index (h : index < items.length), count ≤ index → ¬test items[index]) :
    items.countP test = count := by
  have hfirst : (items.take count).countP test = (items.take count).length := by
    rw [List.countP_eq_length]
    intro item hitem
    obtain ⟨index, hindex, rfl⟩ := List.mem_take_iff_getElem.mp hitem
    exact hbefore index (by omega) (by omega)
  have hrest : (items.drop count).countP test = 0 := by
    rw [List.countP_eq_zero]
    intro item hitem
    obtain ⟨index, hindex, rfl⟩ := List.mem_drop_iff_getElem.mp hitem
    exact hafter (count + index) (by omega) (Nat.le_add_right _ _)
  calc
    items.countP test = (items.take count).countP test + (items.drop count).countP test := by
      rw [← List.countP_append, List.take_append_drop]
    _ = count := by rw [hfirst, hrest, List.length_take, Nat.add_zero, Nat.min_eq_left hcount]

namespace Ring

variable {ring : Ring} {key : Position} {index : Fin ring.size}

theorem Governs.val_eq (h : ring.Governs key index) :
    index.val = Token.lastIndexUpTo key ring.tokens.toList := by
  have hlength : ring.tokens.toList.length = ring.size := Array.length_toList
  cases h with
  | below hbelow habove =>
      have hcount : ring.tokens.toList.countP (fun token => token.position ≤ key) =
          index.val + 1 := by
        apply countP_eq_of_getElem
        · omega
        · intro before hbefore hlt
          have hle : ring.position ⟨before, by omega⟩ ≤ ring.position index :=
            position_le (Fin.mk_le_of_le_val (by omega))
          exact decide_eq_true (BitVec.le_trans hle hbelow)
        · intro after hafter hlt
          have hlater := habove ⟨after, by omega⟩ (Fin.lt_def.mpr hlt)
          simpa [position] using hlater
      rw [Token.lastIndexUpTo, hcount]
      rfl
  | last hlast habove =>
      have hcount : ring.tokens.toList.countP (fun token => token.position ≤ key) = 0 := by
        apply countP_eq_of_getElem (Nat.zero_le _)
        · intro _ _ hlt
          exact absurd hlt (Nat.not_lt_zero _)
        · intro after hafter _
          have hlater := habove ⟨after, by omega⟩
          simpa [position] using hlater
      rw [Token.lastIndexUpTo, hcount, hlength, if_pos rfl]
      omega

/-- Whatever tokens with distinct positions a ring is made of, every key has an index on it, which is that
of the last position at or below the key, and of the last of all when the key is below every position. -/
theorem locate_exact {tokens : List Token} (hdistinct : (tokens.map Token.position).Nodup)
    (key : Position) :
    ∃ ring, ofTokens tokens = .ok ring ∧
      (tokens = [] → ring.locate key = .error .empty) ∧
      (tokens ≠ [] → ∃ index : Fin ring.size,
        ring.locate key = .ok index ∧
        index.val = Token.lastIndexUpTo key tokens ∧
        ((ring.position index ≤ key ∧ ∀ other, index < other → key < ring.position other) ∨
          (index.val + 1 = ring.size ∧ ∀ other, key < ring.position other))) := by
  obtain ⟨ring, hring⟩ := exists_of_nodup hdistinct
  have hperm := perm_of_ofTokens hring
  have hsize : ring.size = tokens.length := hperm.length_eq
  refine ⟨ring, hring, fun hnone => ?_, fun hsome => ?_⟩
  · rw [hnone] at hsize
    exact locate_of_size_eq_zero hsize key
  · have hpos : 0 < ring.size := hsize ▸ List.length_pos_of_ne_nil hsome
    obtain ⟨index, hlocate, hgoverns⟩ := ring.locate_governs key hpos
    refine ⟨index, hlocate, ?_, ?_⟩
    · rw [hgoverns.val_eq, Token.lastIndexUpTo_perm key hperm]
    · cases hgoverns with
      | below hbelow habove => exact .inl ⟨hbelow, habove⟩
      | last hlast habove => exact .inr ⟨hlast, habove⟩

def scattered : List Token :=
  [300, 100, 200].map fun position => ⟨⟨"a", .localhost 1, 3⟩, 0, position⟩

theorem locate_exact_of_scattered :
    (scattered.map Token.position).Nodup ∧
      ∃ ring, ofTokens scattered = .ok ring ∧
        (∃ index, ring.locate 250 = .ok index ∧ index.val = 1) ∧
        ∃ index, ring.locate 50 = .ok index ∧ index.val = 2 := by
  have hdistinct : (scattered.map Token.position).Nodup := by decide
  have hsome : scattered ≠ [] := by decide
  obtain ⟨ring, hring, -, hbetween⟩ := locate_exact hdistinct 250
  obtain ⟨other, hother, -, hbelow⟩ := locate_exact hdistinct 50
  obtain rfl : ring = other := Except.ok.inj (hring.symm.trans hother)
  obtain ⟨index, hlocate, hindex, -⟩ := hbetween hsome
  obtain ⟨wrapped, hlocateWrapped, hwrapped, -⟩ := hbelow hsome
  exact ⟨hdistinct, ring, hring, ⟨index, hlocate, hindex.trans (by decide)⟩,
    wrapped, hlocateWrapped, hwrapped.trans (by decide)⟩

end Ring

end ReplicaRing
