import ReplicaRing.Blob

/-!
Every page of every blob has a key of its own.  The number of the page is read off what stands after the last
dot, since digits are no dots, and the key of the blob is what stands before it.
-/

namespace ReplicaRing

private theorem eq_nil_of_cons_eq_append {Item : Type} {separator : Item}
    {middle rest more : List Item}
    (hrest : separator ∉ rest) (h : separator :: rest = middle ++ separator :: more) :
    middle = [] := by
  cases middle with
  | nil => rfl
  | cons first middle =>
      obtain ⟨-, hafter⟩ := List.cons.inj h
      exact absurd (hafter ▸ List.mem_append_right middle List.mem_cons_self) hrest

private theorem eq_of_append_cons {Item : Type} {separator : Item}
    {front other rest more : List Item}
    (hrest : separator ∉ rest) (hmore : separator ∉ more)
    (h : front ++ separator :: rest = other ++ separator :: more) : front = other ∧ rest = more := by
  rcases List.append_eq_append_iff.mp h with ⟨middle, hother, hafter⟩ | ⟨middle, hfront, hafter⟩
  · obtain rfl := eq_nil_of_cons_eq_append hrest hafter
    exact ⟨by simpa using hother.symm, by simpa using hafter⟩
  · obtain rfl := eq_nil_of_cons_eq_append hmore hafter
    exact ⟨by simpa using hfront, by simpa using hafter.symm⟩

namespace Hex

def valueOfAscii (bytes : Bytes) : Nat :=
  bytes.foldl (fun value byte => value * 16 + (value? (Char.ofNat byte.toNat)).getD 0) 0

private theorem value?_digit {value : Nat} (h : value < 16) :
    value? (Char.ofNat (UInt8.ofNat (digit value).toNat).toNat) = some value := by
  have hall : ∀ value : Fin 16,
      value? (Char.ofNat (UInt8.ofNat (digit value).toNat).toNat) = some value.val := by decide
  exact hall ⟨value, h⟩

private theorem valueOfAscii_append_digit (bytes : Bytes) {value : Nat} (h : value < 16) :
    valueOfAscii (bytes ++ [UInt8.ofNat (digit value).toNat]) =
      valueOfAscii bytes * 16 + value := by
  rw [valueOfAscii, List.foldl_append, List.foldl_cons, List.foldl_nil, value?_digit h]
  rfl

private theorem valueOfAscii_zeros (count : Nat) :
    valueOfAscii (List.replicate count (UInt8.ofNat '0'.toNat)) = 0 := by
  induction count with
  | zero => rfl
  | succ count ih =>
      rw [List.replicate_succ', show '0' = digit 0 by rfl, valueOfAscii_append_digit _ (by decide)]
      rw [show digit 0 = '0' by rfl, ih]

private theorem valueOfAscii_zeros_digits (count n : Nat) :
    valueOfAscii (List.replicate count (UInt8.ofNat '0'.toNat) ++
      (digits n).map fun c => UInt8.ofNat c.toNat) = n := by
  fun_induction digits n with
  | case1 n hsmall =>
      rw [List.map_singleton, valueOfAscii_append_digit _ hsmall, valueOfAscii_zeros, Nat.zero_mul,
        Nat.zero_add]
  | case2 n hlarge ih =>
      rw [List.map_append, List.map_singleton, ← List.append_assoc,
        valueOfAscii_append_digit _ (Nat.mod_lt n (by decide)), ih]
      omega

private theorem valueOfAscii_padded (width n : Nat) :
    valueOfAscii ((padded width n).map fun c => UInt8.ofNat c.toNat) = n := by
  rw [padded, List.map_append, List.map_replicate]
  exact valueOfAscii_zeros_digits _ n

private theorem mem_digits {n : Nat} {c : Char} (h : c ∈ digits n) :
    ∃ value < 16, c = digit value := by
  fun_induction digits n with
  | case1 n hsmall => exact ⟨n, hsmall, List.mem_singleton.mp h⟩
  | case2 n hlarge ih =>
      rcases List.mem_append.mp h with hfirst | hlast
      · exact ih hfirst
      · exact ⟨n % 16, Nat.mod_lt n (by decide), List.mem_singleton.mp hlast⟩

private theorem mem_padded {width n : Nat} {c : Char} (h : c ∈ padded width n) :
    ∃ value < 16, c = digit value := by
  rcases List.mem_append.mp h with hzero | hdigit
  · exact ⟨0, by decide, List.eq_of_mem_replicate hzero⟩
  · exact mem_digits hdigit

private theorem dot_notMem_padded (width n : Nat) :
    UInt8.ofNat '.'.toNat ∉ (padded width n).map fun c => UInt8.ofNat c.toNat := by
  have hall : ∀ value : Fin 16, UInt8.ofNat (digit value).toNat ≠ UInt8.ofNat '.'.toNat := by decide
  intro hdot
  obtain ⟨c, hc, hbyte⟩ := List.mem_map.mp hdot
  obtain ⟨value, hvalue, rfl⟩ := mem_padded hc
  exact hall ⟨value, hvalue⟩ hbyte

end Hex

namespace Blob

theorem pageKey_inj {blob other : Blob} {page number : Nat} :
    blob.pageKey page = other.pageKey number ↔ blob.key = other.key ∧ page = number := by
  constructor
  · intro h
    obtain ⟨hkey, hdigits⟩ := eq_of_append_cons (Hex.dot_notMem_padded 8 page)
      (Hex.dot_notMem_padded 8 number) h
    refine ⟨hkey, ?_⟩
    rw [← Hex.valueOfAscii_padded 8 page, hdigits, Hex.valueOfAscii_padded]
  · rintro ⟨hkey, rfl⟩
    rw [pageKey, hkey, pageKey]

theorem pageKey_injective (blob : Blob) {page other : Nat}
    (h : blob.pageKey page = blob.pageKey other) : page = other :=
  (pageKey_inj.mp h).2

theorem pageKey_ne_key (blob : Blob) (page : Nat) : blob.pageKey page ≠ blob.key := by
  intro h
  have hlength := congrArg List.length h
  simp [pageKey] at hlength

end Blob

end ReplicaRing
