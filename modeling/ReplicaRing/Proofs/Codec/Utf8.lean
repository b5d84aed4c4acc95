import Mathlib.Data.List.Forall2
import ReplicaRing.Text.Utf8

/-! A fault is found in bytes exactly when they are not the UTF-8 form of a text. -/

namespace ReplicaRing

namespace Bytes

private theorem ofText_eq_flatMap (text : String) :
    ofText text = text.toList.flatMap String.utf8EncodeChar := by
  rw [ofText, ← String.utf8Encode_toList, List.utf8Encode]
  simp

private theorem isText_iff {bytes : Bytes} :
    bytes.IsText ↔ ∃ chars : List Char, bytes = chars.flatMap String.utf8EncodeChar := by
  constructor
  · intro h
    refine ⟨(bytes.toText h).toList, ?_⟩
    rw [← ofText_eq_flatMap, ofText_toText]
  · rintro ⟨chars, rfl⟩
    exact ⟨chars, by simp [List.utf8Encode, ByteArray.ext_iff]⟩

private theorem zero_mem_encode {char : Char} : 0 ∈ String.utf8EncodeChar char ↔ char = '\x00' := by
  constructor
  · intro h
    unfold String.utf8EncodeChar at h
    simp only at h
    split at h
    case isTrue hsmall =>
      have hzero : char.val.toNat % 256 = 0 := by
        simpa [← UInt8.toNat_inj, eq_comm] using h
      apply Char.ext
      apply UInt32.toNat.inj
      change char.val.toNat = 0
      omega
    case isFalse =>
      have hvalid := char.valid
      have hlarge := char.val.toNat_lt
      split at h
      case' isFalse => split at h
      all_goals
        simp only [List.mem_cons, List.not_mem_nil, or_false, ← UInt8.toNat_inj,
          UInt8.toNat_ofNat', UInt8.toNat_zero] at h
        omega
  · rintro rfl
    decide

theorem zero_mem_ofText {text : String} : 0 ∈ ofText text ↔ '\x00' ∈ text.toList := by
  simp only [ofText_eq_flatMap, List.mem_flatMap, zero_mem_encode, exists_eq_right]

end Bytes

namespace Utf8

inductive Follows (first : Nat) : List (UInt8 × UInt8) → Prop
  | none (h : first ≤ 0x7F) : Follows first []
  | one (hlow : 0xC2 ≤ first) (hhigh : first ≤ 0xDF) : Follows first [(0x80, 0xBF)]
  | twoLow (h : first = 0xE0) : Follows first [(0xA0, 0xBF), (0x80, 0xBF)]
  | twoSurrogate (h : first = 0xED) : Follows first [(0x80, 0x9F), (0x80, 0xBF)]
  | two (hlow : 0xE1 ≤ first) (hhigh : first ≤ 0xEF) (hne : first ≠ 0xED) :
      Follows first [(0x80, 0xBF), (0x80, 0xBF)]
  | threeLow (h : first = 0xF0) : Follows first [(0x90, 0xBF), (0x80, 0xBF), (0x80, 0xBF)]
  | three (hlow : 0xF1 ≤ first) (hhigh : first ≤ 0xF3) :
      Follows first [(0x80, 0xBF), (0x80, 0xBF), (0x80, 0xBF)]
  | threeHigh (h : first = 0xF4) : Follows first [(0x80, 0x8F), (0x80, 0xBF), (0x80, 0xBF)]

private theorem follows_of_tails {first : UInt8} {allowed : List (UInt8 × UInt8)}
    (h : tails first = some allowed) : Follows first.toNat allowed := by
  simp only [tails, UInt8.lt_iff_toNat_lt, ← UInt8.toNat_inj, UInt8.reduceToNat] at h
  split at h
  · cases h
    exact .none (by omega)
  split at h
  · cases h
  split at h
  · cases h
    exact .one (by omega) (by omega)
  split at h
  · cases h
    exact .twoLow (by omega)
  split at h
  · cases h
    exact .twoSurrogate (by omega)
  split at h
  · cases h
    exact .two (by omega) (by omega) (by omega)
  split at h
  · cases h
    exact .threeLow (by omega)
  split at h
  · cases h
    exact .three (by omega) (by omega)
  split at h
  · cases h
    exact .threeHigh (by omega)
  · cases h

private theorem tails_of_follows {first : UInt8} {allowed : List (UInt8 × UInt8)}
    (h : Follows first.toNat allowed) : tails first = some allowed := by
  simp only [tails, UInt8.lt_iff_toNat_lt, ← UInt8.toNat_inj, UInt8.reduceToNat]
  generalize first.toNat = number at h
  cases h with
  | none h => rw [if_pos (by omega)]
  | one | two | three => grind
  | twoLow h | twoSurrogate h | threeLow h | threeHigh h =>
      subst h
      rfl

def Within (byte : UInt8) (range : UInt8 × UInt8) : Prop := range.1 ≤ byte ∧ byte ≤ range.2

private theorem within_ofNat {number : Nat} {low high : UInt8} (hlow : low.toNat ≤ number)
    (hhigh : number ≤ high.toNat) : Within (UInt8.ofNat number) (low, high) := by
  have := high.toNat_lt
  simp only [Within, UInt8.le_iff_toNat_le, UInt8.toNat_ofNat']
  omega

private theorem follows_ofNat {number : Nat} {allowed : List (UInt8 × UInt8)}
    (hsmall : number < 256)
    (h : Follows number allowed) : Follows (UInt8.ofNat number).toNat allowed := by
  rwa [UInt8.toNat_ofNat', Nat.mod_eq_of_lt hsmall]

private theorem within_trail (number : Nat) : Within (UInt8.ofNat (number % 64 + 0x80))
    (0x80, 0xBF) := by
  apply within_ofNat
  · exact Nat.le_add_left ..
  · change number % 64 + 0x80 ≤ 0xBF
    omega

private theorem encode_follows (char : Char) :
    ∃ first rest allowed, String.utf8EncodeChar char = first :: rest ∧
      Follows first.toNat allowed ∧ List.Forall₂ Within rest allowed := by
  have hvalid : char.val.toNat < 0xD800 ∨ 0xDFFF < char.val.toNat ∧ char.val.toNat < 0x110000 :=
    char.valid
  unfold String.utf8EncodeChar
  generalize char.val.toNat = number at hvalid
  have hlast := within_trail number
  have hsecond := within_trail (number / 64)
  have hthird := within_trail (number / 4096)
  simp only
  split
  · exact ⟨_, _, [], rfl, follows_ofNat (by omega) (.none (by omega)), .nil⟩
  split
  · exact ⟨_, _, _, rfl, follows_ofNat (by omega) (.one (by omega) (by omega)), .cons hlast .nil⟩
  split
  · have hrest : List.Forall₂ Within [UInt8.ofNat (number % 64 + 0x80)] [(0x80, 0xBF)] :=
      .cons hlast .nil
    rcases Nat.eq_zero_or_pos (number / 4096) with hlow | hpos
    · refine ⟨_, _, _, rfl, follows_ofNat (by omega) (.twoLow (by omega)), .cons ?_ hrest⟩
      exact within_ofNat (by simp; omega) (by simp; omega)
    by_cases hhigh : number / 4096 = 13
    · refine ⟨_, _, _, rfl, follows_ofNat (by omega) (.twoSurrogate (by omega)), .cons ?_ hrest⟩
      exact within_ofNat (by simp) (by simp; omega)
    · exact ⟨_, _, _, rfl, follows_ofNat (by omega) (.two (by omega) (by omega) (by omega)),
        .cons hsecond hrest⟩
  · have hrest : List.Forall₂ Within
        [UInt8.ofNat (number / 64 % 64 + 0x80), UInt8.ofNat (number % 64 + 0x80)]
        [(0x80, 0xBF), (0x80, 0xBF)] := .cons hsecond (.cons hlast .nil)
    rcases Nat.eq_zero_or_pos (number / 262144) with hlow | hpos
    · refine ⟨_, _, _, rfl, follows_ofNat (by omega) (.threeLow (by omega)), .cons ?_ hrest⟩
      exact within_ofNat (by simp; omega) (by simp; omega)
    by_cases hhigh : number / 262144 = 4
    · refine ⟨_, _, _, rfl, follows_ofNat (by omega) (.threeHigh (by omega)), .cons ?_ hrest⟩
      exact within_ofNat (by simp) (by simp; omega)
    · exact ⟨_, _, _, rfl, follows_ofNat (by omega) (.three (by omega) (by omega)),
        .cons hthird hrest⟩

private theorem exists_toNat_eq (number : Nat)
    (h : number < 0xD800 ∨ 0xDFFF < number ∧ number < 0x110000) :
    ∃ char : Char, char.val.toNat = number := by
  have hvalid : number.isValidChar := h
  exact ⟨Char.ofNatAux number hvalid, rfl⟩

private theorem ofNat_eq {number : Nat} (byte : UInt8) (h : number = byte.toNat) :
    UInt8.ofNat number = byte := by
  rw [h, UInt8.ofNat_toNat]

section Chars

variable {first second third fourth : UInt8}

private theorem exists_char_one (h : first.toNat ≤ 0x7F) :
    ∃ char, String.utf8EncodeChar char = [first] := by
  obtain ⟨char, hchar⟩ := exists_toNat_eq first.toNat (by omega)
  refine ⟨char, ?_⟩
  simp only [String.utf8EncodeChar, hchar]
  rw [if_pos h, UInt8.ofNat_toNat]

private theorem exists_char_two (hlow : 0xC2 ≤ first.toNat) (hhigh : first.toNat ≤ 0xDF)
    (hsecond : 0x80 ≤ second.toNat ∧ second.toNat ≤ 0xBF) :
    ∃ char, String.utf8EncodeChar char = [first, second] := by
  obtain ⟨char, hchar⟩ := exists_toNat_eq
    ((first.toNat - 0xC0) * 64 + (second.toNat - 0x80)) (by omega)
  refine ⟨char, ?_⟩
  simp only [String.utf8EncodeChar, hchar]
  rw [if_neg (by omega), if_pos (by omega), ofNat_eq first (by omega),
    ofNat_eq second (by omega)]

private theorem exists_char_three (hlow : 0xE0 ≤ first.toNat) (hhigh : first.toNat ≤ 0xEF)
    (hsecond : 0x80 ≤ second.toNat ∧ second.toNat ≤ 0xBF)
    (hthird : 0x80 ≤ third.toNat ∧ third.toNat ≤ 0xBF)
    (hlong : first.toNat = 0xE0 → 0xA0 ≤ second.toNat)
    (hsurrogate : first.toNat = 0xED → second.toNat ≤ 0x9F) :
    ∃ char, String.utf8EncodeChar char = [first, second, third] := by
  obtain ⟨char, hchar⟩ := exists_toNat_eq
    ((first.toNat - 0xE0) * 4096 + (second.toNat - 0x80) * 64 + (third.toNat - 0x80))
    (by omega)
  refine ⟨char, ?_⟩
  simp only [String.utf8EncodeChar, hchar]
  rw [if_neg (by omega), if_neg (by omega), if_pos (by omega), ofNat_eq first (by omega),
    ofNat_eq second (by omega), ofNat_eq third (by omega)]

private theorem exists_char_four (hlow : 0xF0 ≤ first.toNat) (hhigh : first.toNat ≤ 0xF4)
    (hsecond : 0x80 ≤ second.toNat ∧ second.toNat ≤ 0xBF)
    (hthird : 0x80 ≤ third.toNat ∧ third.toNat ≤ 0xBF)
    (hfourth : 0x80 ≤ fourth.toNat ∧ fourth.toNat ≤ 0xBF)
    (hlong : first.toNat = 0xF0 → 0x90 ≤ second.toNat)
    (hlast : first.toNat = 0xF4 → second.toNat ≤ 0x8F) :
    ∃ char, String.utf8EncodeChar char = [first, second, third, fourth] := by
  obtain ⟨char, hchar⟩ := exists_toNat_eq
    ((first.toNat - 0xF0) * 262144 + (second.toNat - 0x80) * 4096 +
      (third.toNat - 0x80) * 64 + (fourth.toNat - 0x80)) (by omega)
  refine ⟨char, ?_⟩
  simp only [String.utf8EncodeChar, hchar]
  rw [if_neg (by omega), if_neg (by omega), if_neg (by omega), ofNat_eq first (by omega),
    ofNat_eq second (by omega), ofNat_eq third (by omega),
    ofNat_eq fourth (by omega)]

end Chars

private theorem within_iff {byte low high : UInt8} :
    Within byte (low, high) ↔ low.toNat ≤ byte.toNat ∧ byte.toNat ≤ high.toNat := .rfl

private theorem exists_char {first : UInt8} {rest : Bytes} {allowed : List (UInt8 × UInt8)}
    (hfirst : Follows first.toNat allowed) (hrest : List.Forall₂ Within rest allowed) :
    ∃ char, String.utf8EncodeChar char = first :: rest := by
  cases hfirst with
  | none h =>
      cases hrest
      exact exists_char_one h
  | one hlow hhigh =>
      simp only [List.forall₂_cons_right_iff, List.forall₂_nil_right_iff, within_iff] at hrest
      obtain ⟨second, _, hsecond, rfl, rfl⟩ := hrest
      exact exists_char_two hlow hhigh hsecond
  | twoLow | twoSurrogate | two =>
      simp only [List.forall₂_cons_right_iff, List.forall₂_nil_right_iff, within_iff,
        UInt8.reduceToNat] at hrest
      obtain ⟨second, _, hsecond, ⟨third, _, hthird, rfl, rfl⟩, rfl⟩ := hrest
      exact exists_char_three (by omega) (by omega) (by omega) hthird (by omega) (by omega)
  | threeLow | three | threeHigh =>
      simp only [List.forall₂_cons_right_iff, List.forall₂_nil_right_iff, within_iff,
        UInt8.reduceToNat] at hrest
      obtain ⟨second, _, hsecond, ⟨third, _, hthird, ⟨fourth, _, hfourth, rfl, rfl⟩, rfl⟩, rfl⟩ :=
        hrest
      exact exists_char_four (by omega) (by omega) (by omega) hthird hfourth (by omega) (by omega)

/-- Bytes without a fault begin with what is still to come of a character, and then are text. -/
theorem faultFrom_eq_none_iff {start valid : Nat} {allowed : List (UInt8 × UInt8)} {bytes : Bytes} :
    faultFrom start valid allowed bytes = none ↔
      ∃ rest : Bytes, ∃ chars : List Char, bytes = rest ++ chars.flatMap String.utf8EncodeChar ∧
        List.Forall₂ Within rest allowed := by
  -- By the moves of the machine.  Where it stands between two characters, the next one is told apart
  -- by its first byte; inside a character the allowed ranges are used up one by one.
  fun_induction faultFrom start valid allowed bytes with
  | case1 => exact ⟨fun _ => ⟨[], [], rfl, .nil⟩, fun _ => rfl⟩
  | case2 start valid first allowed => simp [List.forall₂_cons_right_iff]
  | case3 start valid byte bytes hnone =>
      simp only [List.forall₂_nil_right_iff, reduceCtorEq, false_iff]
      rintro ⟨_, chars, heq, rfl⟩
      cases chars with
      | nil => cases heq
      | cons char chars =>
          obtain ⟨first, rest, allowed, hchar, hfirst, -⟩ := encode_follows char
          rw [List.nil_append, List.flatMap_cons, hchar] at heq
          cases heq
          rw [tails_of_follows hfirst] at hnone
          cases hnone
  | case4 start valid byte bytes allowed hsome ih =>
      rw [ih]
      simp only [List.forall₂_nil_right_iff]
      constructor
      · rintro ⟨rest, chars, rfl, hrest⟩
        obtain ⟨char, hchar⟩ := exists_char (follows_of_tails hsome) hrest
        refine ⟨[], char :: chars, ?_, rfl⟩
        rw [List.nil_append, List.flatMap_cons, hchar, List.cons_append]
      · rintro ⟨_, chars, heq, rfl⟩
        cases chars with
        | nil => cases heq
        | cons char chars =>
            obtain ⟨first, rest, ranges, hchar, hfirst, hrest⟩ := encode_follows char
            rw [List.nil_append, List.flatMap_cons, hchar] at heq
            cases heq
            rw [tails_of_follows hfirst] at hsome
            cases hsome
            exact ⟨rest, chars, rfl, hrest⟩
  | case5 start valid low high allowed byte bytes hwithin ih =>
      rw [ih]
      constructor
      · rintro ⟨rest, chars, rfl, hrest⟩
        exact ⟨byte :: rest, chars, rfl, .cons hwithin hrest⟩
      · rintro ⟨_, chars, heq, hrest⟩
        obtain ⟨first, rest, -, htail, rfl⟩ := List.forall₂_cons_right_iff.mp hrest
        cases heq
        exact ⟨rest, chars, rfl, htail⟩
  | case6 start valid low high allowed byte bytes hwithout =>
      simp only [reduceCtorEq, false_iff]
      rintro ⟨_, chars, heq, hrest⟩
      obtain ⟨first, rest, hfirst, -, rfl⟩ := List.forall₂_cons_right_iff.mp hrest
      cases heq
      exact hwithout hfirst

theorem fault?_eq_none_iff {bytes : Bytes} : fault? bytes = none ↔ bytes.IsText := by
  rw [fault?, faultFrom_eq_none_iff, Bytes.isText_iff]
  constructor
  · rintro ⟨rest, chars, rfl, hrest⟩
    cases hrest
    exact ⟨chars, rfl⟩
  · rintro ⟨chars, rfl⟩
    exact ⟨[], chars, rfl, .nil⟩

theorem exists_fault {bytes : Bytes} (h : ¬bytes.IsText) : ∃ fault, fault? bytes = some fault :=
  Option.ne_none_iff_exists'.mp (mt fault?_eq_none_iff.mp h)

end Utf8

end ReplicaRing
