import ReplicaRing.Proofs.Codec.Envelope

/-! How many bytes each reader takes, at least. -/

namespace ReplicaRing

structure Bytes.Leaves (bytes : Bytes) (count : Nat) (rest : Bytes) : Prop where
  suffix : rest <:+ bytes
  count_le : count + rest.length ≤ bytes.length

namespace Bytes.Leaves

variable {bytes middle rest : Bytes} {first : UInt8} {count more fewer : Nat}

theorem of_suffix (h : rest <:+ bytes) : bytes.Leaves 0 rest :=
  ⟨h, by simpa using h.length_le⟩

theorem append (field rest : Bytes) : (field ++ rest).Leaves field.length rest :=
  ⟨List.suffix_append _ _, by simp⟩

theorem mono (h : bytes.Leaves count rest) (hle : fewer ≤ count) : bytes.Leaves fewer rest :=
  ⟨h.suffix, Nat.le_trans (Nat.add_le_add_right hle _) h.count_le⟩

theorem trans (h : bytes.Leaves count middle) (hrest : middle.Leaves more rest) :
    bytes.Leaves (count + more) rest := by
  refine ⟨hrest.suffix.trans h.suffix, ?_⟩
  have hfirst := h.count_le
  have hthen := hrest.count_le
  omega

private theorem cons (first : UInt8) (h : bytes.Leaves count rest) :
    Leaves (first :: bytes) (count + 1) rest :=
  ⟨h.suffix.trans (List.suffix_cons _ _), by
    have hcount := h.count_le
    rw [List.length_cons]
    omega⟩

end Bytes.Leaves

namespace Cbor

open Bytes (Leaves)

namespace Header

variable {bytes rest : Bytes} {first : UInt8} {info value major : Nat} {argument : Option Nat}
  {header : Header}

inductive Argument (info : Nat) (rest : Bytes) : Bytes → Option Nat → Prop
  | small (h : info < 24) : Argument info rest rest (some info)
  | field (field : Bytes) (h : 24 ≤ info ∧ info < 28) (hlength : field.length = 1 <<< (info - 24)) :
      Argument info rest (field ++ rest) (some field.toNat)
  | missing (h : info = 31) : Argument info rest rest none

private theorem argument_of_readArgument (h : readArgument info bytes = some (argument, rest)) :
    Argument info rest bytes argument := by
  unfold readArgument at h
  split at h
  case isTrue hsmall =>
    cases h
    exact .small hsmall
  case isFalse hlow =>
    split at h
    case isTrue hhigh =>
      simp only at h
      split at h
      case isTrue => cases h
      case isFalse hlength =>
        cases h
        have hwidth : (bytes.take (1 <<< (info - 24))).length = 1 <<< (info - 24) := by
          rw [List.length_take] at hlength ⊢
          omega
        have hfield : Argument info (bytes.drop (1 <<< (info - 24))) _ _ :=
          .field (bytes.take (1 <<< (info - 24))) ⟨by omega, hhigh⟩ hwidth
        rwa [List.take_append_drop] at hfield
    case isFalse =>
      split at h
      case isTrue hopen =>
        cases h
        exact .missing hopen
      case isFalse => cases h

private theorem Argument.leaves (h : Argument info rest bytes (some value)) :
    bytes.Leaves (headerLength value - 1) rest := by
  cases h with
  | small h =>
      rw [headerLength, if_pos h]
      exact .of_suffix List.suffix_rfl
  | field field h hlength =>
      refine (Leaves.append field rest).mono ?_
      have hvalue := Bytes.toNat_lt field
      rw [hlength] at hvalue ⊢
      unfold headerLength
      obtain rfl | rfl | rfl | rfl : info = 24 ∨ info = 25 ∨ info = 26 ∨ info = 27 := by omega
      all_goals
        simp only [Nat.reduceSub, Nat.reduceShiftLeft, Nat.reducePow] at hvalue ⊢
        repeat' split
        all_goals omega

/-- The upper bits of the first byte with the number of a header, for headers that these give away. -/
def parts? : Header → Option (Nat × Option Nat)
  | .unsigned value => some (0, some value)
  | .bytes length => some (2, length)
  | .array length => some (4, length)
  | .map length => some (5, length)
  | .stop => some (7, none)
  | _ => none

private theorem of?_eq_some (h : of? first argument = some header)
    (hparts : header.parts? = some (major, length)) :
    first.toNat / 32 = major ∧ argument = length := by
  unfold of? at h
  split at h
  case h_8 =>
    split at h
    all_goals
      cases h
      cases hparts
  case h_10 => cases h
  case h_2 | h_4 | h_7 =>
    cases h
    cases hparts
  all_goals
    cases h
    cases hparts
    exact ⟨by assumption, rfl⟩

private theorem read_eq_some (h : read bytes = some (header, rest)) :
    ∃ first tail argument, bytes = first :: tail ∧
      Argument (first.toNat % 32) rest tail argument ∧ of? first argument = some header := by
  cases bytes with
  | nil => cases h
  | cons first tail =>
      simp only [read, Option.bind_eq_bind, Option.bind_eq_some_iff, Prod.exists, Option.pure_def,
        Option.some.injEq, Prod.mk.injEq] at h
      obtain ⟨argument, after, hargument, parsed, hparsed, rfl, rfl⟩ := h
      exact ⟨first, tail, argument, rfl, argument_of_readArgument hargument, hparsed⟩

private theorem Argument.suffix (h : Argument info rest bytes argument) : rest <:+ bytes := by
  cases h with
  | small | missing => exact List.suffix_rfl
  | field field => exact List.suffix_append _ _

theorem leaves_of_read (h : read bytes = some (header, rest)) : bytes.Leaves 1 rest := by
  obtain ⟨first, tail, argument, rfl, hargument, -⟩ := read_eq_some h
  exact (Leaves.of_suffix hargument.suffix).cons first

theorem leaves_of_read_number (h : read bytes = some (header, rest))
    (hparts : header.parts? = some (major, some value)) :
    bytes.Leaves (headerLength value) rest := by
  obtain ⟨first, tail, argument, rfl, hargument, hof⟩ := read_eq_some h
  obtain ⟨-, rfl⟩ := of?_eq_some hof hparts
  refine (hargument.leaves.cons first).mono ?_
  omega

theorem eq_of_read_open (h : read bytes = some (header, rest))
    (hparts : header.parts? = some (major, none)) :
    bytes = UInt8.ofNat (major * 32 + 31) :: rest := by
  obtain ⟨first, tail, argument, rfl, hargument, hof⟩ := read_eq_some h
  obtain ⟨hmajor, rfl⟩ := of?_eq_some hof hparts
  cases hargument with
  | missing hinfo =>
      have hfirst : first = UInt8.ofNat (major * 32 + 31) := by
        apply UInt8.toNat.inj
        rw [UInt8.toNat_ofNat']
        have := first.toNat_lt
        omega
      rw [hfirst]

private theorem read_unsigned (h : read bytes = some (.unsigned value, rest)) :
    (value < 24 ∧ bytes = UInt8.ofNat value :: rest) ∨ bytes.Leaves 2 rest := by
  obtain ⟨first, tail, argument, rfl, hargument, hof⟩ := read_eq_some h
  obtain ⟨hmajor, rfl⟩ := of?_eq_some hof rfl
  cases hargument with
  | small hsmall =>
      refine .inl ⟨hsmall, ?_⟩
      have hfirst : first = UInt8.ofNat (first.toNat % 32) := by
        apply UInt8.toNat.inj
        rw [UInt8.toNat_ofNat']
        omega
      rw [← hfirst]
  | field field hinfo hlength =>
      have hpos : 0 < field.length := by
        rw [hlength, Nat.shiftLeft_eq, Nat.one_mul]
        exact Nat.two_pow_pos _
      exact .inr (((Leaves.append field rest).mono hpos).cons first)

end Header

variable {bytes rest content : Bytes} {count fuel : Nat} {header : Header} {isText : Bool}

private theorem leaves_of_readExactly (h : readExactly count bytes = some (content, rest)) :
    content.length = count ∧ bytes.Leaves count rest := by
  unfold readExactly at h
  simp only at h
  split at h
  case isTrue => cases h
  case isFalse hlength =>
    cases h
    have htake : (bytes.take count).length = count := by
      rw [List.length_take] at hlength ⊢
      omega
    have hleaves := Leaves.append (bytes.take count) (bytes.drop count)
    rw [List.take_append_drop, htake] at hleaves
    exact ⟨htake, hleaves⟩

/-- Every chunk has a header, and every string without a length has a stop. -/
theorem leaves_of_readChunks {nesting : Nat} {chunks : List Bytes}
    (h : readChunks isText fuel nesting bytes = some (chunks, rest)) :
    bytes.Leaves (chunks.flatten.length + chunks.length + nesting + 1) rest := by
  induction fuel generalizing nesting bytes chunks with
  | zero => cases h
  | succ fuel ih =>
      rw [readChunks, Option.bind_eq_bind, Option.bind_eq_some_iff] at h
      obtain ⟨⟨header, after⟩, hheader, h⟩ := h
      have hfirst := Header.leaves_of_read hheader
      simp only at h
      split at h
      case isTrue hstop =>
        split at h
        case isTrue hend =>
          cases h
          exact hfirst.mono (by simp [hend])
        case isFalse hinner => exact (hfirst.trans (ih h)).mono (by omega)
      case isFalse =>
        rw [Option.bind_eq_bind, Option.bind_eq_some_iff] at h
        obtain ⟨length, hlength, h⟩ := h
        cases length with
        | none => exact (hfirst.trans (ih h)).mono (by omega)
        | some length =>
            simp only [Option.bind_eq_bind, Option.bind_eq_some_iff, Prod.exists] at h
            obtain ⟨chunk, middle, hchunk, h⟩ := h
            obtain ⟨hsize, hleaves⟩ := leaves_of_readExactly hchunk
            split at h
            case isTrue => cases h
            case isFalse =>
              rw [Option.bind_eq_some_iff] at h
              obtain ⟨⟨later, final⟩, hlater, h⟩ := h
              cases h
              refine ((hfirst.trans hleaves).trans (ih hlater)).mono ?_
              simp only [List.flatten_cons, List.length_append, List.length_cons]
              omega

theorem leaves_of_readString_some {length : Nat}
    (h : readString isText (some length) bytes = some (content, rest)) :
    content.length = length ∧ bytes.Leaves length rest := by
  rw [readString, Option.bind_eq_bind, Option.bind_eq_some_iff] at h
  obtain ⟨⟨field, after⟩, hfield, h⟩ := h
  simp only at h
  split at h
  case isTrue => cases h
  case isFalse =>
    cases h
    exact leaves_of_readExactly hfield

theorem leaves_of_readString_none (h : readString isText none bytes = some (content, rest)) :
    bytes.Leaves (content.length + min content.length 1 + 1) rest := by
  rw [readString, Option.bind_eq_bind, Option.bind_eq_some_iff] at h
  obtain ⟨⟨chunks, after⟩, hchunks, h⟩ := h
  cases h
  have hleaves := leaves_of_readChunks hchunks
  cases chunks with
  | nil => exact hleaves.mono (by simp)
  | cons chunk later =>
      refine hleaves.mono ?_
      rw [List.length_cons]
      omega

theorem suffix_of_readString {length : Option Nat}
    (h : readString isText length bytes = some (content, rest)) : rest <:+ bytes := by
  cases length with
  | none => exact (leaves_of_readString_none h).suffix
  | some length => exact (leaves_of_readString_some h).2.suffix

theorem exists_read_of_readUntagged (h : readUntagged fuel bytes = some (header, rest)) :
    ∃ start : Bytes, start <:+ bytes ∧ Header.read start = some (header, rest) := by
  induction fuel generalizing bytes with
  | zero => cases h
  | succ fuel ih =>
      rw [readUntagged, Option.bind_eq_bind, Option.bind_eq_some_iff] at h
      obtain ⟨⟨first, after⟩, hfirst, h⟩ := h
      simp only at h
      split at h
      case h_1 =>
        obtain ⟨start, hstart, hread⟩ := ih h
        exact ⟨start, hstart.trans (Header.leaves_of_read hfirst).suffix, hread⟩
      case h_2 =>
        cases h
        exact ⟨bytes, List.suffix_rfl, hfirst⟩

private theorem leaves_of_readUnsignedFrom {value : Nat}
    (h : readUnsignedFrom fuel bytes = some (value, rest)) :
    (value < 24 ∧ bytes = UInt8.ofNat value :: rest) ∨ bytes.Leaves 2 rest := by
  induction fuel generalizing bytes with
  | zero => cases h
  | succ fuel ih =>
      rw [readUnsignedFrom, Option.bind_eq_bind, Option.bind_eq_some_iff] at h
      obtain ⟨⟨first, after⟩, hfirst, h⟩ := h
      have hleaves := Header.leaves_of_read hfirst
      simp only at h
      split at h
      case h_1 =>
        cases h
        exact Header.read_unsigned hfirst
      case h_2 =>
        simp only [Option.bind_eq_bind, Option.bind_eq_some_iff, Prod.exists] at h
        obtain ⟨inner, middle, hinner, length, -, digits, final, hdigits, h⟩ := h
        split at h
        case isTrue =>
          cases h
          have hthen := (Header.leaves_of_read hinner).trans (.of_suffix (suffix_of_readString hdigits))
          exact .inr (hleaves.trans hthen)
        case isFalse => cases h
      case h_3 => cases h
      case h_4 =>
        refine .inr ?_
        rcases ih h with ⟨-, rfl⟩ | hmore
        · exact hleaves.trans (Leaves.append [UInt8.ofNat value] rest)
        · exact (hleaves.trans hmore).mono (by omega)
      case h_5 => cases h

private theorem leaves_one_of_readUnsignedFrom {value : Nat}
    (h : readUnsignedFrom fuel bytes = some (value, rest)) : bytes.Leaves 1 rest := by
  rcases leaves_of_readUnsignedFrom h with ⟨-, rfl⟩ | hmore
  · exact Leaves.append [UInt8.ofNat value] rest
  · exact hmore.mono (by omega)

private theorem readByteElements_step {left : Option Nat} (hleft : left ≠ some 0)
    (h : readByteElements (fuel + 1) left bytes = some (content, rest)) :
    (left = none ∧ bytes = 0xFF :: rest ∧ content = []) ∨
      ∃ value middle later, readUnsignedFrom (fuel + 1) bytes = some (value, middle) ∧
        readByteElements fuel (left.map (· - 1)) middle = some (later, rest) ∧
        content = UInt8.ofNat value :: later := by
  unfold readByteElements at h
  split at h
  case h_1 => exact absurd rfl hleft
  case h_2 hzero _ => cases hzero
  case h_3 hfuel _ =>
    cases hfuel
    split at h
    case h_1 hstop _ =>
      cases h
      exact .inl ⟨rfl, Header.eq_of_read_open hstop rfl, rfl⟩
    case h_2 =>
      rw [Option.bind_eq_bind, Option.bind_eq_some_iff] at h
      obtain ⟨⟨value, middle⟩, hvalue, h⟩ := h
      simp only at h
      split at h
      case isFalse => cases h
      case isTrue =>
        rw [Option.bind_eq_bind, Option.bind_eq_some_iff] at h
        obtain ⟨⟨later, final⟩, hlater, h⟩ := h
        cases h
        exact .inr ⟨value, middle, later, hvalue, hlater, rfl⟩

theorem leaves_of_readByteElements_some
    (h : readByteElements fuel (some count) bytes = some (content, rest)) :
    content.length = count ∧ bytes.Leaves count rest := by
  induction fuel generalizing count bytes content with
  | zero =>
      cases count with
      | zero =>
          cases h
          exact ⟨rfl, .of_suffix List.suffix_rfl⟩
      | succ count => cases h
  | succ fuel ih =>
      cases count with
      | zero =>
          cases h
          exact ⟨rfl, .of_suffix List.suffix_rfl⟩
      | succ count =>
          obtain ⟨hnone, -⟩ | ⟨value, middle, later, hvalue, hlater, rfl⟩ :=
            readByteElements_step (by simp) h
          · cases hnone
          · rw [Option.map_some, Nat.add_sub_cancel] at hlater
            obtain ⟨hlength, hleaves⟩ := ih hlater
            refine ⟨by rw [List.length_cons, hlength], ?_⟩
            exact ((leaves_one_of_readUnsignedFrom hvalue).trans hleaves).mono (by omega)

/-- An array without a length takes a byte for each element and one for the stop only where each element
is below 24. -/
theorem leaves_of_readByteElements_none
    (h : readByteElements fuel none bytes = some (content, rest)) :
    (bytes = content ++ 0xFF :: rest ∧ ∀ byte ∈ content, byte < 24) ∨
      bytes.Leaves (content.length + 2) rest := by
  induction fuel generalizing bytes content with
  | zero => cases h
  | succ fuel ih =>
      obtain ⟨-, rfl, rfl⟩ | ⟨value, middle, later, hvalue, hlater, rfl⟩ :=
        readByteElements_step (by simp) h
      · exact .inl ⟨rfl, by simp⟩
      · rcases ih hlater with ⟨rfl, hsmall⟩ | hmore
        · rcases leaves_of_readUnsignedFrom hvalue with ⟨hlt, rfl⟩ | htwo
          · refine .inl ⟨rfl, fun byte hbyte => ?_⟩
            rcases List.mem_cons.mp hbyte with rfl | hbyte
            · rw [UInt8.lt_iff_toNat_lt, UInt8.toNat_ofNat']
              simp only [UInt8.reduceToNat]
              omega
            · exact hsmall byte hbyte
          · have hthen := Leaves.append (later ++ [0xFF]) rest
            rw [List.append_assoc] at hthen
            refine .inr ((htwo.trans hthen).mono ?_)
            rw [List.length_append, List.length_cons, List.length_singleton]
            omega
        · refine .inr (((leaves_one_of_readUnsignedFrom hvalue).trans hmore).mono ?_)
          rw [List.length_cons]
          omega

end Cbor

end ReplicaRing
