import ReplicaRing.Proofs.Codec.Consumption

/-! How long an entry is written, against the payload it was read from. -/

namespace ReplicaRing

namespace Cbor

open Bytes (Leaves)

variable {bytes rest content : Bytes} {fuel : Nat}

/-- Numbers below 24 as an array without a length. -/
def writeOpen (content : Bytes) : Bytes := 0x9F :: content ++ [0xFF]

@[simp] theorem length_writeOpen (content : Bytes) :
    (writeOpen content).length = content.length + 2 := by
  simp [writeOpen]

private theorem read_of_lt {byte : UInt8} (h : byte < 24) (rest : Bytes) :
    Header.read (byte :: rest) = some (.unsigned byte.toNat, rest) := by
  have hbyte : byte.toNat < 24 := UInt8.lt_iff_toNat_lt.mp h
  have hwritten : writeHeader 0 byte.toNat = [byte] := by
    rw [writeHeader, if_pos hbyte]
    simp
  have hmajor : (0 : UInt8).toNat < 7 := by decide
  have hvalue : byte.toNat < 2 ^ 64 := by omega
  have hread := Header.read_writeHeader hmajor hvalue rest
  rw [hwritten] at hread
  exact hread

private theorem readByteElements_open (hsmall : ∀ byte ∈ content, byte < 24)
    (hfuel : content.length < fuel)
    (rest : Bytes) : readByteElements fuel none (content ++ 0xFF :: rest) = some (content, rest) := by
  induction content generalizing fuel with
  | nil =>
      obtain ⟨fuel, rfl⟩ := Nat.exists_eq_add_of_lt hfuel
      rfl
  | cons byte later ih =>
      obtain ⟨fuel, rfl⟩ : ∃ less, fuel = less + 1 := ⟨fuel - 1, by omega⟩
      have hbyte := read_of_lt (hsmall byte List.mem_cons_self) (later ++ 0xFF :: rest)
      have hnumber : readUnsignedFrom (fuel + 1) (byte :: (later ++ 0xFF :: rest)) =
          some (byte.toNat, later ++ 0xFF :: rest) := by
        rw [readUnsignedFrom, hbyte]
        rfl
      have hlater := ih (fun other hother => hsmall other (List.mem_cons_of_mem _ hother))
        (Nat.lt_of_succ_lt_succ hfuel)
      rw [List.cons_append]
      unfold readByteElements
      simp only [hbyte, hnumber, Option.bind_eq_bind, Option.bind_some, if_pos byte.toNat_lt,
        Option.map_none, hlater, UInt8.ofNat_toNat]
      rfl

theorem readBytes_writeOpen (hsmall : ∀ byte ∈ content, byte < 24) (rest : Bytes) :
    readBytes (writeOpen content ++ rest) = some (content, rest) := by
  have hheader : readUntagged (writeOpen content ++ rest).length (writeOpen content ++ rest) =
      some (.array none, content ++ 0xFF :: rest) := by
    rw [writeOpen, List.append_assoc]
    rfl
  rw [readBytes, hheader]
  refine readByteElements_open hsmall ?_ rest
  rw [List.length_append, List.length_cons]
  omega

/-- The content stands open in some bytes, and is so long that no form is shorter. -/
def StandsOpen (bytes content : Bytes) : Prop :=
  256 ≤ content.length ∧ (∀ byte ∈ content, byte < 24) ∧ writeOpen content <:+: bytes

instance (bytes content : Bytes) : Decidable (StandsOpen bytes content) :=
  inferInstanceAs (Decidable (_ ∧ _ ∧ _))

/-- How many bytes the content takes inside some bytes, at least. -/
def spelt (bytes content : Bytes) : Nat :=
  if StandsOpen bytes content then content.length + 2
  else headerLength content.length + content.length

private theorem headerLength_mono {value larger : Nat} (h : value ≤ larger) :
    headerLength value ≤ headerLength larger := by
  unfold headerLength
  repeat' split
  all_goals omega

theorem headerLength_le_three {value : Nat} (h : value < 65536) : headerLength value ≤ 3 :=
  headerLength_mono (Nat.le_of_lt_succ h)

private theorem spelt_le (bytes content : Bytes) :
    spelt bytes content ≤ headerLength content.length + content.length := by
  unfold spelt
  split
  case isTrue hopen =>
    have hthree : headerLength 256 ≤ headerLength content.length := headerLength_mono hopen.1
    rw [Nat.add_comm]
    exact Nat.add_le_add_right (Nat.le_of_succ_le hthree) _
  case isFalse => exact Nat.le_refl _

private theorem spelt_le_of_infix (hsmall : ∀ byte ∈ content, byte < 24)
    (hstands : writeOpen content <:+: bytes) : spelt bytes content ≤ content.length + 2 := by
  unfold spelt
  split
  case isTrue => exact Nat.le_refl _
  case isFalse hclosed =>
    have hshort : content.length < 256 :=
      Nat.lt_of_not_le fun hlong => hclosed ⟨hlong, hsmall, hstands⟩
    have htwo : headerLength content.length ≤ headerLength 255 :=
      headerLength_mono (Nat.le_of_lt_succ hshort)
    rw [Nat.add_comm]
    exact Nat.add_le_add_left htwo _

variable {payload : Bytes}

private theorem headerLength_add_le (hpayload : payload.length < 65536) (content : Bytes) :
    headerLength content.length + content.length ≤
      spelt payload content + if StandsOpen payload content then 1 else 0 := by
  unfold spelt
  split
  case isTrue hopen =>
    have hthree : headerLength content.length ≤ 3 := headerLength_le_three <| by
      have hlength := hopen.2.2.length_le
      rw [length_writeOpen] at hlength
      omega
    omega
  case isFalse => exact Nat.le_refl _

private theorem leaves_of_readBytes (hwithin : bytes <:+ payload)
    (hpayload : payload.length < 65536)
    (h : readBytes bytes = some (content, rest)) : bytes.Leaves (spelt payload content) rest := by
  rw [readBytes, Option.bind_eq_bind, Option.bind_eq_some_iff] at h
  obtain ⟨⟨header, after⟩, hheader, h⟩ := h
  obtain ⟨start, hstart, hread⟩ := exists_read_of_readUntagged hheader
  suffices hleaves : start.Leaves (spelt payload content) rest from
    ((Leaves.of_suffix hstart).trans hleaves).mono (by omega)
  have hfirst := Header.leaves_of_read hread
  have hspelt := spelt_le payload content
  have hthree : after.Leaves content.length rest → headerLength content.length ≤ 3 := by
    intro hleaves
    have hcount := (hfirst.trans hleaves).count_le
    have hlength := (hstart.trans hwithin).length_le
    exact headerLength_le_three (by omega)
  simp only at h
  split at h
  case h_1 length =>
    cases length with
    | none =>
        have hleaves := leaves_of_readString_none h
        have hheader := hthree (hleaves.mono (by omega))
        refine (hfirst.trans hleaves).mono (Nat.le_trans hspelt ?_)
        rcases Nat.eq_zero_or_pos content.length with hzero | hpos
        · rw [hzero]
          decide
        · omega
    | some length =>
        obtain ⟨hlength, hleaves⟩ := leaves_of_readString_some h
        rw [hlength] at hspelt
        exact ((Header.leaves_of_read_number hread rfl).trans hleaves).mono hspelt
  case h_2 length =>
    cases length with
    | none =>
        obtain ⟨rfl, hsmall⟩ | hleaves := leaves_of_readByteElements_none h
        -- The one form that can be shorter than what is written.
        · have hshape : start = writeOpen content ++ rest := by
            rw [Header.eq_of_read_open hread rfl, writeOpen, List.append_assoc]
            rfl
          have hstands : writeOpen content <:+: payload :=
            List.IsInfix.trans ⟨[], rest, hshape.symm⟩ (hstart.trans hwithin).isInfix
          rw [hshape]
          refine (Leaves.append _ rest).mono ?_
          simpa using spelt_le_of_infix hsmall hstands
        · have hheader := hthree (hleaves.mono (by omega))
          refine (hfirst.trans hleaves).mono (Nat.le_trans hspelt ?_)
          omega
    | some length =>
        obtain ⟨hlength, hleaves⟩ := leaves_of_readByteElements_some h
        rw [hlength] at hspelt
        exact ((Header.leaves_of_read_number hread rfl).trans hleaves).mono hspelt
  case h_3 => cases h

private theorem leaves_of_readName {name : Bytes} (h : readName bytes = some (name, rest)) :
    bytes.Leaves (name.length + 1) rest := by
  rw [readName, Option.bind_eq_bind, Option.bind_eq_some_iff] at h
  obtain ⟨⟨header, after⟩, hheader, h⟩ := h
  obtain ⟨start, hstart, hread⟩ := exists_read_of_readUntagged hheader
  have hfirst := (Leaves.of_suffix hstart).trans (Header.leaves_of_read hread)
  simp only at h
  split at h
  case h_1 | h_2 =>
    split at h
    case isTrue =>
      obtain ⟨rfl, hleaves⟩ := leaves_of_readString_some h
      exact (hfirst.trans hleaves).mono (by omega)
    case isFalse => cases h
  case h_3 => cases h

private theorem suffix_of_skipFrames {frames : List Frame}
    (h : skipFrames fuel frames bytes = some rest) :
    rest <:+ bytes := by
  induction fuel generalizing frames bytes with
  | zero =>
      cases frames with
      | nil =>
          cases h
          exact List.suffix_rfl
      | cons frame outer => cases h
  | succ fuel ih =>
      cases frames with
      | nil =>
          cases h
          exact List.suffix_rfl
      | cons frame outer =>
          rw [skipFrames, Option.bind_eq_bind, Option.bind_eq_some_iff] at h
          obtain ⟨⟨header, after⟩, hheader, h⟩ := h
          refine List.IsSuffix.trans ?_ (Header.leaves_of_read hheader).suffix
          simp only at h
          cases header with
          | unsigned | negative | float | tag => exact ih h
          | simple | stop =>
              simp only at h
              split at h
              case isTrue => exact ih h
              case isFalse => cases h
          | bytes | text =>
              rw [Option.bind_eq_bind, Option.bind_eq_some_iff] at h
              obtain ⟨⟨content, final⟩, hcontent, h⟩ := h
              exact (ih h).trans (suffix_of_readString hcontent)
          | array | map =>
              simp only [Option.bind_eq_bind, Option.bind_eq_some_iff] at h
              obtain ⟨inner, -, h⟩ := h
              exact ih h

section Fields

variable {Fields : Type} {field : Fields → Bytes → Option (Bytes → Option (Fields × Bytes))}
  {fields final : Fields}

private theorem readFields_step {left : Option Nat} (hleft : left ≠ some 0)
    (h : readFields field (fuel + 1) left fields bytes = some (final, rest)) :
    (left = none ∧ bytes.Leaves 1 rest ∧ final = fields) ∨
      ∃ name named next middle, readName bytes = some (name, named) ∧
        ((∃ readValue, field fields name = some readValue ∧ readValue named = some (next, middle)) ∨
          next = fields ∧ skip named = some middle) ∧
        readFields field fuel (left.map (· - 1)) next middle = some (final, rest) := by
  unfold readFields at h
  split at h
  case h_1 => exact absurd rfl hleft
  case h_2 hzero _ => cases hzero
  case h_3 hfuel _ =>
    cases hfuel
    split at h
    case h_1 hstop _ =>
      cases h
      exact .inl ⟨rfl, Header.leaves_of_read hstop, rfl⟩
    case h_2 =>
      rw [Option.bind_eq_bind, Option.bind_eq_some_iff] at h
      obtain ⟨⟨name, named⟩, hname, h⟩ := h
      simp only at h
      split at h
      case h_1 readValue hread =>
        rw [Option.bind_eq_bind, Option.bind_eq_some_iff] at h
        obtain ⟨⟨next, middle⟩, hvalue, h⟩ := h
        exact .inr ⟨name, named, next, middle, hname, .inl ⟨readValue, hread, hvalue⟩, h⟩
      case h_2 =>
        rw [Option.bind_eq_bind, Option.bind_eq_some_iff] at h
        obtain ⟨⟨next, middle⟩, hvalue, h⟩ := h
        obtain ⟨after, hskip, hsame⟩ := Option.map_eq_some_iff.mp hvalue
        cases hsame
        exact .inr ⟨name, named, _, _, hname, .inr ⟨rfl, hskip⟩, h⟩

private theorem leaves_of_readFields {left : Option Nat} (cost : Fields → Nat)
    (hfield : ∀ fields name readValue next (bytes rest : Bytes), bytes <:+ payload →
      field fields name = some readValue → readValue bytes = some (next, rest) →
      bytes.Leaves (cost next - cost fields - (name.length + 1)) rest)
    (hwithin : bytes <:+ payload)
    (h : readFields field fuel left fields bytes = some (final, rest)) :
    bytes.Leaves (cost final - cost fields) rest := by
  induction fuel generalizing left fields bytes with
  | zero =>
      unfold readFields at h
      split at h
      case h_1 =>
        cases h
        exact (Leaves.of_suffix List.suffix_rfl).mono (by omega)
      case h_2 => cases h
      case h_3 hfuel _ => cases hfuel
  | succ fuel ih =>
      by_cases hleft : left = some 0
      · subst hleft
        cases h
        exact (Leaves.of_suffix List.suffix_rfl).mono (by omega)
      · obtain ⟨-, hleaves, rfl⟩ | ⟨name, named, next, middle, hname, hvalue, hlater⟩ :=
          readFields_step hleft h
        · exact hleaves.mono (by omega)
        · have hnamed := leaves_of_readName hname
          have hmiddle : named.Leaves (cost next - cost fields - (name.length + 1)) middle := by
            obtain ⟨readValue, hread, hvalue⟩ | ⟨rfl, hskip⟩ := hvalue
            · exact hfield _ _ _ _ _ _ (hnamed.suffix.trans hwithin) hread hvalue
            · exact (Leaves.of_suffix (suffix_of_skipFrames hskip)).mono (by omega)
          have hstep := hnamed.trans hmiddle
          exact (hstep.trans (ih (hstep.suffix.trans hwithin) hlater)).mono (by omega)

end Fields

private theorem leaves_of_readOnce {Fields : Type} {current : Option Bytes} {next : Fields}
    {store : Bytes → Fields} (hpayload : payload.length < 65536) (hwithin : bytes <:+ payload)
    (h : readOnce current readBytes store bytes = some (next, rest)) :
    current = none ∧ ∃ content, next = store content ∧ bytes.Leaves (spelt payload content) rest := by
  unfold readOnce at h
  split at h
  case isTrue => cases h
  case isFalse hfree =>
    obtain ⟨⟨content, after⟩, hread, hsame⟩ := Option.map_eq_some_iff.mp h
    cases hsame
    exact ⟨Option.not_isSome_iff_eq_none.mp hfree, content, rfl,
      leaves_of_readBytes hwithin hpayload hread⟩

end Cbor

namespace Entry

variable {payload bytes rest : Bytes} {entry : Entry}

def Fields.spelt (payload : Bytes) (fields : Fields) : Nat :=
  fields.key.elim 0 (4 + Cbor.spelt payload ·) + fields.value.elim 0 (6 + Cbor.spelt payload ·)

private theorem leaves_of_readField {fields next : Fields} {name : Bytes}
    {readValue : Bytes → Option (Fields × Bytes)} (hpayload : payload.length < 65536)
    (hwithin : bytes <:+ payload) (hfield : readField fields name = some readValue)
    (h : readValue bytes = some (next, rest)) :
    bytes.Leaves (next.spelt payload - fields.spelt payload - (name.length + 1)) rest := by
  obtain ⟨key, value⟩ := fields
  unfold readField at hfield
  split at hfield
  case isTrue hname =>
    cases hfield
    obtain ⟨rfl, content, rfl, hleaves⟩ := Cbor.leaves_of_readOnce hpayload hwithin h
    have hthree : name.length = 3 := by
      rw [hname]
      decide
    refine hleaves.mono ?_
    simp only [Fields.spelt, Option.elim_some, Option.elim_none, hthree]
    omega
  case isFalse =>
    split at hfield
    case isTrue hname =>
      cases hfield
      obtain ⟨rfl, content, rfl, hleaves⟩ := Cbor.leaves_of_readOnce hpayload hwithin h
      have hfive : name.length = 5 := by
        rw [hname]
        decide
      refine hleaves.mono ?_
      simp only [Fields.spelt, Option.elim_some, Option.elim_none, hfive]
      omega
    case isFalse => cases hfield

private theorem spelt_le_of_decode (hpayload : payload.length < 65536)
    (h : decode payload = .ok entry) :
    11 + Cbor.spelt payload entry.key + Cbor.spelt payload entry.value ≤ payload.length := by
  unfold decode at h
  split at h
  case h_2 => cases h
  case h_1 key value rest hrecord =>
    cases h
    rw [Cbor.readRecord, Option.bind_eq_bind, Option.bind_eq_some_iff] at hrecord
    obtain ⟨⟨header, after⟩, hheader, hrecord⟩ := hrecord
    obtain ⟨start, hstart, hread⟩ := Cbor.exists_read_of_readUntagged hheader
    have hfirst := (Bytes.Leaves.of_suffix hstart).trans (Cbor.Header.leaves_of_read hread)
    simp only at hrecord
    split at hrecord
    case h_1 length =>
      have hfields := Cbor.leaves_of_readFields (Fields.spelt payload)
        (fun _ _ _ _ _ _ hwithin => leaves_of_readField hpayload hwithin) hfirst.suffix hrecord
      have hcount := (hfirst.trans hfields).count_le
      simp only [Fields.spelt, Option.elim_some, Option.elim_none] at hcount ⊢
      omega
    case h_2 => cases hrecord

/-- An entry is written with one byte more than it was received with for each of its contents that stood
open, at most. -/
theorem size_le_of_decode (hpayload : payload.length < 65536) (h : decode payload = .ok entry) :
    entry.size ≤ payload.length +
      ([entry.key, entry.value].countP (Cbor.StandsOpen payload ·)) := by
  have hspelt := spelt_le_of_decode hpayload h
  have hkey := Cbor.headerLength_add_le hpayload entry.key
  have hvalue := Cbor.headerLength_add_le hpayload entry.value
  simp only [size, List.countP_cons, List.countP_nil, decide_eq_true_eq]
  omega

end Entry

end ReplicaRing
