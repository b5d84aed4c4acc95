import ReplicaRing.Blob.Root
import ReplicaRing.Entry
import ReplicaRing.Proofs.Codec.Wire

/-! Records are read back as they were written, whatever follows them. -/

namespace ReplicaRing.Cbor

namespace Header

private theorem toNat_first (major info : UInt8) (hmajor : major.toNat < 8)
    (hinfo : info.toNat < 32) :
    (major * 32 + info).toNat = major.toNat * 32 + info.toNat := by
  rw [UInt8.toNat_add, UInt8.toNat_mul]
  simp only [UInt8.reduceToNat]
  omega

private theorem of?_first (major info : UInt8) (hmajor : major.toNat < 8) (hinfo : info.toNat < 32)
    (hsimple : major.toNat ≠ 7) (argument : Option Nat) :
    of? (major * 32 + info) argument = of? (major * 32) argument := by
  have hfirst := toNat_first major info hmajor hinfo
  have hzero := toNat_first major 0 hmajor (by decide)
  have hquotient : (major * 32 + info).toNat / 32 = major.toNat := by omega
  have hplain : (major * 32).toNat / 32 = major.toNat := by
    rw [show major * 32 = major * 32 + 0 by simp, hzero, UInt8.toNat_zero]
    omega
  unfold of?
  rw [hquotient, hplain]
  split <;> simp_all

private theorem readArgument_small {value : Nat} (h : value < 24) (rest : Bytes) :
    readArgument value rest = some (some value, rest) := by
  rw [readArgument, if_pos h]

private theorem readArgument_field {info value : Nat} (hlow : 24 ≤ info) (hhigh : info < 28)
    (hvalue : value < 256 ^ (1 <<< (info - 24))) (rest : Bytes) :
    readArgument info (Bytes.bigEndian (1 <<< (info - 24)) value ++ rest) =
      some (some value, rest) := by
  rw [readArgument, if_neg (by omega), if_pos hhigh]
  simp only [List.take_left' (Bytes.length_bigEndian _ _),
    List.drop_left' (Bytes.length_bigEndian _ _), Bytes.length_bigEndian,
    Bytes.toNat_bigEndian_of_lt hvalue, Nat.lt_irrefl, if_false]

private theorem read_first {major info : UInt8} {value : Nat} {field rest : Bytes}
    (hmajor : major.toNat < 7) (hinfo : info.toNat < 32)
    (hargument : readArgument info.toNat (field ++ rest) = some (some value, rest)) :
    read (((major * 32 + info) :: field) ++ rest) =
      (of? (major * 32) (some value)).map fun header => (header, rest) := by
  have hlow : (major * 32 + info).toNat % 32 = info.toNat := by
    rw [toNat_first major info (by omega) hinfo]
    omega
  simp only [read, List.cons_append, hlow, hargument, Option.bind_eq_bind, Option.bind_some,
    of?_first major info (by omega) hinfo (by omega)]
  cases of? (major * 32) (some value) <;> rfl

theorem read_writeHeader {major : UInt8} {value : Nat} (hmajor : major.toNat < 7)
    (hvalue : value < 2 ^ 64) (rest : Bytes) :
    read (writeHeader major value ++ rest) =
      (of? (major * 32) (some value)).map fun header => (header, rest) := by
  simp only [writeHeader]
  split
  case isTrue hsmall =>
    have hinfo : (UInt8.ofNat value).toNat = value := by
      rw [UInt8.toNat_ofNat']
      omega
    exact read_first hmajor (by omega) (by rw [hinfo]; exact readArgument_small hsmall rest)
  case isFalse =>
    split
    · exact read_first hmajor (by decide) (readArgument_field (by decide) (by decide) (by simpa) rest)
    split
    · exact read_first hmajor (by decide) (readArgument_field (by decide) (by decide) (by simpa) rest)
    split
    · exact read_first hmajor (by decide) (readArgument_field (by decide) (by decide) (by simpa) rest)
    · exact read_first hmajor (by decide) (readArgument_field (by decide) (by decide) (by simpa) rest)

end Header

private theorem readExactly_append (field rest : Bytes) :
    readExactly field.length (field ++ rest) = some (field, rest) := by
  simp [readExactly]

private theorem length_pos_writeHeader (major : UInt8) (value : Nat) :
    0 < (writeHeader major value).length := by
  simp only [writeHeader]
  repeat' split
  all_goals simp

private theorem readUntagged_writeHeader (header : Header) {major : UInt8} {value : Nat}
    (hmajor : major.toNat < 7) (hvalue : value < 2 ^ 64)
    (hheader : Header.of? (major * 32) (some value) = some header)
    (huntagged : ∀ number, header ≠ .tag number) (rest : Bytes) :
    readUntagged (writeHeader major value ++ rest).length (writeHeader major value ++ rest) =
      some (header, rest) := by
  have hpos := length_pos_writeHeader major value
  obtain ⟨fuel, hfuel⟩ : ∃ fuel, (writeHeader major value ++ rest).length = fuel + 1 :=
    ⟨(writeHeader major value ++ rest).length - 1, by
      rw [List.length_append]
      omega⟩
  rw [hfuel, readUntagged, Header.read_writeHeader hmajor hvalue, hheader]
  cases header with
  | tag number => exact absurd rfl (huntagged number)
  | _ => rfl

theorem readBytes_writeBytes {bytes : Bytes} (h : bytes.length < 2 ^ 64) (rest : Bytes) :
    readBytes (writeBytes bytes ++ rest) = some (bytes, rest) := by
  simp only [writeBytes, List.append_assoc, readBytes]
  rw [readUntagged_writeHeader (.bytes (some bytes.length)) (by decide) h rfl
    (by simp)]
  simp only [Option.bind_eq_bind, Option.bind_some, readString, readExactly_append]
  rfl

private theorem readName_writeText {text : String} (h : (Bytes.ofText text).length ≤ maxName)
    (rest : Bytes) : readName (writeText text ++ rest) = some (Bytes.ofText text, rest) := by
  simp only [writeText, List.append_assoc, readName]
  rw [readUntagged_writeHeader (.text (some (Bytes.ofText text).length)) (by decide)
    (by simp only [maxName] at h; omega) rfl (by simp)]
  simp only [Option.bind_eq_bind, Option.bind_some, if_pos h, readString, readExactly_append,
    Bytes.isText_ofText]
  rfl

private theorem readUnsigned_writeUnsigned {value : Nat} (h : value < 2 ^ 64) (rest : Bytes) :
    readUnsigned (writeUnsigned value ++ rest) = some (value, rest) := by
  have hpos := length_pos_writeHeader 0 value
  obtain ⟨fuel, hfuel⟩ : ∃ fuel, (writeHeader 0 value ++ rest).length = fuel + 1 :=
    ⟨(writeHeader 0 value ++ rest).length - 1, by
      rw [List.length_append]
      omega⟩
  rw [writeUnsigned, readUnsigned, hfuel, readUnsignedFrom,
    Header.read_writeHeader (by decide) h]
  rfl

section Fields

variable {Fields : Type} {field : Fields → Bytes → Option (Bytes → Option (Fields × Bytes))}

private theorem readFields_field {fuel left : Nat} {fields next : Fields} {name : String}
    {written rest : Bytes} {readValue : Bytes → Option (Fields × Bytes)}
    (hname : (Bytes.ofText name).length ≤ maxName)
    (hfield : field fields (Bytes.ofText name) = some readValue)
    (hvalue : readValue (written ++ rest) = some (next, rest)) :
    readFields field (fuel + 1) (some (left + 1)) fields
        (writeText name ++ written ++ rest) =
      readFields field fuel (some left) next rest := by
  rw [readFields]
  simp only [List.append_assoc, readName_writeText hname, hfield, hvalue, Option.bind_eq_bind,
    Option.bind_some, Option.map_some, Nat.add_sub_cancel]
  all_goals simp

private theorem readFields_none (fuel : Nat) (fields : Fields) (rest : Bytes) :
    readFields field fuel (some 0) fields rest = some (fields, rest) := by
  cases fuel <;> rfl

private theorem readRecord_writeMap {blank : Fields} {entries : List (String × Bytes)}
    (h : entries.length < 2 ^ 64) (rest : Bytes) :
    readRecord field blank (writeMap entries ++ rest) =
      readFields field ((entries.flatMap fun (name, value) => writeText name ++ value) ++
        rest).length (some entries.length) blank
        ((entries.flatMap fun (name, value) => writeText name ++ value) ++ rest) := by
  simp only [writeMap, List.append_assoc, readRecord]
  rw [readUntagged_writeHeader (.map (some entries.length)) (by decide) h rfl (by simp)]
  rfl

end Fields

private theorem readOnce_none {Value Fields : Type} {read : Bytes → Option (Value × Bytes)}
    {value : Value} {bytes rest : Bytes} (h : read bytes = some (value, rest))
    (store : Value → Fields) :
    readOnce none read store bytes = some (store value, rest) := by
  simp [readOnce, h]

end ReplicaRing.Cbor

namespace ReplicaRing

theorem Entry.decode_append_writeMap {entry : Entry} {key value : Bytes}
    (hkey : ∀ rest, Cbor.readBytes (key ++ rest) = some (entry.key, rest))
    (hvalue : ∀ rest, Cbor.readBytes (value ++ rest) = some (entry.value, rest)) (rest : Bytes) :
    Entry.decode (Cbor.writeMap [("key", key), ("value", value)] ++ rest) = .ok entry := by
  let tail := Cbor.writeText "value" ++ value ++ rest
  have hfields : ([("key", key), ("value", value)].flatMap
      fun (name, value) => Cbor.writeText name ++ value) ++ rest =
        Cbor.writeText "key" ++ key ++ tail := by
    simp [tail]
  have hlength : 2 ≤ (Cbor.writeText "key" ++ key ++ tail).length := by
    have hfirst := Cbor.length_pos_writeHeader 3 (Bytes.ofText "key").length
    have hsecond := Cbor.length_pos_writeHeader 3 (Bytes.ofText "value").length
    simp only [tail, Cbor.writeText, List.length_append]
    omega
  obtain ⟨fuel, hfuel⟩ := Nat.exists_eq_add_of_le' hlength
  have hread : Cbor.readRecord readField {} (Cbor.writeMap [("key", key), ("value", value)] ++ rest) =
      some (⟨some entry.key, some entry.value⟩, rest) := by
    rw [Cbor.readRecord_writeMap (by simp), hfields, hfuel, show fuel + 2 = fuel + 1 + 1 from rfl]
    rw [List.length_cons, List.length_singleton, Cbor.readFields_field (by decide) (by rfl)
      (Cbor.readOnce_none (hkey _) _)]
    rw [Cbor.readFields_field (by decide) (by rfl) (Cbor.readOnce_none (hvalue _) _)]
    exact Cbor.readFields_none _ _ _
  rw [Entry.decode, hread]

theorem Entry.decode_append_written {entry : Entry} (hkey : entry.key.length < 2 ^ 64)
    (hvalue : entry.value.length < 2 ^ 64) (rest : Bytes) :
    Entry.decode (entry.written ++ rest) = .ok entry :=
  decode_append_writeMap (Cbor.readBytes_writeBytes hkey) (Cbor.readBytes_writeBytes hvalue) rest

theorem Entry.decode_of_encode {entry : Entry} {payload : Bytes}
    (h : entry.encode = .ok payload) : Entry.decode payload = .ok entry := by
  simp only [Entry.encode] at h
  split at h
  · cases h
  case isFalse hsize =>
    cases h
    have hparts : entry.key.length + entry.value.length ≤ entry.written.length := by
      simp only [Entry.written, Cbor.writeMap, Cbor.writeBytes, List.length_append,
        List.flatMap_cons, List.flatMap_nil]
      omega
    simp only [Layout.maxPayload, Layout.maxDatagram, Layout.headerSize] at hsize
    simpa using Entry.decode_append_written (by omega) (by omega) []

theorem Blob.Root.decode?_encode (root : Blob.Root) (rest : Bytes) :
    Blob.Root.decode? (root.encode ++ rest) = some root := by
  have hfields : ([("size", Cbor.writeUnsigned root.size.toNat)].flatMap
      fun (name, value) => Cbor.writeText name ++ value) ++ rest =
        Cbor.writeText "size" ++ Cbor.writeUnsigned root.size.toNat ++ rest := by
    simp
  have hlength : 1 ≤
      (Cbor.writeText "size" ++ Cbor.writeUnsigned root.size.toNat ++ rest).length := by
    have hfirst := Cbor.length_pos_writeHeader 3 (Bytes.ofText "size").length
    simp only [Cbor.writeText, List.length_append]
    omega
  obtain ⟨fuel, hfuel⟩ := Nat.exists_eq_add_of_le' hlength
  have hread : Cbor.readRecord readField none (root.encode ++ rest) =
      some (some root.size.toNat, rest) := by
    rw [Blob.Root.encode, Cbor.readRecord_writeMap (by simp), hfields, hfuel,
      List.length_singleton, Cbor.readFields_field (by decide) (by rfl)
        (Cbor.readOnce_none (Cbor.readUnsigned_writeUnsigned root.size.toNat_lt _) _)]
    exact Cbor.readFields_none _ _ _
  rw [Blob.Root.decode?, hread]
  simp

end ReplicaRing
