import ReplicaRing.Proofs.Codec.Record

/-! Which entries can be payloads, and how long these are. -/

namespace ReplicaRing

namespace Cbor

def headerLength (value : Nat) : Nat :=
  if value < 24 then 1
  else if value < 256 then 2
  else if value < 65536 then 3
  else if value < 4294967296 then 5
  else 9

@[simp] theorem length_writeHeader (major : UInt8) (value : Nat) :
    (writeHeader major value).length = headerLength value := by
  unfold writeHeader headerLength
  simp only
  repeat' split
  all_goals simp

@[simp] theorem length_writeBytes (bytes : Bytes) :
    (writeBytes bytes).length = headerLength bytes.length + bytes.length := by
  rw [writeBytes, List.length_append, length_writeHeader]

end Cbor

namespace Entry

variable {entry : Entry}

private theorem written_eq (entry : Entry) :
    entry.written = 0xA2 :: 0x63 :: Bytes.ofText "key" ++ Cbor.writeBytes entry.key ++
      (0x65 :: Bytes.ofText "value" ++ Cbor.writeBytes entry.value) := by
  have hmap : Cbor.writeHeader 5 2 = [0xA2] := rfl
  have hkey : Cbor.writeText "key" = 0x63 :: Bytes.ofText "key" := by decide
  have hvalue : Cbor.writeText "value" = 0x65 :: Bytes.ofText "value" := by decide
  simp [written, Cbor.writeMap, hmap, hkey, hvalue]

/-- The length of the payload of an entry: the names of the two fields with the header of the record
take eleven bytes. -/
def size (entry : Entry) : Nat :=
  11 + Cbor.headerLength entry.key.length + entry.key.length +
    Cbor.headerLength entry.value.length + entry.value.length

theorem length_written (entry : Entry) : entry.written.length = entry.size := by
  have hnames : (Bytes.ofText "key").length = 3 ∧ (Bytes.ofText "value").length = 5 := by decide
  simp only [written_eq, List.length_append, List.length_cons, hnames, Cbor.length_writeBytes, size]
  omega

private theorem lengths_le_size (entry : Entry) :
    entry.key.length + entry.value.length ≤ entry.size := by
  rw [size]
  omega

/-- An entry is written as long as its payload fits a message, and read back whatever follows it. -/
theorem encode_within_limit (entry : Entry) :
    (entry.size ≤ Layout.maxPayload →
      ∃ payload, entry.encode = .ok payload ∧ payload.length = entry.size ∧
        ∀ trailing, decode (payload ++ trailing) = .ok entry) ∧
      (Layout.maxPayload < entry.size → entry.encode = .error (.tooLarge entry.size)) := by
  constructor
  · intro hfits
    have hlengths := entry.lengths_le_size
    refine ⟨entry.written, ?_, entry.length_written, fun trailing => ?_⟩
    · rw [encode, length_written]
      exact if_neg (Nat.not_lt.mpr hfits)
    · simp only [Layout.maxPayload, Layout.maxDatagram, Layout.headerSize] at hfits
      exact decode_append_written (by omega) (by omega) trailing
  · intro hlarge
    rw [encode, length_written]
    exact if_pos hlarge

def zeros (count : Nat) : Entry := ⟨[], List.replicate count 0⟩

theorem size_zeros {count : Nat} (hlarge : 256 ≤ count) (hsmall : count < 65536) :
    (zeros count).size = count + 15 := by
  have hkey : Cbor.headerLength 0 = 1 := rfl
  have hvalue : Cbor.headerLength count = 3 := by
    rw [Cbor.headerLength, if_neg (by omega), if_neg (by omega), if_pos hsmall]
  rw [size, zeros, List.length_nil, List.length_replicate, hkey, hvalue]
  omega

theorem encode_within_limit_of_zeros :
    (∃ payload, (zeros 65226).encode = .ok payload ∧ payload.length = 65241 ∧
        decode (payload ++ [0xFF]) = .ok (zeros 65226)) ∧
      (zeros 65227).encode = .error (.tooLarge 65242) := by
  have hfits := (encode_within_limit (zeros 65226)).1
  have hlarge := (encode_within_limit (zeros 65227)).2
  rw [size_zeros (by decide) (by decide)] at hfits hlarge
  obtain ⟨payload, hpayload, hlength, hdecode⟩ := hfits (by decide)
  exact ⟨⟨payload, hpayload, hlength, hdecode [0xFF]⟩, hlarge (by decide)⟩

end Entry

end ReplicaRing
