import ReplicaRing.Message.Specimen
import ReplicaRing.Proofs.Codec.Utf8
import ReplicaRing.Proofs.Codec.Wire

/-!
Which messages can be written, and what then stands at which place of the datagram.  The layout here
fills a blank datagram field by field, as the samples do; the writer appends.
-/

namespace ReplicaRing

open Specimen (overwrite)

namespace Message

open Layout

@[simp] theorem length_zeros (count : Nat) : (zeros count).length = count := List.length_replicate

theorem overwrite_field (before field after data : Bytes) {offset : Nat}
    (hoffset : before.length = offset) (hlength : data.length = field.length) :
    overwrite (before ++ (field ++ after)) offset data = before ++ (data ++ after) := by
  rw [overwrite, List.take_left' hoffset, ← List.append_assoc before field, hlength,
    List.drop_left' (by rw [List.length_append, hoffset]), List.append_assoc]

private theorem overwrite_blank {before field : Bytes} {offset count : Nat} (gap : Nat)
    (hoffset : offset = before.length + gap) (hcount : gap + field.length ≤ count) :
    overwrite (before ++ zeros count) offset field =
      before ++ (zeros gap ++ field) ++ zeros (count - (gap + field.length)) := by
  have hblank : before ++ zeros count = (before ++ zeros gap) ++
      (zeros field.length ++ zeros (count - (gap + field.length))) := by
    simp only [zeros, List.append_assoc, List.replicate_append_replicate]
    congr 2
    omega
  rw [hblank, overwrite_field _ _ _ _ (by simp [hoffset]) (length_zeros _).symm]
  simp only [List.append_assoc]

/-- The datagram of a message, each field written at its place into a blank one. -/
def layout (message : Message) : Bytes :=
  [(0, [message.version, message.topic.code, message.verb]),
    (4, message.args.bytes),
    (36, Bytes.ofText message.replyTo),
    (292, Bytes.bigEndian 2 message.payload.length),
    (294, message.payload)].foldl (fun bytes (offset, field) => overwrite bytes offset field)
      (zeros (headerSize + message.payload.length))

variable {message : Message}

theorem layout_eq (h : (Bytes.ofText message.replyTo).length ≤ nameSize) :
    message.layout = message.preamble ++ (message.nameField ++
      (Bytes.bigEndian 2 message.payload.length ++ message.payload)) := by
  have hargs := message.args.length_eq
  let name := Bytes.ofText message.replyTo
  have hblank : zeros (headerSize + message.payload.length) =
      [] ++ zeros (headerSize + message.payload.length) := rfl
  simp only [layout, List.foldl_cons, List.foldl_nil]
  simp only [nameSize, headerSize] at h hblank ⊢
  rw [hblank, overwrite_blank 0 (by simp) (by simp; omega),
    overwrite_blank 1 (by simp) (by simp; omega), overwrite_blank 16 (by simp; omega) (by simp; omega),
    overwrite_blank (256 - name.length) (by simp [name]; omega) (by simp [name]; omega),
    overwrite_blank 0 (by simp [name]; omega) (by simp [name]; omega)]
  simp [preamble, nameField, zeros, name, nameSize]
  omega

structure Fits (message : Message) : Prop where
  payload : message.payload.length ≤ maxPayload
  length : (Bytes.ofText message.replyTo).length ≤ nameSize
  noNul : '\x00' ∉ message.replyTo.toList

/-- Why a message cannot be written; the first reason is the one that counts. -/
inductive Refuses (message : Message) : WireError → Prop
  | payload (h : maxPayload < message.payload.length) :
      Refuses message (.payloadTooLarge message.payload.length)
  | length (hpayload : message.payload.length ≤ maxPayload)
      (h : nameSize < (Bytes.ofText message.replyTo).length) :
      Refuses message (.replyToTooLong (Bytes.ofText message.replyTo).length)
  | nul (hpayload : message.payload.length ≤ maxPayload)
      (hlength : (Bytes.ofText message.replyTo).length ≤ nameSize)
      (h : '\x00' ∈ message.replyTo.toList) : Refuses message .replyToHasNul

theorem fits_or_refuses (message : Message) : message.Fits ∨ ∃ error, message.Refuses error := by
  rcases Nat.lt_or_ge maxPayload message.payload.length with hlarge | hpayload
  · exact .inr ⟨_, .payload hlarge⟩
  rcases Nat.lt_or_ge nameSize (Bytes.ofText message.replyTo).length with hlong | hlength
  · exact .inr ⟨_, .length hpayload hlong⟩
  by_cases hnul : '\x00' ∈ message.replyTo.toList
  · exact .inr ⟨_, .nul hpayload hlength hnul⟩
  · exact .inl ⟨hpayload, hlength, hnul⟩

theorem Fits.encode (h : message.Fits) : message.encode = .ok message.layout := by
  have hnul := mt Bytes.zero_mem_ofText.mp h.noNul
  rw [layout_eq h.length, Message.encode, if_neg (Nat.not_lt.mpr h.payload),
    if_neg (Nat.not_lt.mpr h.length), if_neg hnul]
  simp [preamble, nameField]

theorem Refuses.encode {error : WireError} (h : message.Refuses error) :
    message.encode = .error error := by
  unfold Message.encode
  cases h with
  | payload h => exact if_pos h
  | length hpayload h => rw [if_neg (Nat.not_lt.mpr hpayload), if_pos h]
  | nul hpayload hlength h =>
      rw [if_neg (Nat.not_lt.mpr hpayload), if_neg (Nat.not_lt.mpr hlength),
        if_pos (Bytes.zero_mem_ofText.mpr h)]

structure Written (message : Message) (datagram : Bytes) : Prop where
  layout : datagram = message.layout
  length : datagram.length = headerSize + message.payload.length
  bounded : datagram.length ≤ maxDatagram
  decode : ∀ suffix, decode (datagram ++ suffix) = .ok message
  requestId : (datagram.drop 4).take 8 = Bytes.bigEndian 8 message.requestId.toNat

private theorem Fits.length_layout (h : message.Fits) :
    message.layout.length = headerSize + message.payload.length := by
  simp only [layout_eq h.length, List.length_append, length_preamble, length_nameField h.length,
    Bytes.length_bigEndian, headerSize, nameSize]
  omega

theorem Fits.written (h : message.Fits) : message.Written message.layout where
  layout := rfl
  length := h.length_layout
  bounded := by
    have hpayload := h.payload
    rw [h.length_layout]
    simp only [maxPayload, maxDatagram, headerSize] at hpayload ⊢
    omega
  decode := decode_append_of_encode h.encode
  requestId := by
    have hargs := message.args.length_eq
    rw [layout_eq h.length, requestId, Args.bigEndian_requestId]
    simp [preamble, List.take_append, hargs]

/-- A message is refused for the first thing that is wrong with it, or is written at its places. -/
theorem encode_exact (message : Message) :
    (∀ error, message.encode = .error error ↔ message.Refuses error) ∧
      ∀ datagram, message.encode = .ok datagram ↔ message.Fits ∧ message.Written datagram := by
  refine ⟨fun error => ⟨fun herror => ?_, Refuses.encode⟩, fun datagram => ⟨fun hok => ?_, ?_⟩⟩
  · rcases message.fits_or_refuses with hfits | ⟨refusal, hrefuses⟩
    · rw [hfits.encode] at herror
      cases herror
    · rw [hrefuses.encode] at herror
      cases herror
      exact hrefuses
  · rcases message.fits_or_refuses with hfits | ⟨refusal, hrefuses⟩
    · rw [hfits.encode] at hok
      cases hok
      exact ⟨hfits, hfits.written⟩
    · rw [hrefuses.encode] at hok
      cases hok
  · rintro ⟨hfits, hwritten⟩
    rw [hwritten.layout]
    exact hfits.encode

private theorem overwrite_append_zeros {before field : Bytes} {offset count more : Nat} (gap : Nat)
    (hoffset : offset = before.length + gap) (hcount : gap + (field.length + more) ≤ count) :
    overwrite (before ++ zeros count) offset (field ++ zeros more) =
      overwrite (before ++ zeros count) offset field := by
  rw [overwrite_blank gap hoffset (by simpa using hcount), overwrite_blank gap hoffset (by omega)]
  simp only [zeros, List.append_assoc, List.append_cancel_left_eq, List.length_append,
    List.length_replicate, List.replicate_append_replicate]
  congr 1
  omega

private theorem layout_of_args {number : Bytes} {more : Nat}
    (h : message.args.bytes = number ++ zeros more) :
    message.layout = [(0, [message.version, message.topic.code, message.verb]),
      (4, number),
      (36, Bytes.ofText message.replyTo),
      (292, Bytes.bigEndian 2 message.payload.length),
      (294, message.payload)].foldl (fun bytes (offset, field) => overwrite bytes offset field)
        (zeros (headerSize + message.payload.length)) := by
  have hlength : number.length + more = 16 := by
    simpa [message.args.length_eq] using (congrArg List.length h).symm
  have hroom : 20 ≤ headerSize + message.payload.length := by
    simp only [headerSize]
    omega
  have hfront := @overwrite_blank [] [message.version, message.topic.code, message.verb] 0
    (headerSize + message.payload.length) 0 rfl (by simp; omega)
  simp only [layout, h, List.foldl_cons, List.foldl_nil]
  simp only [List.nil_append] at hfront
  -- The number is written into the blank right after the three codes and the zero.
  have hargs := @overwrite_append_zeros (zeros 0 ++ [message.version, message.topic.code,
    message.verb]) number 4 (headerSize + message.payload.length - (0 + 3)) more 1 rfl (by omega)
  simp only [List.length_cons, List.length_nil] at hfront
  rw [hfront, hargs]

end Message

theorem Specimen.encode_message {specimen : Specimen} (h : specimen.message.Fits) :
    specimen.message.encode = .ok specimen.expected := by
  have hargs : specimen.message.args.bytes =
      Bytes.bigEndian 8 specimen.requestId.toNat ++ Message.zeros 8 := rfl
  rw [h.encode, Message.layout_of_args hargs]
  rfl

end ReplicaRing
