import Mathlib.Algebra.Group.Nat.Defs
import Mathlib.Data.List.Induction
import ReplicaRing.Message.Layout

/-! What is written into a datagram is read back from it. -/

namespace ReplicaRing

namespace Bytes

private theorem toNat_append_singleton (bytes : Bytes) (byte : UInt8) :
    toNat (bytes ++ [byte]) = toNat bytes * 256 + byte.toNat := by
  simp [toNat]

private theorem toNat_bigEndian (width value : Nat) :
    toNat (bigEndian width value) = value % 256 ^ width := by
  induction width generalizing value with
  | zero => simp [bigEndian, toNat, Nat.mod_one]
  | succ width ih =>
      have hsplit : value % 256 ^ (width + 1) =
          value % 256 + 256 * (value / 256 % 256 ^ width) := by
        rw [Nat.pow_succ']
        exact Nat.mod_mul
      rw [bigEndian, toNat_append_singleton, ih, UInt8.toNat_ofNat', hsplit]
      omega

theorem toNat_bigEndian_of_lt {width value : Nat} (h : value < 256 ^ width) :
    toNat (bigEndian width value) = value := by
  rw [toNat_bigEndian, Nat.mod_eq_of_lt h]

theorem toNat_lt (bytes : Bytes) : toNat bytes < 256 ^ bytes.length := by
  induction bytes using List.reverseRecOn with
  | nil => exact Nat.one_pos
  | append_singleton bytes byte ih =>
      have hbyte := byte.toNat_lt
      rw [toNat_append_singleton, List.length_append, List.length_singleton, Nat.pow_succ]
      omega

theorem bigEndian_toNat (bytes : Bytes) : bigEndian bytes.length (toNat bytes) = bytes := by
  induction bytes using List.reverseRecOn with
  | nil => rfl
  | append_singleton bytes byte ih =>
      have hbyte := byte.toNat_lt
      have hfront : (toNat bytes * 256 + byte.toNat) / 256 = toNat bytes := by omega
      have hlast : UInt8.ofNat (toNat bytes * 256 + byte.toNat) = byte := by
        apply UInt8.toNat.inj
        rw [UInt8.toNat_ofNat']
        omega
      rw [toNat_append_singleton, List.length_append, List.length_singleton, bigEndian, hfront, hlast,
        ih]

private theorem take_drop_field {offset width : Nat} (before field after : Bytes)
    (hbefore : before.length = offset) (hfield : field.length = width) :
    ((before ++ (field ++ after)).drop offset).take width = field := by
  rw [List.drop_left' hbefore, List.take_left' hfield]

end Bytes

namespace Topic

private theorem ofCode?_code (topic : Topic) : ofCode? topic.code = some topic := by
  cases topic <;> decide

end Topic

namespace Args

@[simp] theorem requestId_withRequestId (args : Args) (id : UInt64) :
    (args.withRequestId id).requestId = id := by
  have hfield : (args.withRequestId id).bytes.take 8 = Bytes.bigEndian 8 id.toNat :=
    List.take_left' (by simp)
  rw [requestId, hfield, Bytes.toNat_bigEndian_of_lt (by simpa using id.toNat_lt)]
  exact UInt64.ofNat_toNat

theorem bigEndian_requestId (args : Args) :
    Bytes.bigEndian 8 args.requestId.toNat = args.bytes.take 8 := by
  have hlength : (args.bytes.take 8).length = 8 := by simp [args.length_eq]
  have hsmall : Bytes.toNat (args.bytes.take 8) < 2 ^ 64 := by
    simpa [hlength] using Bytes.toNat_lt (args.bytes.take 8)
  have hsame := Bytes.bigEndian_toNat (args.bytes.take 8)
  rw [hlength] at hsame
  rw [requestId, UInt64.toNat_ofNat', Nat.mod_eq_of_lt hsmall, hsame]

end Args

namespace Message

open Layout

private theorem unpadded_append_zeros {name : Bytes} (hname : 0 ∉ name) (count : Nat) :
    unpadded (name ++ zeros count) = name := by
  have hall : ∀ byte ∈ name, decide (byte ≠ 0) = true := by
    intro byte hbyte
    simpa using fun heq : byte = 0 => hname (heq ▸ hbyte)
  rw [unpadded, List.takeWhile_append_of_pos hall]
  cases count with
  | zero => simp [zeros]
  | succ count => simp [zeros, List.replicate_succ]

def preamble (message : Message) : Bytes :=
  [message.version, message.topic.code, message.verb, 0] ++ (message.args.bytes ++ zeros 16)

@[simp] theorem length_preamble (message : Message) : message.preamble.length = 36 := by
  simp [preamble, zeros, message.args.length_eq]

def nameField (message : Message) : Bytes :=
  Bytes.ofText message.replyTo ++ zeros (nameSize - (Bytes.ofText message.replyTo).length)

theorem length_nameField {message : Message}
    (h : (Bytes.ofText message.replyTo).length ≤ nameSize) :
    message.nameField.length = nameSize := by
  simp only [nameField, List.length_append, zeros, List.length_replicate]
  omega

theorem encode_eq_ok {message : Message} {datagram : Bytes} (h : message.encode = .ok datagram) :
    message.payload.length ≤ maxPayload ∧
    (Bytes.ofText message.replyTo).length ≤ nameSize ∧ 0 ∉ Bytes.ofText message.replyTo ∧
    datagram = message.preamble ++ (message.nameField ++
      (Bytes.bigEndian 2 message.payload.length ++ message.payload)) := by
  simp only [encode] at h
  split at h
  · cases h
  split at h
  · cases h
  split at h
  · cases h
  case isFalse hpayload hlength hnul =>
    cases h
    refine ⟨Nat.le_of_not_lt hpayload, Nat.le_of_not_lt hlength, hnul, ?_⟩
    simp [preamble, nameField]

theorem decode_append_of_encode {message : Message} {datagram : Bytes}
    (h : message.encode = .ok datagram) (suffix : Bytes) :
    decode (datagram ++ suffix) = .ok message := by
  obtain ⟨hpayload, hlength, hnul, rfl⟩ := encode_eq_ok h
  let tail := Bytes.bigEndian 2 message.payload.length ++ (message.payload ++ suffix)
  let whole := message.preamble ++ (message.nameField ++ tail)
  have hwhole : message.preamble ++ (message.nameField ++
      (Bytes.bigEndian 2 message.payload.length ++ message.payload)) ++ suffix = whole := by
    simp only [whole, tail, List.append_assoc]
  have hsize : whole.length = headerSize + (message.payload.length + suffix.length) := by
    simp only [whole, tail, List.length_append, length_preamble, length_nameField hlength,
      Bytes.length_bigEndian, headerSize, nameSize]
    omega
  have hargs : (whole.drop 4).take 16 = message.args.bytes := by
    simp only [whole, preamble, List.append_assoc]
    exact Bytes.take_drop_field _ _ _ rfl message.args.length_eq
  have hname : (whole.drop 36).take nameSize = message.nameField :=
    Bytes.take_drop_field _ _ _ message.length_preamble (length_nameField hlength)
  have hfront : (message.preamble ++ message.nameField).length = 292 := by
    simp [length_nameField hlength, nameSize]
  have hdeclared : (whole.drop 292).take 2 = Bytes.bigEndian 2 message.payload.length := by
    simp only [whole, tail, ← List.append_assoc message.preamble]
    exact Bytes.take_drop_field _ _ _ hfront (by simp)
  have hcontent : (whole.drop headerSize).take message.payload.length = message.payload := by
    simp only [whole, tail, ← List.append_assoc]
    rw [List.append_assoc _ message.payload]
    exact Bytes.take_drop_field _ _ _ (by
      rw [List.length_append, hfront, Bytes.length_bigEndian, headerSize]) rfl
  have hcount : Bytes.toNat (Bytes.bigEndian 2 message.payload.length) = message.payload.length :=
    Bytes.toNat_bigEndian_of_lt (by
      simp only [maxPayload, maxDatagram, headerSize] at hpayload
      omega)
  rw [hwhole]
  unfold decode
  rw [dif_neg (by omega)]
  have hcode : whole.getD 1 0 = message.topic.code := rfl
  simp only [hcode, Topic.ofCode?_code, hname, hargs, hdeclared, hcontent, hcount, hsize, nameField,
    unpadded_append_zeros hnul, Bytes.isText_ofText, Bytes.toText_ofText]
  rw [dif_pos trivial, if_neg (by omega)]
  rfl

theorem decode_of_encode {message : Message} {datagram : Bytes}
    (h : message.encode = .ok datagram) : decode datagram = .ok message := by
  have hdecode := decode_append_of_encode h []
  rwa [List.append_nil] at hdecode

end Message

end ReplicaRing
