import Mathlib.Data.List.TakeWhile
import ReplicaRing.Proofs.Codec.Encoding

/-!
Which datagrams can be read, and what becomes of one that is read and written again: all that a
reader skips is zero then.
-/

namespace ReplicaRing

open Specimen (overwrite)

namespace Topic

private theorem code_of_ofCode? {code : UInt8} {topic : Topic} (h : ofCode? code = some topic) :
    topic.code = code := by
  simpa using List.find?_some h

private theorem ofCode?_eq_none_iff {code : UInt8} : ofCode? code = none ↔ code ∉ [0, 1, 3, 4] := by
  have hcodes : [noop, ping, store, load].map Topic.code = [0, 1, 3, 4] := rfl
  rw [ofCode?, List.find?_eq_none, ← hcodes]
  simp [eq_comm (a := code)]

private theorem exists_of_code {code : UInt8} (h : code ∈ [0, 1, 3, 4]) :
    ∃ topic, ofCode? code = some topic := by
  rw [← Option.ne_none_iff_exists', ne_eq, ofCode?_eq_none_iff]
  exact not_not_intro h

end Topic

namespace Message

open Layout

def declared (datagram : Bytes) : Nat := Bytes.toNat ((datagram.drop 292).take 2)

def nameIn (datagram : Bytes) : Bytes := unpadded ((datagram.drop 36).take nameSize)

structure Readable (datagram : Bytes) : Prop where
  size : headerSize ≤ datagram.length
  topic : datagram.getD 1 0 ∈ [0, 1, 3, 4]
  name : (nameIn datagram).IsText
  payload : headerSize + declared datagram ≤ datagram.length

/-- Why a datagram cannot be read; the first reason is the one that counts. -/
inductive Rejects (datagram : Bytes) : WireError → Prop
  | size (h : datagram.length < headerSize) : Rejects datagram (.packetTooSmall datagram.length)
  | topic (hsize : headerSize ≤ datagram.length) (h : datagram.getD 1 0 ∉ [0, 1, 3, 4]) :
      Rejects datagram (.unknownTopic (datagram.getD 1 0))
  | name (hsize : headerSize ≤ datagram.length) (htopic : datagram.getD 1 0 ∈ [0, 1, 3, 4])
      (fault : Utf8.Fault) (h : Utf8.fault? (nameIn datagram) = some fault) :
      Rejects datagram (.replyToNotText fault)
  | payload (hsize : headerSize ≤ datagram.length) (htopic : datagram.getD 1 0 ∈ [0, 1, 3, 4])
      (hname : (nameIn datagram).IsText) (h : datagram.length < headerSize + declared datagram) :
      Rejects datagram (.truncated (declared datagram) (datagram.length - headerSize))

/-- The datagram without what follows its payload, and with zeros where nothing is read. -/
def canonical (datagram : Bytes) : Bytes :=
  let name := nameIn datagram
  [(3, 1), (20, 16), (36 + name.length, nameSize - name.length)].foldl
    (fun bytes (offset, count) => overwrite bytes offset (zeros count))
    (datagram.take (headerSize + declared datagram))

variable {datagram : Bytes}

private theorem Rejects.decode {error : WireError} (h : Rejects datagram error) :
    decode datagram = .error error := by
  unfold Message.decode
  cases h with
  | size h => rw [dif_pos h]
  | topic hsize h =>
      rw [dif_neg (Nat.not_lt.mpr hsize)]
      simp only [Topic.ofCode?_eq_none_iff.mpr h]
  | name hsize htopic fault h =>
      obtain ⟨topic, htopic⟩ := Topic.exists_of_code htopic
      have hname : ¬(nameIn datagram).IsText := by
        rw [← Utf8.fault?_eq_none_iff, h]
        exact nofun
      unfold nameIn at hname h
      rw [dif_neg (Nat.not_lt.mpr hsize)]
      simp only [htopic]
      rw [dif_neg hname, h, Option.getD_some]
  | payload hsize htopic hname h =>
      obtain ⟨topic, htopic⟩ := Topic.exists_of_code htopic
      unfold nameIn at hname
      have hshort : datagram.length - headerSize < declared datagram := by omega
      unfold declared at hshort ⊢
      rw [dif_neg (Nat.not_lt.mpr hsize)]
      simp only [htopic]
      rw [dif_pos hname, if_pos hshort]

structure Reads (datagram : Bytes) (message : Message) : Prop where
  version : message.version = datagram.getD 0 0
  topic : message.topic.code = datagram.getD 1 0
  verb : message.verb = datagram.getD 2 0
  args : message.args.bytes = (datagram.drop 4).take 16
  replyTo : Bytes.ofText message.replyTo = nameIn datagram
  payload : message.payload = (datagram.drop headerSize).take (declared datagram)

private theorem Readable.decode (h : Readable datagram) :
    ∃ message, decode datagram = .ok message ∧ Reads datagram message := by
  obtain ⟨topic, htopic⟩ := Topic.exists_of_code h.topic
  have hsize := h.size
  have hname := h.name
  have hpayload : ¬datagram.length - headerSize < declared datagram := by
    have henough := h.payload
    omega
  unfold nameIn at hname
  unfold declared at hpayload
  have hargs : ((datagram.drop 4).take 16).length = 16 := by
    rw [List.length_take, List.length_drop]
    simp only [headerSize] at hsize
    omega
  refine ⟨{
    version := datagram.getD 0 0
    topic
    verb := datagram.getD 2 0
    args := ⟨_, hargs⟩
    replyTo := Bytes.toText _ hname
    payload := (datagram.drop headerSize).take (declared datagram) }, ?_, ?_⟩
  · unfold Message.decode
    rw [dif_neg (Nat.not_lt.mpr hsize)]
    simp only [htopic]
    rw [dif_pos hname, if_neg hpayload]
    rfl
  · exact {
      version := rfl
      topic := Topic.code_of_ofCode? htopic
      verb := rfl
      args := rfl
      replyTo := Bytes.ofText_toText _ hname
      payload := rfl }

private theorem readable_or_rejects (datagram : Bytes) :
    Readable datagram ∨ ∃ error, Rejects datagram error := by
  rcases Nat.lt_or_ge datagram.length headerSize with hsmall | hsize
  · exact .inr ⟨_, .size hsmall⟩
  by_cases htopic : datagram.getD 1 0 ∈ [0, 1, 3, 4]
  case neg => exact .inr ⟨_, .topic hsize htopic⟩
  by_cases hname : (nameIn datagram).IsText
  case neg =>
    obtain ⟨fault, hfault⟩ := Utf8.exists_fault hname
    exact .inr ⟨_, .name hsize htopic fault hfault⟩
  rcases Nat.lt_or_ge datagram.length (headerSize + declared datagram) with hshort | hpayload
  · exact .inr ⟨_, .payload hsize htopic hname hshort⟩
  · exact .inl ⟨hsize, htopic, hname, hpayload⟩

private theorem overwrite_pieces {front reserved args gap name tail : Bytes} (rest : Bytes)
    (hfront : front.length = 3) (hreserved : reserved.length = 1) (hargs : args.length = 16)
    (hgap : gap.length = 16) (htail : tail.length = nameSize - name.length) :
    overwrite (overwrite (overwrite
        (front ++ (reserved ++ (args ++ (gap ++ (name ++ (tail ++ rest)))))) 3 (zeros 1)) 20 (zeros 16))
        (36 + name.length) (zeros (nameSize - name.length)) =
      front ++ (zeros 1 ++ (args ++ (zeros 16 ++ (name ++
        (zeros (nameSize - name.length) ++ rest))))) := by
  have hskipped : (front ++ zeros 1 ++ args).length = 20 := by simp [hfront, hargs]
  have hnamed : (front ++ zeros 1 ++ args ++ zeros 16 ++ name).length = 36 + name.length := by
    simp [hfront, hargs]
    omega
  have hsecond := overwrite_field _ gap (name ++ (tail ++ rest)) (zeros 16) hskipped (by simp [hgap])
  have hthird := overwrite_field _ tail rest (zeros (nameSize - name.length)) hnamed (by simp [htail])
  simp only [List.append_assoc] at hsecond hthird
  rw [overwrite_field _ _ _ _ hfront (by simp [hreserved]), hsecond, hthird]

private theorem take_four (h : 4 ≤ datagram.length) :
    datagram.take 4 =
      [datagram.getD 0 0, datagram.getD 1 0, datagram.getD 2 0] ++ [datagram.getD 3 0] := by
  rcases datagram with _ | ⟨first, _ | ⟨second, _ | ⟨third, _ | ⟨fourth, rest⟩⟩⟩⟩
  case cons.cons.cons.cons => rfl
  all_goals simp at h

/-- A datagram in the pieces that its reader makes of it, and those that it skips. -/
theorem Readable.take_eq (h : Readable datagram) :
    ∃ tail : Bytes, tail.length = nameSize - (nameIn datagram).length ∧
      datagram.take (headerSize + declared datagram) =
        [datagram.getD 0 0, datagram.getD 1 0, datagram.getD 2 0] ++ ([datagram.getD 3 0] ++
          ((datagram.drop 4).take 16 ++ ((datagram.drop 20).take 16 ++ (nameIn datagram ++ (tail ++
            ((datagram.drop 292).take 2 ++ (datagram.drop headerSize).take (declared datagram))))))) := by
  have hsize := h.size
  simp only [headerSize] at hsize ⊢
  -- The name and what is behind it in its field are one piece here, and are parted last.
  let field := (datagram.drop 36).take nameSize
  have hfield : field = nameIn datagram ++ field.dropWhile (· ≠ 0) :=
    List.takeWhile_append_dropWhile.symm
  have hlength : field.length = nameSize := by
    simp only [field, nameSize, List.length_take, List.length_drop]
    omega
  refine ⟨field.dropWhile (· ≠ 0), ?_, ?_⟩
  · have hsum := congrArg List.length hfield
    rw [hlength, List.length_append] at hsum
    omega
  · have hsplit : 294 + declared datagram = 4 + (16 + (16 + (256 + (2 + declared datagram)))) := by
      omega
    have hfour := take_four (by omega : 4 ≤ datagram.length)
    rw [← List.append_assoc (nameIn datagram), ← hfield, hsplit]
    simp only [List.take_add, List.drop_drop, hfour, List.append_assoc, Nat.reduceAdd, field, nameSize]

private theorem Readable.canonical_eq (h : Readable datagram) :
    canonical datagram = [datagram.getD 0 0, datagram.getD 1 0, datagram.getD 2 0] ++ (zeros 1 ++
      ((datagram.drop 4).take 16 ++ (zeros 16 ++ (nameIn datagram ++
        (zeros (nameSize - (nameIn datagram).length) ++
          ((datagram.drop 292).take 2 ++ (datagram.drop headerSize).take (declared datagram))))))) := by
  obtain ⟨tail, htail, htake⟩ := h.take_eq
  have hsize := h.size
  simp only [headerSize] at hsize
  have hargs : ((datagram.drop 4).take 16).length = 16 := by
    rw [List.length_take, List.length_drop]
    omega
  have hgap : ((datagram.drop 20).take 16).length = 16 := by
    rw [List.length_take, List.length_drop]
    omega
  simp only [canonical, List.foldl_cons, List.foldl_nil]
  rw [htake]
  exact overwrite_pieces _ rfl rfl hargs hgap htail

private theorem Reads.canonical_eq {message : Message} (hreads : Reads datagram message)
    (h : Readable datagram) :
    canonical datagram = message.preamble ++ (message.nameField ++
      (Bytes.bigEndian 2 message.payload.length ++ message.payload)) := by
  have hdeclared : Bytes.bigEndian 2 (declared datagram) = (datagram.drop 292).take 2 := by
    have hsize := h.size
    simp only [headerSize] at hsize
    have hlength : ((datagram.drop 292).take 2).length = 2 := by
      rw [List.length_take, List.length_drop]
      omega
    have hsame := Bytes.bigEndian_toNat ((datagram.drop 292).take 2)
    rwa [hlength] at hsame
  have hpayload : message.payload.length = declared datagram := by
    have henough := h.payload
    rw [hreads.payload, List.length_take, List.length_drop]
    omega
  rw [h.canonical_eq, hpayload, hdeclared, preamble, nameField, hreads.version, hreads.topic,
    hreads.verb, hreads.args, hreads.replyTo, hreads.payload]
  simp only [zeros, List.replicate_one, List.append_assoc, List.cons_append, List.nil_append]

theorem Reads.fits {message : Message} (hreads : Reads datagram message)
    (hsmall : declared datagram ≤ maxPayload) : message.Fits where
  payload := by
    rw [hreads.payload, List.length_take]
    exact Nat.le_trans (Nat.min_le_left ..) hsmall
  length := by
    rw [hreads.replyTo]
    refine Nat.le_trans (List.takeWhile_sublist _).length_le ?_
    exact List.length_take_le ..
  noNul := by
    rw [← Bytes.zero_mem_ofText, hreads.replyTo]
    intro hzero
    simpa using List.mem_takeWhile_imp hzero

theorem declared_le_of_length_le (h : Readable datagram) (hsmall : datagram.length ≤ maxDatagram) :
    declared datagram ≤ maxPayload := by
  have henough := h.payload
  simp only [maxPayload]
  omega

private theorem decode_eq_error_iff {error : WireError} :
    decode datagram = .error error ↔ Rejects datagram error := by
  refine ⟨fun herror => ?_, Rejects.decode⟩
  rcases readable_or_rejects datagram with hreadable | ⟨refusal, hrejects⟩
  · obtain ⟨message, hdecode, -⟩ := hreadable.decode
    rw [hdecode] at herror
    cases herror
  · rw [hrejects.decode] at herror
    cases herror
    exact hrejects

theorem reads_of_decode {message : Message} (h : decode datagram = .ok message) :
    Readable datagram ∧ Reads datagram message := by
  rcases readable_or_rejects datagram with hreadable | ⟨refusal, hrejects⟩
  · obtain ⟨other, hdecode, hreads⟩ := hreadable.decode
    rw [hdecode] at h
    cases h
    exact ⟨hreadable, hreads⟩
  · rw [hrejects.decode] at h
    cases h

private theorem encode_of_decode {message : Message} (h : decode datagram = .ok message)
    (hsmall : declared datagram ≤ maxPayload) : message.encode = .ok (canonical datagram) := by
  obtain ⟨hreadable, hreads⟩ := reads_of_decode h
  have hfits := hreads.fits hsmall
  rw [hfits.encode, layout_eq hfits.length, hreads.canonical_eq hreadable]

/-- A datagram is refused for the first thing that is wrong with it, or else is read.  What is read
can be written again, and then is the datagram without all that was not read. -/
theorem decode_exact (datagram : Bytes) :
    (∀ error, decode datagram = .error error ↔ Rejects datagram error) ∧
      ((∃ message, decode datagram = .ok message) ↔ Readable datagram) ∧
      ∀ message, decode datagram = .ok message → Reads datagram message ∧
        (datagram.length ≤ maxDatagram → declared datagram ≤ maxPayload) ∧
        (declared datagram ≤ maxPayload → message.encode = .ok (canonical datagram) ∧
          decode (canonical datagram) = .ok message) := by
  refine ⟨fun error => decode_eq_error_iff, ⟨?_, fun hreadable => ?_⟩, fun message hdecode => ?_⟩
  · rintro ⟨message, hdecode⟩
    exact (reads_of_decode hdecode).1
  · obtain ⟨message, hdecode, -⟩ := hreadable.decode
    exact ⟨message, hdecode⟩
  · obtain ⟨hreadable, hreads⟩ := reads_of_decode hdecode
    refine ⟨hreads, declared_le_of_length_le hreadable, fun hsmall => ?_⟩
    have hencode := encode_of_decode hdecode hsmall
    exact ⟨hencode, decode_of_encode hencode⟩

end Message

end ReplicaRing
