import ReplicaRing.Proofs.Codec.Decoding
import ReplicaRing.Proofs.Codec.Spelling
import ReplicaRing.Proofs.Server.Storing
import ReplicaRing.Proofs.Server.Willing

/-! A server hands out again what it has acknowledged, as far as that fits a message. -/

namespace ReplicaRing

private theorem Message.fits_of_encode {message : Message} {datagram : Bytes}
    (h : message.encode = .ok datagram) : message.Fits ∧ datagram = message.layout := by
  rcases message.fits_or_refuses with hfits | ⟨error, hrefuses⟩
  · rw [hfits.encode] at h
    cases h
    exact ⟨hfits, rfl⟩
  · rw [hrefuses.encode] at h
    cases h

private theorem Message.Fits.hasFitName {host : Host} {message : Message} (h : message.Fits)
    (hreplyTo : message.replyTo = host.name) : host.HasFitName :=
  ⟨hreplyTo ▸ h.length, hreplyTo ▸ mt Bytes.zero_mem_ofText.mp h.noNul⟩

namespace Server

variable {S : Type} [Storage S] {host : Host} {roster : Roster} {storage after : S}
  {put get : Bytes} {asked question answer : Message} {entry : Entry} {peer : Peer}

def Acknowledges (host : Host) (roster : Roster) (storage : S) (datagram : Bytes) : Prop :=
  ∃ target written answer, (receive host roster storage datagram).outgoing = some (target, written) ∧
    Message.decode written = .ok answer ∧ answer.role = .putAck

structure AsksFor (host : Host) (datagram key : Bytes) (question : Message) : Prop where
  decode : Message.decode datagram = .ok question
  version : question.version = host.protocol.version
  role : question.role = .get
  payload : ∃ value, Entry.decode question.payload = .ok { key, value }

/-- The host sends the entry to the peer, in answer to a question. -/
def Serves (host : Host) (roster : Roster) (storage : S) (datagram : Bytes) (question : Message)
    (peer : Peer) (entry : Entry) : Prop :=
  ∃ written payload,
    (receive host roster storage datagram).outgoing = some (peer.address, written) ∧
      written.length ≤ Layout.maxDatagram ∧
      Message.decode written = .ok ((host.reply question Verb.getAck).withPayload payload) ∧
      Entry.decode payload = .ok entry

private theorem Answers.stored_of_putAck (h : Answers host storage after asked answer)
    (hrole : answer.role = .putAck) :
    ∃ entry, Entry.decode asked.payload = .ok entry ∧
      Storage.put storage entry.key entry.value = (.ok (), after) := by
  have hanswer : answer.topic = .store := Message.topic_of_role (by rw [hrole]; rfl)
  have htopic : asked.topic = .store := by
    rw [← hanswer]
    cases h <;> rfl
  cases h with
  | stored entry _ hentry hput => exact ⟨entry, hentry, hput⟩
  | pong hasked =>
      have hother : asked.topic = .ping := Message.topic_of_role (by rw [hasked]; rfl)
      cases htopic.symm.trans hother
  | found _ _ _ hasked | missing _ hasked =>
      have hother : asked.topic = .load := Message.topic_of_role (by rw [hasked]; rfl)
      cases htopic.symm.trans hother

private theorem Acknowledges.stored (h : Acknowledges host roster storage put) :
    ∃ message entry, Message.decode put = .ok message ∧ Entry.decode message.payload = .ok entry ∧
      Storage.put storage entry.key entry.value = (.ok (), (receive host roster storage put).storage) ∧
      host.HasFitName := by
  obtain ⟨target, written, answer, hsent, hdecode, hrole⟩ := h
  obtain ⟨asked, reply, peer, hasked, -, -, hencode, hanswers⟩ := receive_outgoing hsent
  rw [Message.decode_of_encode hencode] at hdecode
  cases hdecode
  obtain ⟨entry, hentry, hput⟩ := hanswers.stored_of_putAck hrole
  exact ⟨asked, entry, hasked, hentry, hput,
    (Message.fits_of_encode hencode).1.hasFitName hanswers.replyTo_eq⟩

private theorem acknowledges_of_put (hdecode : Message.decode put = .ok asked)
    (hversion : asked.version = host.protocol.version) (hrole : asked.role = .put)
    (hentry : Entry.decode asked.payload = .ok entry) (hname : host.HasFitName)
    (hpeer : roster.find? asked.replyTo = some peer)
    (hput : Storage.put storage entry.key entry.value = (.ok (), after)) :
    Acknowledges host roster storage put := by
  obtain ⟨_, written, -, hsent⟩ := receive_put hdecode hversion hrole hentry hname hpeer hput
  obtain ⟨message, answer, _, hmessage, -, -, hencode, hanswers⟩ := receive_outgoing hsent
  rw [hdecode] at hmessage
  cases hmessage
  refine ⟨_, written, answer, hsent, Message.decode_of_encode hencode, ?_⟩
  cases hanswers with
  | stored =>
      have htopic : asked.topic = .store := Message.topic_of_role (by rw [hrole]; rfl)
      exact (Message.role_eq_iff rfl rfl).mpr ⟨htopic, rfl⟩
  | pong hother | found _ _ _ hother | missing _ hother =>
      rw [hrole] at hother
      cases hother

variable {sent : Address × Bytes}

private theorem AsksFor.serves (h : AsksFor host get entry.key question)
    (hget : Storage.get storage entry.key = .ok (some entry.value))
    (hpeer : roster.find? question.replyTo = some peer)
    (hsent : (receive host roster storage get).outgoing = some sent) :
    entry.Fits ∧ Serves host roster storage get question peer entry := by
  obtain ⟨target, written⟩ := sent
  obtain ⟨asked, reply, known, hasked, hknown, rfl, hencode, hanswers⟩ := receive_outgoing hsent
  rw [h.decode] at hasked
  cases hasked
  rw [hpeer] at hknown
  cases hknown
  obtain ⟨value, hquestion⟩ := h.payload
  cases hanswers with
  | found requested held payload _ hrequested hheld hpayload =>
      rw [hquestion] at hrequested
      cases hrequested
      rw [hget] at hheld
      cases hheld
      obtain ⟨hfits, hlayout⟩ := Message.fits_of_encode hencode
      refine ⟨Entry.fits_of_encode hpayload, written, payload, hsent, ?_,
        Message.decode_of_encode hencode, Entry.decode_of_encode hpayload⟩
      rw [hlayout]
      exact hfits.written.bounded
  | missing requested _ hrequested hheld =>
      rw [hquestion] at hrequested
      cases hrequested
      rw [hget] at hheld
      cases hheld
  | pong hother | stored _ hother =>
      rw [h.role] at hother
      cases hother

variable [LawfulStorage S]

/-- What a host acknowledges is an entry that it hands out to any peer it knows that asks for the key
next, if the entry fits a message.  Where it does not, the question is dropped; such an entry came in a
payload with room for one byte more at most, its key or its value being an array without a length. -/
theorem serves_unless_oversized (host : Host) (roster : Roster) (storage : S) (put : Bytes)
    (hsize : put.length ≤ Layout.maxDatagram) (hack : Acknowledges host roster storage put) :
    ∃ message entry, Message.decode put = .ok message ∧ Entry.decode message.payload = .ok entry ∧
      (∀ (later : Roster) (get : Bytes) (question : Message) (peer : Peer),
        AsksFor host get entry.key question → later.find? question.replyTo = some peer →
        (entry.Fits →
          Serves host later (receive host roster storage put).storage get question peer entry) ∧
        (¬entry.Fits →
          (receive host later (receive host roster storage put).storage get).outgoing = none)) ∧
      (¬entry.Fits → Layout.maxPayload < message.payload.length +
        [entry.key, entry.value].countP (Cbor.StandsOpen message.payload ·)) := by
  obtain ⟨message, entry, hdecode, hentry, hput, hname⟩ := hack.stored
  have hget := LawfulStorage.get_put hput
  refine ⟨message, entry, hdecode, hentry, fun later get question peer hasks hpeer =>
    ⟨fun hfits => ?_, fun hlarge => ?_⟩, fun hlarge => ?_⟩
  · obtain ⟨value, hquestion⟩ := hasks.payload
    obtain ⟨_, written, -, hsent⟩ := receive_get hasks.decode hasks.version hasks.role hquestion
      hname hpeer hget fun held hheld => by
        cases hheld
        exact hfits
    exact (hasks.serves hget hpeer hsent).2
  · exact Option.eq_none_iff_forall_not_mem.mpr fun sent hsent =>
      hlarge (hasks.serves hget hpeer hsent).1
  · obtain ⟨hreadable, hreads⟩ := Message.reads_of_decode hdecode
    have hpayload := (hreads.fits (Message.declared_le_of_length_le hreadable hsize)).payload
    have hbound := Entry.size_le_of_decode (by
      simp only [Layout.maxPayload, Layout.maxDatagram, Layout.headerSize] at hpayload
      omega) hentry
    rw [Entry.Fits, Entry.length_written, Nat.not_le] at hlarge
    exact Nat.lt_of_lt_of_le hlarge hbound

end Server

namespace Hoarder

/-! A server that is given zeros, as an array without a length, by a peer that then asks for them. -/

def host : Host := ⟨"server", {}⟩

def asker : Peer := ⟨"asker", .localhost 2, Peer.defaultTokens⟩

def roster : Roster := ⟨[asker, ⟨"server", .localhost 1, Peer.defaultTokens⟩], by decide⟩

def put (count : Nat) : Message where
  version := 1
  topic := .store
  verb := Verb.put
  args := .zero
  replyTo := "asker"
  payload := Cbor.writeMap [("key", Cbor.writeBytes []),
    ("value", Cbor.writeOpen (List.replicate count 0))]

def question : Message where
  version := 1
  topic := .load
  verb := Verb.get
  args := .zero
  replyTo := "asker"
  payload := Entry.written { key := [] }

def get : Bytes := question.layout

variable {count : Nat}

private theorem decode_payload (count : Nat) : Entry.decode (put count).payload = .ok
    (Entry.zeros count) := by
  have hsmall : ∀ byte ∈ List.replicate count (0 : UInt8), byte < 24 := fun byte hbyte => by
    rw [List.eq_of_mem_replicate hbyte]
    decide
  have hempty : ([] : Bytes).length < 2 ^ 64 := by decide
  have hkey : ∀ rest, Cbor.readBytes (Cbor.writeBytes [] ++ rest) =
      some ((Entry.zeros count).key, rest) := Cbor.readBytes_writeBytes hempty
  have hvalue : ∀ rest, Cbor.readBytes (Cbor.writeOpen (List.replicate count 0) ++ rest) =
      some ((Entry.zeros count).value, rest) := Cbor.readBytes_writeOpen hsmall
  have hdecode := Entry.decode_append_writeMap hkey hvalue []
  rwa [List.append_nil] at hdecode

private theorem length_payload (count : Nat) : (put count).payload.length = count + 14 := by
  have hkey : (Cbor.writeText "key").length = 4 ∧ (Cbor.writeBytes []).length = 1 := by decide
  have hvalue : (Cbor.writeText "value").length = 6 := by decide
  have hmap : Cbor.headerLength 2 = 1 := rfl
  simp only [put, Cbor.writeMap, List.length_append, Cbor.length_writeHeader, List.flatMap_cons,
    List.flatMap_nil, List.length_cons, List.length_nil, hkey, hvalue, Cbor.length_writeOpen,
    List.length_replicate, hmap]
  omega

private theorem fits_put (h : count ≤ 65227) : (put count).Fits where
  payload := by
    rw [length_payload]
    simp only [Layout.maxPayload, Layout.maxDatagram, Layout.headerSize]
    omega
  length := show (Bytes.ofText "asker").length ≤ Layout.nameSize by decide
  noNul := show '\x00' ∉ "asker".toList by decide

private theorem fits_question : question.Fits := ⟨by decide, by decide, by decide⟩

private theorem asksFor : Server.AsksFor host get [] question where
  decode := Message.decode_of_encode fits_question.encode
  version := rfl
  role := rfl
  payload := ⟨[], Entry.decode_of_encode rfl⟩

private theorem acknowledges (h : count ≤ 65227) :
    Server.Acknowledges host roster (Table.empty : MemoryStore) (put count).layout :=
  Server.acknowledges_of_put (Message.decode_of_encode (fits_put h).encode) rfl rfl
    (decode_payload count) ⟨by decide, by decide⟩ (by rfl) rfl

private theorem length_layout_le (h : count ≤ 65227) :
    (put count).layout.length ≤ Layout.maxDatagram :=
  (fits_put h).written.bounded

theorem serves_zeros :
    Server.Serves host roster
      (Server.receive host roster (Table.empty : MemoryStore) (put 65226).layout).storage get question
      asker (Entry.zeros 65226) := by
  obtain ⟨message, entry, hdecode, hentry, hserves, -⟩ :=
    Server.serves_unless_oversized host roster (Table.empty : MemoryStore) (put 65226).layout
      (length_layout_le (by decide)) (acknowledges (by decide))
  rw [Message.decode_of_encode (fits_put (by decide)).encode] at hdecode
  cases hdecode
  rw [decode_payload] at hentry
  cases hentry
  refine (hserves roster get question asker asksFor (by rfl)).1 ?_
  rw [Entry.Fits, Entry.length_written, Entry.size_zeros (by decide) (by decide)]
  decide

/-- One zero more is acknowledged as well, but whoever asks for it next is not answered. -/
theorem drops_zeros :
    (put 65227).layout.length ≤ Layout.maxDatagram ∧
      Server.Stores (put 65227).layout (Entry.zeros 65227) ∧
      Server.Acknowledges host roster (Table.empty : MemoryStore) (put 65227).layout ∧
      Server.AsksFor host get (Entry.zeros 65227).key question ∧
      roster.find? question.replyTo = some asker ∧
      (Server.receive host roster
        (Server.receive host roster (Table.empty : MemoryStore) (put 65227).layout).storage
        get).outgoing = none := by
  have hdecode := Message.decode_of_encode (fits_put (Nat.le_refl 65227)).encode
  have hack := acknowledges (Nat.le_refl 65227)
  refine ⟨length_layout_le (Nat.le_refl _), ⟨_, hdecode, rfl, decode_payload _⟩, hack, asksFor, by rfl,
    Option.eq_none_iff_forall_not_mem.mpr fun sent hsent => ?_⟩
  obtain ⟨message, entry, hmessage, hentry, hput, -⟩ := hack.stored
  rw [hdecode] at hmessage
  cases hmessage
  rw [decode_payload] at hentry
  cases hentry
  have hfits := (asksFor.serves (LawfulStorage.get_put hput) (by rfl) hsent).1
  rw [Entry.Fits, Entry.length_written, Entry.size_zeros (by decide) (by decide)] at hfits
  revert hfits
  decide

end Hoarder

end ReplicaRing
