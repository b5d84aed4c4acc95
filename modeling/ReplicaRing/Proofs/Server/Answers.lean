import ReplicaRing.Proofs.Codec.Record
import ReplicaRing.Server

/-! What a server answers, and to whom. -/

namespace ReplicaRing

namespace Role

def isReply : Role → Bool
  | pong | putAck | getAck | getNack => true
  | _ => false

def topic? : Role → Option Topic
  | noop => some .noop
  | ping | pong => some .ping
  | put | putAck => some .store
  | get | getAck | getNack => some .load
  | unknown => none

def verb? : Role → Option UInt8
  | noop | unknown => none
  | ping => some Verb.ping
  | pong => some Verb.pong
  | put => some Verb.put
  | putAck => some Verb.putAck
  | get => some Verb.get
  | getAck => some Verb.getAck
  | getNack => some Verb.getNack

end Role

theorem Message.topic_of_role {message : Message} {topic : Topic}
    (h : message.role.topic? = some topic) : message.topic = topic := by
  unfold role at h
  split at h
  case h_9 => cases h
  all_goals
    cases h
    assumption

theorem Message.role_eq_iff {message : Message} {role : Role} {topic : Topic} {verb : UInt8}
    (htopic : role.topic? = some topic) (hverb : role.verb? = some verb) :
    message.role = role ↔ message.topic = topic ∧ message.verb = verb := by
  constructor
  · rintro rfl
    refine ⟨topic_of_role htopic, ?_⟩
    unfold Message.role at hverb
    split at hverb
    case h_1 | h_9 => cases hverb
    all_goals
      rename_i _ hhere
      exact hhere.trans (Option.some.inj hverb)
  · rintro ⟨hsame, hsays⟩
    unfold Message.role
    rw [hsame, hsays]
    cases role with
    | noop | unknown => cases hverb
    | _ =>
        cases htopic
        cases hverb
        rfl

namespace Server

variable {S : Type} [Storage S] {host : Host} {roster : Roster} {storage after : S} {datagram : Bytes}

inductive Answers (host : Host) (storage after : S) (asked : Message) : Message → Prop
  | pong (hrole : asked.role = .ping) :
      Answers host storage after asked (host.reply asked Verb.pong)
  | stored (entry : Entry) (hrole : asked.role = .put)
      (hentry : Entry.decode asked.payload = .ok entry)
      (hput : Storage.put storage entry.key entry.value = (.ok (), after)) :
      Answers host storage after asked (host.reply asked Verb.putAck)
  | found (entry : Entry) (value payload : Bytes) (hrole : asked.role = .get)
      (hentry : Entry.decode asked.payload = .ok entry)
      (hget : Storage.get storage entry.key = .ok (some value))
      (hpayload : ({ key := entry.key, value } : Entry).encode = .ok payload) :
      Answers host storage after asked ((host.reply asked Verb.getAck).withPayload payload)
  | missing (entry : Entry) (hrole : asked.role = .get)
      (hentry : Entry.decode asked.payload = .ok entry)
      (hget : Storage.get storage entry.key = .ok none) :
      Answers host storage after asked (host.reply asked Verb.getNack)

namespace Answers

variable {asked answer : Message}

theorem requestId_eq (h : Answers host storage after asked answer) :
    answer.requestId = asked.requestId := by
  cases h <;> rfl

theorem replyTo_eq (h : Answers host storage after asked answer) : answer.replyTo = host.name := by
  cases h <;> rfl

theorem not_isReply (h : Answers host storage after asked answer) : asked.role.isReply = false := by
  cases h with
  | pong hrole | stored _ hrole | found _ _ _ hrole | missing _ hrole =>
      rw [hrole]
      rfl

theorem isReply (h : Answers host storage after asked answer) : answer.role.isReply = true := by
  cases h with
  | pong hrole =>
      have htopic : asked.topic = .ping := Message.topic_of_role (by rw [hrole]; rfl)
      simp [Message.role, Host.reply, Message.reply, htopic, Verb.pong, Role.isReply]
  | stored _ hrole =>
      have htopic : asked.topic = .store := Message.topic_of_role (by rw [hrole]; rfl)
      simp [Message.role, Host.reply, Message.reply, htopic, Verb.putAck, Role.isReply]
  | found _ _ _ hrole =>
      have htopic : asked.topic = .load := Message.topic_of_role (by rw [hrole]; rfl)
      simp [Message.role, Host.reply, Message.reply, Message.withPayload, htopic, Verb.getAck,
        Role.isReply]
  | missing _ hrole =>
      have htopic : asked.topic = .load := Message.topic_of_role (by rw [hrole]; rfl)
      simp [Message.role, Host.reply, Message.reply, htopic, Verb.getNack, Role.isReply]

end Answers

omit [Storage S] in
private theorem respond_outgoing {message : Message} {answer : Except ProtocolError Message}
    {target : Address} {written : Bytes}
    (h : (respond roster storage message answer).outgoing = some (target, written)) :
    ∃ reply peer, answer = .ok reply ∧ roster.find? message.replyTo = some peer ∧
      target = peer.address ∧ reply.encode = .ok written := by
  cases answer with
  | error error => cases h
  | ok reply =>
      cases hpeer : roster.find? message.replyTo with
      | none =>
          simp only [respond, hpeer, bind, Except.bind] at h
          cases h
      | some peer =>
          cases hwritten : reply.encode with
          | error error =>
              simp only [respond, hpeer, address, bind, Except.bind, hwritten] at h
              cases h
          | ok bytes =>
              simp only [respond, hpeer, address, bind, Except.bind, hwritten] at h
              cases h
              exact ⟨reply, peer, rfl, rfl, rfl, hwritten⟩

private theorem put_eq_ok {message reply : Message} {after : S}
    (h : put host storage message = (.ok reply, after)) :
    ∃ entry, Entry.decode message.payload = .ok entry ∧
      Storage.put storage entry.key entry.value = (.ok (), after) ∧
      reply = host.reply message Verb.putAck := by
  unfold put at h
  split at h
  · cases h
  case _ entry hentry =>
    split at h
    · cases h
    case _ hput =>
      cases h
      exact ⟨entry, hentry, hput, rfl⟩

private theorem get_eq_ok {message reply : Message} (hrole : message.role = .get)
    (h : get host storage message = .ok reply) :
    Answers host storage after message reply := by
  obtain ⟨entry, hentry, h⟩ := Except.of_mapError_bind h
  obtain ⟨held, hget, h⟩ := Except.of_mapError_bind h
  cases held with
  | none =>
      cases h
      exact .missing entry hrole hentry hget
  | some value =>
      obtain ⟨payload, hpayload, h⟩ := Except.of_mapError_bind h
      cases h
      exact .found entry value payload hrole hentry hget hpayload

/-- What is sent answers the message, and goes to the peer that the message names. -/
theorem receive_outgoing {target : Address} {written : Bytes}
    (h : (receive host roster storage datagram).outgoing = some (target, written)) :
    ∃ asked reply peer, Message.decode datagram = .ok asked ∧
      roster.find? asked.replyTo = some peer ∧ target = peer.address ∧
      reply.encode = .ok written ∧
      Answers host storage (receive host roster storage datagram).storage asked reply := by
  unfold receive at h ⊢
  cases hdecode : Message.decode datagram with
  | error error =>
      rw [hdecode] at h
      cases h
  | ok asked =>
      rw [hdecode] at h
      simp only at h ⊢
      split at h
      case isFalse => cases h
      case isTrue hversion =>
        rw [if_pos hversion]
        unfold handle at h ⊢
        cases hrole : asked.role with
        | ping =>
            rw [hrole] at h
            obtain ⟨reply, peer, hanswer, hpeer, htarget, hwritten⟩ := respond_outgoing h
            cases hanswer
            exact ⟨asked, _, peer, rfl, hpeer, htarget, hwritten, .pong hrole⟩
        | put =>
            rw [hrole] at h
            obtain ⟨reply, peer, hanswer, hpeer, htarget, hwritten⟩ := respond_outgoing h
            obtain ⟨entry, hentry, hput, rfl⟩ := put_eq_ok (Prod.ext hanswer rfl)
            exact ⟨asked, _, peer, rfl, hpeer, htarget, hwritten, .stored entry hrole hentry hput⟩
        | get =>
            rw [hrole] at h
            obtain ⟨reply, peer, hanswer, hpeer, htarget, hwritten⟩ := respond_outgoing h
            exact ⟨asked, reply, peer, rfl, hpeer, htarget, hwritten, get_eq_ok hrole hanswer⟩
        | _ =>
            rw [hrole] at h
            cases h

theorem receive_reply {message : Message}
    (h : (receive host roster storage datagram).reply = some message) :
    Message.decode datagram = .ok message ∧ message.role.isReply = true := by
  unfold receive at h
  split at h
  · cases h
  case _ asked hdecode =>
    split at h
    case isFalse => cases h
    case isTrue =>
      unfold handle at h
      split at h
      · cases h
      · cases h
      · cases h
      · cases h
      · cases h
      all_goals
        rename_i hrole
        cases h
        exact ⟨hdecode, by rw [hrole]; rfl⟩

end Server

end ReplicaRing
