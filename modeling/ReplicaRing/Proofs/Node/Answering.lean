import ReplicaRing.Proofs.Node.Moves
import ReplicaRing.Proofs.Server.Willing

/-! Which datagrams a node answers, and how. -/

namespace ReplicaRing

theorem Settings.hasFitName {settings : Settings} (h : settings.validate = .ok ()) :
    settings.host.HasFitName := by
  simp only [validate] at h
  split at h
  · cases h
  split at h
  · cases h
  case _ hfit =>
    rw [not_or, Nat.not_lt] at hfit
    exact ⟨hfit.1, hfit.2⟩

namespace Server

variable {S : Type} [Storage S] {host : Host} {roster : Roster} {storage after : S} {datagram : Bytes}
  {asked answer : Message} {verb : UInt8} {payload : Bytes} {peer : Peer}

/-- The verb and the payload of the answer that a message is due from a node with the storage. -/
inductive Due (storage : S) (asked : Message) : UInt8 → Bytes → Prop
  | pong (htopic : asked.topic = .ping) (hverb : asked.verb = Verb.ping) :
      Due storage asked Verb.pong []
  | stored (entry : Entry) (after : S) (htopic : asked.topic = .store) (hverb : asked.verb = Verb.put)
      (hentry : Entry.decode asked.payload = .ok entry)
      (hput : Storage.put storage entry.key entry.value = (.ok (), after)) :
      Due storage asked Verb.putAck []
  | found (entry : Entry) (value payload : Bytes) (htopic : asked.topic = .load)
      (hverb : asked.verb = Verb.get) (hentry : Entry.decode asked.payload = .ok entry)
      (hget : Storage.get storage entry.key = .ok (some value))
      (hencode : ({ key := entry.key, value } : Entry).encode = .ok payload)
      (hdecode : Entry.decode payload = .ok { key := entry.key, value }) :
      Due storage asked Verb.getAck payload
  | missing (entry : Entry) (htopic : asked.topic = .load) (hverb : asked.verb = Verb.get)
      (hentry : Entry.decode asked.payload = .ok entry)
      (hget : Storage.get storage entry.key = .ok none) :
      Due storage asked Verb.getNack []

private theorem Answers.due (h : Answers host storage after asked answer) :
    ∃ verb payload, Due storage asked verb payload ∧
      answer = (host.reply asked verb).withPayload payload := by
  cases h with
  | pong hrole =>
      obtain ⟨htopic, hverb⟩ := (Message.role_eq_iff rfl rfl).mp hrole
      exact ⟨_, _, .pong htopic hverb, rfl⟩
  | stored entry hrole hentry hput =>
      obtain ⟨htopic, hverb⟩ := (Message.role_eq_iff rfl rfl).mp hrole
      exact ⟨_, _, .stored entry after htopic hverb hentry hput, rfl⟩
  | found entry value payload hrole hentry hget hpayload =>
      obtain ⟨htopic, hverb⟩ := (Message.role_eq_iff rfl rfl).mp hrole
      exact ⟨_, _, .found entry value payload htopic hverb hentry hget hpayload
        (Entry.decode_of_encode hpayload), rfl⟩
  | missing entry hrole hentry hget =>
      obtain ⟨htopic, hverb⟩ := (Message.role_eq_iff rfl rfl).mp hrole
      exact ⟨_, _, .missing entry htopic hverb hentry hget, rfl⟩

private theorem Due.exists_outgoing (h : Due storage asked verb payload)
    (hdecode : Message.decode datagram = .ok asked)
    (hversion : asked.version = host.protocol.version) (hname : host.HasFitName)
    (hpeer : roster.find? asked.replyTo = some peer) :
    ∃ written, (receive host roster storage datagram).outgoing = some (peer.address, written) := by
  cases h with
  | pong htopic hverb =>
      have hrole : asked.role = .ping := (Message.role_eq_iff rfl rfl).mpr ⟨htopic, hverb⟩
      obtain ⟨written, hwritten⟩ : ∃ written, (Server.pong host asked).encode = .ok written :=
        Message.exists_encode hname rfl (Nat.zero_le _)
      refine ⟨written, ?_⟩
      rw [receive_of_version hdecode hversion, handle, hrole]
      exact outgoing_respond hpeer hwritten
  | stored entry after htopic hverb hentry hput =>
      have hrole : asked.role = .put := (Message.role_eq_iff rfl rfl).mpr ⟨htopic, hverb⟩
      obtain ⟨-, written, -, hsent⟩ :=
        receive_put hdecode hversion hrole hentry hname hpeer hput
      exact ⟨written, hsent⟩
  | found entry value payload htopic hverb hentry hget hencode =>
      have hrole : asked.role = .get := (Message.role_eq_iff rfl rfl).mpr ⟨htopic, hverb⟩
      obtain ⟨-, written, -, hsent⟩ :=
        receive_get hdecode hversion hrole hentry hname hpeer hget fun held hheld => by
          cases hheld
          exact Entry.fits_of_encode hencode
      exact ⟨written, hsent⟩
  | missing entry htopic hverb hentry hget =>
      have hrole : asked.role = .get := (Message.role_eq_iff rfl rfl).mpr ⟨htopic, hverb⟩
      obtain ⟨-, written, -, hsent⟩ :=
        receive_get hdecode hversion hrole hentry hname hpeer hget fun held hheld => by cases hheld
      exact ⟨written, hsent⟩

private theorem version_eq_of_outgoing {sent : Address × Bytes}
    (hdecode : Message.decode datagram = .ok asked)
    (h : (receive host roster storage datagram).outgoing = some sent) :
    asked.version = host.protocol.version := by
  refine Decidable.byContradiction fun hversion => ?_
  simp only [receive, hdecode, if_neg hversion] at h
  cases h

end Server

namespace Node

variable {S : Type} [Storage S] {node : Node S} {datagram : Bytes} {asked : Message} {peer : Peer}
  {verb : UInt8} {payload : Bytes}

/-- The datagram is a message of the node's version, from a peer that the node knows, and an answer
with the verb and the payload is due to it. -/
structure Provokes (node : Node S) (datagram : Bytes) (asked : Message) (peer : Peer) (verb : UInt8)
    (payload : Bytes) : Prop where
  decode : Message.decode datagram = .ok asked
  version : asked.version = node.host.protocol.version
  known : node.membership.roster.find? asked.replyTo = some peer
  due : Server.Due node.storage asked verb payload

def answer (node : Node S) (asked : Message) (verb : UInt8) (payload : Bytes) : Message where
  version := node.host.protocol.version
  topic := asked.topic
  verb
  args := asked.args
  replyTo := node.host.name
  payload

theorem Provokes.isSome (h : node.Provokes datagram asked peer verb payload)
    (hname : node.host.HasFitName) : (node.receive datagram).2.2.isSome := by
  obtain ⟨written, hsent⟩ := h.due.exists_outgoing h.decode h.version hname h.known
  rw [receive_outgoing, response, hsent]
  rfl

theorem provokes_of_outgoing {target : Address} {written : Bytes}
    (h : (node.receive datagram).2.2 = some (target, written)) :
    ∃ asked peer verb payload, node.Provokes datagram asked peer verb payload ∧
      target = peer.address ∧ Message.decode written = .ok (node.answer asked verb payload) := by
  rw [receive_outgoing, response] at h
  obtain ⟨asked, reply, peer, hdecode, hpeer, htarget, hencode, hanswers⟩ :=
    Server.receive_outgoing h
  obtain ⟨verb, payload, hdue, rfl⟩ := hanswers.due
  exact ⟨asked, peer, verb, payload,
    ⟨hdecode, Server.version_eq_of_outgoing hdecode h, hpeer, hdue⟩, htarget,
    Message.decode_of_encode hencode⟩

theorem outgoing_of_isReply (hdecode : Message.decode datagram = .ok asked)
    (hreply : asked.role.isReply = true) : (node.receive datagram).2.2 = none := by
  refine Option.eq_none_iff_forall_not_mem.mpr fun sent hsent => ?_
  rw [Option.mem_def, receive_outgoing, response] at hsent
  obtain ⟨message, _, _, hmessage, -, -, -, hanswers⟩ := Server.receive_outgoing hsent
  rw [hdecode] at hmessage
  cases hmessage
  rw [hanswers.not_isReply] at hreply
  cases hreply

theorem isReply_of_outgoing {target : Address} {written : Bytes}
    (h : (node.receive datagram).2.2 = some (target, written)) :
    ∃ answer, Message.decode written = .ok answer ∧ answer.role.isReply = true := by
  rw [receive_outgoing, response] at h
  obtain ⟨_, answer, _, -, -, -, hencode, hanswers⟩ := Server.receive_outgoing h
  exact ⟨answer, Message.decode_of_encode hencode, hanswers.isReply⟩

end Node

end ReplicaRing
