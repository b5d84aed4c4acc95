import ReplicaRing.Proofs.Fleet.Stages

/-! What the end of a replication says of the storages of its targets. -/

namespace ReplicaRing.Fleet.Execution

open Replication (Tally State Standing)

variable {Member S : Type} [DecidableEq Member] [Storage S] {e : Execution Member S}
  {time moment : Nat} {member server : Member} {index : Nat} {request : Request} {id : UInt64}
  {key value : Bytes} {level : Level} {answer : Message}

/-- A server carries out a put that an operation has asked it for. -/
structure Puts (e : Execution Member S) (moment : Nat) (server asker : Member) (index : Nat)
    (key value : Bytes) : Prop where
  asked : ∃ datagram message, e.schedule moment = .deliver server datagram ∧
    (e.address server, datagram) ∈ (e.after moment).sent ∧
    Message.decode datagram = .ok message ∧ message.role = .put ∧
    message.replyTo = (e.host asker).name ∧ message.requestId = e.requestId asker index ∧
    Entry.decode message.payload = .ok { key, value }
  done : Storage.put (e.node moment server).storage key value =
    (.ok (), (e.node (moment + 1) server).storage)

def Holds (e : Execution Member S) (moment : Nat) (server : Member) (key : Bytes)
    (held : Option Bytes) : Prop :=
  Storage.get (e.node moment server).storage key = .ok held

private theorem Asked.replication {asked : Message}
    {run : Run Tally State Replication.Input} (h : e.Asked moment member index asked)
    (hoperation : e.operation? time member index = some (.replication request id run))
    (hle : moment ≤ time) :
    asked.replyTo = (e.host member).name ∧ asked.role = request.role ∧
      Entry.decode asked.payload = .ok request.entry := by
  obtain ⟨operation, hlater, hrequests⟩ := h.mono hle
  rw [hoperation] at hlater
  cases hlater
  exact ⟨hrequests.replyTo, hrequests.content.2⟩

namespace Answered

variable {run : Run Tally State Replication.Input}

theorem puts (hlawful : e.Lawful) (h : e.Answered moment member index server answer)
    (hoperation : e.operation? time member index =
      some (.replication (.store key value level) id run))
    (hle : moment ≤ time) : e.Puts moment server member index key value := by
  obtain ⟨asked, hasked, hserves⟩ := h
  obtain ⟨hreplyTo, hput, hpayload⟩ := hasked.replication hoperation hle
  obtain ⟨datagram, haction, hsent, hdecode⟩ := hserves.received
  refine ⟨⟨datagram, asked, haction, hsent, hdecode, hput, hreplyTo,
    hasked.requestId_eq hlawful, hpayload⟩, ?_⟩
  cases hserves.answers with
  | stored entry _ hentry hdone =>
      rw [hpayload] at hentry
      cases hentry
      exact hdone
  | pong hrole => cases hput.symm.trans hrole
  | found _ _ _ hrole => cases hput.symm.trans hrole
  | missing _ hrole => cases hput.symm.trans hrole

theorem holds (h : e.Answered moment member index server answer)
    (hoperation : e.operation? time member index = some (.replication (.load key level) id run))
    (hle : moment ≤ time) :
    (∃ held, e.Holds moment server key (some held) ∧
      (Request.load key level).classify answer = some (.ack (.found held))) ∨
    e.Holds moment server key none ∧ (Request.load key level).classify answer = some .nack := by
  obtain ⟨asked, hasked, hserves⟩ := h
  obtain ⟨-, hget, hpayload⟩ := hasked.replication hoperation hle
  cases hserves.answers with
  | found entry held payload _ hentry hheld hwritten =>
      rw [hpayload] at hentry
      cases hentry
      refine .inl ⟨held, hheld, ?_⟩
      have hread := Entry.decode_of_encode hwritten
      simp only [Request.classify, Host.reply, Message.withPayload, Message.reply, if_pos, hread]
  | missing entry _ hentry hheld =>
      rw [hpayload] at hentry
      cases hentry
      exact .inr ⟨hheld, rfl⟩
  | pong hrole => cases hget.symm.trans hrole
  | stored _ hrole => cases hget.symm.trans hrole

end Answered

end ReplicaRing.Fleet.Execution
