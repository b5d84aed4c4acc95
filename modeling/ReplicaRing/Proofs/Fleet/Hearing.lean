import ReplicaRing.Proofs.Fleet.Routing
import ReplicaRing.Proofs.Replication.Completion
import ReplicaRing.Proofs.Server.Willing

/-! Operations hear of the targets that have got their requests and whose answers have come back. -/

namespace ReplicaRing.Fleet.Execution

open Replication (Tally State Noted)

variable {Member S : Type} [DecidableEq Member] [Storage S] {e : Execution Member S}
  {time later fanOut : Nat} {member server : Member} {index : Nat} {request : Request} {id : UInt64}
  {run : Run Tally State Replication.Input} {targets : List Peer} {peer : Peer}
  {parcel : Parcel Member} {message : Message} {name : String}

structure Plays (e : Execution Member S) (server : Member) (peer : Peer) : Prop where
  name : (e.host server).name = peer.name
  address : e.address server = peer.address

/-- A parcel has reached the node it was sent to, and so has the answer, if there was one, reached
the sender. -/
def Exchanged (e : Execution Member S) (time : Nat) (parcel : Parcel Member) : Prop :=
  ∃ datagram server arrival, parcel.message.encode = .ok datagram ∧
    e.address server = parcel.peer.address ∧ arrival < time ∧
    e.schedule arrival = .deliver server datagram ∧
    (e.address server, datagram) ∈ (e.after arrival).sent ∧
    ∀ address answer, ((e.node arrival server).response datagram).outgoing = some (address, answer) →
      ∃ back, arrival < back ∧ back < time ∧ e.schedule back = .deliver parcel.sender answer

theorem Exchanged.mono (h : e.Exchanged time parcel) (hle : time ≤ later) :
    e.Exchanged later parcel := by
  obtain ⟨datagram, server, arrival, hencode, haddress, hlt, haction, hsent, hback⟩ := h
  refine ⟨datagram, server, arrival, hencode, haddress, Nat.lt_of_lt_of_le hlt hle, haction, hsent,
    fun address answer houtgoing => ?_⟩
  obtain ⟨back, hafter, hbefore, hdeliver⟩ := hback address answer houtgoing
  exact ⟨back, hafter, Nat.lt_of_lt_of_le hbefore hle, hdeliver⟩

/-- The server would answer this message now. -/
def Heeds (e : Execution Member S) (time : Nat) (server asker : Member) (message : Message) : Prop :=
  ∀ datagram, message.encode = .ok datagram →
    ∃ (answer : Message) (written : Bytes), answer.encode = .ok written ∧
      ((e.node time server).response datagram).outgoing = some (e.address asker, written)

private theorem sent_deliver {received : Bytes}
    (haction : e.schedule time = .deliver server received)
    (hsent : (e.address server, received) ∈ (e.after time).sent) :
    (e.after (time + 1)).sent =
      (e.after time).sent ++ ((e.node time server).response received).outgoing.toList := by
  have hhere : (((e.after time).nodes server).address, received) ∈ (e.after time).sent := by
    rwa [← e.address_node time server] at hsent
  rw [after, haction, step, if_pos hhere, ← Node.receive_outgoing]
  rfl

private theorem noted_mono (hlawful : e.Lawful) (hfansOut : e.FansOut fanOut member index targets)
    (hlt : fanOut < time) {after : Run Tally State Replication.Input}
    (hoperation : e.operation? time member index = some (.replication request id run))
    (hnoted : ∃ first, Noted first run name) (hle : time ≤ later)
    (hafter : e.operation? later member index = some (.replication request id after)) :
    ∃ first, Noted first after name := by
  induction hle generalizing after with
  | refl =>
      rw [hoperation] at hafter
      cases hafter
      exact hnoted
  | @step later hle ih =>
      have hpush : ∀ {before : Run Tally State Replication.Input} (command),
          (∃ first, Noted first before name) → ∃ first, Noted first (before.push command) name := by
        rintro before command ⟨first, hfirst⟩
        obtain ⟨more, hmore⟩ := exists_push before command
        exact ⟨first, hmore ▸ hfirst.append more⟩
      cases came_of_succ hafter with
      | start now =>
          have hsent := hfansOut.isSent hlawful
            (Nat.lt_succ_of_le (Nat.le_of_lt (Nat.lt_of_lt_of_le hlt hle))) hafter
          exact absurd rfl hsent.1
      | stay _ hbefore => exact ih hbefore
      | fail before parcel hbefore => exact hpush _ (ih hbefore)
      | reply before datagram answer hbefore => exact hpush _ (ih hbefore)
      | move before _ effects hbefore _ _ hadvance =>
          obtain ⟨first, hfirst⟩ := ih hbefore
          exact ⟨first - 1, hfirst.advance (orderly hlawful hbefore)
            (hfansOut.isSent hlawful (Nat.lt_of_lt_of_le hlt hle) hbefore) hadvance⟩

private theorem asked_of_sent (hlawful : e.Lawful) {datagram : Bytes} {address : Address}
    (hasked : e.Asked later member index message)
    (hsent : (address, datagram) ∈ (e.after time).sent)
    (hdecode : Message.decode datagram = .ok message) : e.Asked time member index message := by
  rcases asked_or_answered hlawful hsent hdecode with
    ⟨asker, asked, hearlier⟩ | ⟨asker, asked, answerer, moment, -, -, hanswered⟩
  · obtain ⟨operation, hoperation, hrequests⟩ := hasked
    obtain ⟨other, hother, hothers⟩ := hearlier
    obtain rfl : asker = member :=
      hlawful.names (hothers.replyTo.symm.trans hrequests.replyTo)
    have hid : e.requestId asker asked = e.requestId asker index := by
      rw [← operation_id hlawful hother, ← operation_id hlawful hoperation,
        ← hothers.requestId, ← hrequests.requestId]
    obtain rfl := requestId_injective (index_lt hlawful hother) (index_lt hlawful hoperation) hid
    exact ⟨other, hother, hothers⟩
  · obtain ⟨operation, -, hrequests⟩ := hasked
    have hreply := hanswered.isReply
    rw [hrequests.not_isReply] at hreply
    cases hreply

private theorem delivers_of_answered (hlawful : e.Lawful)
    (hversion : (e.host server).protocol.version = (e.host member).protocol.version)
    (hfansOut : e.FansOut fanOut member index targets) {moment : Nat} {answer : Message}
    {written : Bytes} (hanswered : e.Answered moment member index server answer)
    (hlt : moment < time) (haction : e.schedule time = .deliver member written)
    (hencode : answer.encode = .ok written) (hsent : (e.address member, written) ∈ (e.after time).sent)
    (hoperation : e.operation? time member index = some (.replication request id run))
    (hover : run.isOver = false) : e.Delivers time member index written answer where
  action := haction
  sent := hsent
  reply := by
    refine Server.reply_of_receive (Message.decode_of_encode hencode) ?_ hanswered.isReply
    obtain ⟨asked, -, hserves⟩ := hanswered
    rw [hserves.answers.version_eq, e.host_node]
    exact hversion
  owner := by
    have hroute := hfansOut.route hlawful (Nat.lt_trans (hfansOut.lt_of_answered hanswered) hlt)
      hoperation hover
    have hid : id = answer.requestId := by
      rw [hanswered.requestId_eq hlawful]
      exact operation_id hlawful hoperation
    rw [hid] at hroute
    exact hroute

/-- Whoever has a parcel of an operation, and heeds it, is heard by the operation. -/
theorem Exchanged.noted (h : e.Exchanged time parcel) (hlawful : e.Lawful)
    (hversion : ∀ server member,
      (e.host server).protocol.version = (e.host member).protocol.version)
    (hparcel : parcel ∈ (e.after later).outbox) (hplays : e.Plays server parcel.peer)
    (hfansOut : e.FansOut fanOut parcel.sender parcel.operation targets)
    (hheeds : ∀ arrival, arrival < time →
      e.Asked arrival parcel.sender parcel.operation parcel.message →
      e.Heeds arrival server parcel.sender parcel.message)
    (hoperation : e.operation? time parcel.sender parcel.operation =
      some (.replication request id run))
    (hover : run.isOver = false) : ∃ first, Noted first run parcel.peer.name := by
  obtain ⟨datagram, receiver, arrival, hencode, haddress, hlt, haction, hsent, hback⟩ := h
  obtain rfl : receiver = server := hlawful.addresses (haddress.trans hplays.address.symm)
  have hdecode := Message.decode_of_encode hencode
  have hasked := asked_of_sent hlawful (asked_of_mem_outbox hlawful hparcel) hsent hdecode
  obtain ⟨_, written, hwritten, houtgoing⟩ := hheeds arrival hlt hasked datagram hencode
  obtain ⟨asked, answer, peer, hasks, -, -, hanswer, hanswers⟩ := Server.receive_outgoing houtgoing
  rw [hdecode] at hasks
  cases hasks
  have hanswered : e.Answered arrival parcel.sender parcel.operation receiver answer := by
    refine ⟨parcel.message, hasked, ⟨datagram, haction, hsent, hdecode⟩, ?_⟩
    rw [storage_succ haction hsent, ← e.host_node arrival receiver]
    exact hanswers
  obtain ⟨back, hafter, hbefore, hdeliver⟩ := hback _ _ houtgoing
  have hsentBack : (e.address parcel.sender, written) ∈ (e.after back).sent := by
    refine (e.extends_after hafter).sent.subset ?_
    rw [Nat.succ_eq_add_one, sent_deliver haction hsent, houtgoing]
    exact List.mem_append_right _ List.mem_cons_self
  obtain ⟨_, _, _, _, _, hfirst, -⟩ := hfansOut.advance
  have hsince := Nat.lt_trans (hfansOut.lt_of_answered hanswered) hafter
  obtain ⟨before, hrunning⟩ := replication?_mono hfirst (Nat.le_of_lt hsince)
  obtain ⟨_, hsame⟩ := replication?_mono hrunning (Nat.le_of_lt hbefore)
  rw [hoperation] at hsame
  cases hsame
  have hgoing := isOver_of_later hrunning hoperation (Nat.le_of_lt hbefore) hover
  have hdelivers := delivers_of_answered hlawful (hversion _ _) hfansOut hanswered hafter hdeliver
    hanswer hsentBack hrunning hgoing
  have hreplied := operation?_deliver hdelivers hrunning
  refine noted_mono hlawful hfansOut (Nat.lt_succ_of_lt hsince) hreplied ?_ hbefore hoperation
  refine ⟨before.queue.length + 1, fun _ _ => ⟨answer, ?_, ?_⟩⟩
  · rw [Run.push, if_neg (by simp [hgoing]), List.take_of_length_le (by simp)]
    exact List.mem_append_right _ List.mem_cons_self
  · rw [hanswered.replyTo_eq, hplays.name]

end ReplicaRing.Fleet.Execution
