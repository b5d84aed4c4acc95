import ReplicaRing.Proofs.Fleet.Operations

/-!
Where the datagrams on the network come from: each is a request that an operation has decided to send,
or answers one.
-/

namespace ReplicaRing.Fleet.Execution

variable {Member S : Type} [DecidableEq Member] [Storage S] {e : Execution Member S}
  {time : Nat} {member : Member} {index : Nat}

theorem mem_outbox_succ {parcel : Parcel Member} (h : parcel ∈ (e.after (time + 1)).outbox) :
    parcel ∈ (e.after time).outbox ∨
      ∃ node effects, e.schedule time = .advance parcel.sender parcel.operation ∧
        (e.node time parcel.sender).advance (e.after time).now parcel.operation =
          some (node, effects) ∧
        .send parcel.peer parcel.message ∈ effects := by
  rw [after] at h
  cases haction : e.schedule time with
  | resume caller =>
      rw [haction, step] at h
      split at h
      · exact .inl h
      case _ waiting _ =>
        change parcel ∈
          ((e.after time).resume waiting.member waiting.session).2.outbox at h
        obtain ⟨nodes, hframe⟩ := (e.after time).resume_frame waiting.member waiting.session
        rw [hframe] at h
        exact .inl h
  | advance advanced operation =>
      rw [haction, step] at h
      split at h
      · exact .inl h
      case _ node effects hadvance =>
        rcases List.mem_append.mp h with hold | hnew
        · exact .inl hold
        · obtain ⟨effect, heffect, hparcel⟩ := List.mem_filterMap.mp hnew
          cases effect with
          | send peer message =>
              cases hparcel
              exact .inr ⟨node, effects, rfl, hadvance, heffect⟩
          | _ => cases hparcel
  | transmit taken =>
      rw [haction, step] at h
      split at h
      · exact .inl h
      · rw [transmit] at h
        split at h <;> exact .inl h
  | refuse taken =>
      rw [haction, step] at h
      split at h <;> exact .inl h
  | deliver receiver datagram =>
      rw [haction, step] at h
      split at h <;> exact .inl h
  | _ =>
      rw [haction] at h
      exact .inl h

private theorem mem_sent_succ {address : Address} {datagram : Bytes}
    (h : (address, datagram) ∈ (e.after (time + 1)).sent) :
    (address, datagram) ∈ (e.after time).sent ∨
      (∃ parcel ∈ (e.after time).outbox, address = parcel.peer.address ∧
        parcel.message.encode = .ok datagram) ∨
      ∃ server received, e.schedule time = .deliver server received ∧
        (e.address server, received) ∈ (e.after time).sent ∧
        ((e.node time server).response received).outgoing = some (address, datagram) := by
  rw [after] at h
  cases haction : e.schedule time with
  | resume caller =>
      rw [haction, step] at h
      split at h
      · exact .inl h
      case _ waiting _ =>
        change (address, datagram) ∈
          ((e.after time).resume waiting.member waiting.session).2.sent at h
        obtain ⟨nodes, hframe⟩ := (e.after time).resume_frame waiting.member waiting.session
        rw [hframe] at h
        exact .inl h
  | advance advanced operation =>
      rw [haction, step] at h
      split at h <;> exact .inl h
  | transmit taken =>
      rw [haction, step] at h
      split at h
      · exact .inl h
      case _ parcel hparcel =>
        simp only [transmit] at h
        split at h
        case _ written hwritten =>
          rcases List.mem_append.mp h with hold | hnew
          · exact .inl hold
          · cases List.mem_singleton.mp hnew
            exact .inr (.inl ⟨parcel, List.mem_of_getElem? hparcel, rfl, hwritten⟩)
        · exact .inl h
  | refuse taken =>
      rw [haction, step] at h
      split at h <;> exact .inl h
  | deliver server received =>
      rw [haction, step] at h
      split at h
      case isTrue hsent =>
        rcases List.mem_append.mp h with hold | hnew
        · exact .inl hold
        · rw [Option.mem_toList] at hnew
          have houtgoing := (e.node time server).receive_outgoing received
          have haddress : e.address server = ((e.after time).nodes server).address :=
            (e.address_node time server).symm
          rw [← haddress] at hsent
          exact .inr (.inr ⟨server, received, rfl, hsent, houtgoing.symm.trans hnew⟩)
      case isFalse => exact .inl h
  | _ =>
      rw [haction] at h
      exact .inl h

def Asked (e : Execution Member S) (time : Nat) (asker : Member) (index : Nat)
    (message : Message) : Prop :=
  ∃ operation, e.operation? time asker index = some operation ∧
    operation.Requests (e.host asker) message

private theorem Asked.succ {message : Message} (h : e.Asked time member index message) :
    e.Asked (time + 1) member index message := by
  obtain ⟨operation, hoperation, hrequests⟩ := h
  obtain ⟨moved, hmoved, hmove⟩ := operation?_succ_of_some hoperation
  refine ⟨moved, hmoved, ?_⟩
  cases hmove with
  | nothing => exact hrequests
  | advance _ effects haction hadvance => exact hrequests.advance hadvance
  | fail parcel => exact hrequests.sendFailed parcel.peer.name
  | reply datagram answer hdelivers => exact hrequests.reply answer

theorem Asked.mono {message : Message} {later : Nat} (h : e.Asked time member index message)
    (hle : time ≤ later) : e.Asked later member index message := by
  induction hle with
  | refl => exact h
  | step hle ih => exact ih.succ

theorem Asked.requestId_eq {message : Message} (hlawful : e.Lawful)
    (h : e.Asked time member index message) :
    message.requestId = e.requestId member index := by
  obtain ⟨operation, hoperation, hrequests⟩ := h
  rw [hrequests.requestId, operation_id hlawful hoperation]

theorem asked_of_mem_outbox (hlawful : e.Lawful) {parcel : Parcel Member}
    (h : parcel ∈ (e.after time).outbox) :
    e.Asked time parcel.sender parcel.operation parcel.message := by
  induction time with
  | zero =>
      have hnone : (e.after 0).outbox = [] := hlawful.fresh.nothingToSend
      rw [hnone] at h
      cases h
  | succ time ih =>
      rcases mem_outbox_succ h with hold | ⟨node, effects, haction, hadvance, heffect⟩
      · exact (ih hold).succ
      · obtain ⟨operation, moved, -, hmoved, hafter⟩ := operation?_advance haction hadvance
        refine ⟨moved, hafter, ?_⟩
        rcases Operation.advance_effects hmoved heffect with
          ⟨peer, message, hsend, hrequests⟩ | h | h | h
        · cases hsend
          exact hrequests
        · cases h
        · cases h
        · cases h

/-- A server answers a message that has reached it. -/
structure Serves (e : Execution Member S) (time : Nat) (server : Member)
    (asked answer : Message) : Prop where
  received : ∃ datagram, e.schedule time = .deliver server datagram ∧
    (e.address server, datagram) ∈ (e.after time).sent ∧ Message.decode datagram = .ok asked
  answers : Server.Answers (e.host server) (e.node time server).storage
    (e.node (time + 1) server).storage asked answer

def Answered (e : Execution Member S) (time : Nat) (asker : Member) (index : Nat)
    (server : Member) (answer : Message) : Prop :=
  ∃ asked, e.Asked time asker index asked ∧ e.Serves time server asked answer

namespace Answered

variable {asker server : Member} {answer : Message}

theorem requestId_eq (hlawful : e.Lawful) (h : e.Answered time asker index server answer) :
    answer.requestId = e.requestId asker index := by
  obtain ⟨asked, hasked, hserves⟩ := h
  rw [hserves.answers.requestId_eq, hasked.requestId_eq hlawful]

theorem replyTo_eq (h : e.Answered time asker index server answer) :
    answer.replyTo = (e.host server).name := by
  obtain ⟨asked, hasked, hserves⟩ := h
  exact hserves.answers.replyTo_eq

theorem isReply (h : e.Answered time asker index server answer) :
    answer.role.isReply = true := by
  obtain ⟨asked, hasked, hserves⟩ := h
  exact hserves.answers.isReply

theorem index_lt (hlawful : e.Lawful) (h : e.Answered time asker index server answer) :
    index < 2 ^ 64 := by
  obtain ⟨asked, ⟨operation, hoperation, -⟩, -⟩ := h
  exact Execution.index_lt hlawful hoperation

end Answered

theorem storage_succ {received : Bytes} {server : Member}
    (haction : e.schedule time = .deliver server received)
    (hsent : (e.address server, received) ∈ (e.after time).sent) :
    (e.node (time + 1) server).storage = ((e.node time server).response received).storage := by
  have hnode : e.node (time + 1) server = ((e.node time server).receive received).1 := by
    have hhere : (((e.after time).nodes server).address, received) ∈ (e.after time).sent := by
      rwa [← e.address_node time server] at hsent
    rw [node, after, haction, step, if_pos hhere]
    exact setNode_nodes_self _ _ _
  rw [hnode]
  exact Node.storage_receive _ _

/-- Every datagram that can be read is a request of an operation, or answers one and goes to the
member that made it. -/
theorem asked_or_answered (hlawful : e.Lawful) {address : Address} {datagram : Bytes}
    {message : Message} (h : (address, datagram) ∈ (e.after time).sent)
    (hdecode : Message.decode datagram = .ok message) :
    (∃ asker index, e.Asked time asker index message) ∨
      ∃ asker index server earlier, earlier < time ∧ address = e.address asker ∧
        e.Answered earlier asker index server message := by
  induction time generalizing address datagram message with
  | zero =>
      have hnone : (e.after 0).sent = [] := hlawful.fresh.nothingSent
      rw [hnone] at h
      cases h
  | succ time ih =>
      rcases mem_sent_succ h with
        hold | ⟨parcel, hparcel, rfl, hencode⟩ | ⟨server, received, haction, hsent, houtgoing⟩
      · rcases ih hold hdecode with
          ⟨asker, index, hasked⟩ | ⟨asker, index, server, earlier, hearlier, haddress, hanswered⟩
        · exact .inl ⟨asker, index, hasked.succ⟩
        · exact .inr ⟨asker, index, server, earlier, Nat.lt_succ_of_lt hearlier, haddress,
            hanswered⟩
      · have hroundtrip := Message.decode_append_of_encode hencode []
        rw [List.append_nil, hdecode] at hroundtrip
        cases hroundtrip
        exact .inl ⟨_, _, (asked_of_mem_outbox hlawful hparcel).succ⟩
      · obtain ⟨asked, answer, peer, hreceived, hpeer, rfl, hencode, hanswers⟩ :=
          Server.receive_outgoing houtgoing
        have hroundtrip := Message.decode_append_of_encode hencode []
        rw [List.append_nil, hdecode] at hroundtrip
        cases hroundtrip
        rcases ih hsent hreceived with ⟨asker, index, hasked⟩ | ⟨_, _, _, _, -, -, hanswered⟩
        · refine .inr ⟨asker, index, server, time, Nat.lt_succ_self time, ?_, asked, hasked,
            ⟨received, haction, hsent, hreceived⟩, ?_⟩
          · obtain ⟨operation, -, hrequests⟩ := hasked
            rw [hrequests.replyTo] at hpeer
            exact hlawful.rosters time server asker peer hpeer
          · rw [storage_succ haction hsent, ← e.host_node time server]
            exact hanswers
        · have hreply := hanswered.isReply
          rw [hanswers.not_isReply] at hreply
          cases hreply

end ReplicaRing.Fleet.Execution
