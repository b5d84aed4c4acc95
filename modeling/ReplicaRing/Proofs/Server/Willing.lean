import ReplicaRing.Proofs.Server.Answers
import ReplicaRing.Replication

/-! When a server does answer, and its answer is taken. -/

namespace ReplicaRing

structure Host.HasFitName (host : Host) : Prop where
  length : (Bytes.ofText host.name).length ≤ Layout.nameSize
  noNul : 0 ∉ Bytes.ofText host.name

def Entry.Fits (entry : Entry) : Prop := entry.written.length ≤ Layout.maxPayload

theorem Entry.Fits.encode {entry : Entry} (h : entry.Fits) : entry.encode = .ok entry.written :=
  if_neg (Nat.not_lt.mpr h)

theorem Entry.fits_of_encode {entry : Entry} {payload : Bytes} (h : entry.encode = .ok payload) :
    entry.Fits := by
  simp only [encode] at h
  split at h
  · cases h
  case _ hfits => exact Nat.le_of_not_lt hfits

theorem Message.exists_encode {host : Host} {message : Message} (hname : host.HasFitName)
    (hreplyTo : message.replyTo = host.name)
    (hpayload : message.payload.length ≤ Layout.maxPayload) :
    ∃ datagram, message.encode = .ok datagram := by
  unfold encode
  rw [hreplyTo]
  simp only
  rw [if_neg (Nat.not_lt.mpr hpayload), if_neg (Nat.not_lt.mpr hname.length), if_neg hname.noNul]
  exact ⟨_, rfl⟩

theorem Replication.exists_plan {host : Host} {request : Request} {roster : Roster}
    {targets : List Peer} (hreplicas : roster.replicas (.hash request.key) request.level = .ok targets)
    (hfits : request.entry.Fits) (hname : host.HasFitName) (id : UInt64) :
    ∃ message, plan host request id roster = .ok (targets, message) := by
  have hpayload : request.payload = .ok request.entry.written := hfits.encode
  let message := ((host.request request.topic request.verb).withRequestId id).withPayload
    request.entry.written
  obtain ⟨datagram, hdatagram⟩ : ∃ datagram, message.encode = .ok datagram :=
    Message.exists_encode hname rfl hfits
  refine ⟨message, ?_⟩
  rw [plan, Except.mapError_bind_of_ok hreplicas, Except.mapError_bind_of_ok hpayload]
  exact Except.mapError_bind_of_ok hdatagram _

namespace Server

variable {S : Type} [Storage S] {host : Host} {roster : Roster} {storage after : S}
  {datagram : Bytes} {message answer : Message} {entry : Entry} {peer : Peer}

theorem Answers.version_eq (h : Answers host storage after message answer) :
    answer.version = host.protocol.version := by
  cases h <;> rfl

omit [Storage S] in
theorem outgoing_respond {written : Bytes} (hpeer : roster.find? message.replyTo = some peer)
    (hencode : answer.encode = .ok written) :
    (respond roster storage message (.ok answer)).outgoing = some (peer.address, written) := by
  simp only [respond, hpeer, address, hencode, bind, Except.bind]
  rfl

theorem receive_of_version (hdecode : Message.decode datagram = .ok message)
    (hversion : message.version = host.protocol.version) :
    receive host roster storage datagram = handle host roster storage message := by
  simp only [receive, hdecode, if_pos hversion]

theorem receive_get (hdecode : Message.decode datagram = .ok message)
    (hversion : message.version = host.protocol.version) (hrole : message.role = .get)
    (hentry : Entry.decode message.payload = .ok entry) (hname : host.HasFitName)
    (hpeer : roster.find? message.replyTo = some peer) {held : Option Bytes}
    (hget : Storage.get storage entry.key = .ok held)
    (hfits : ∀ value, held = some value → ({ key := entry.key, value } : Entry).Fits) :
    ∃ (answer : Message) (written : Bytes), answer.encode = .ok written ∧
      (receive host roster storage datagram).outgoing = some (peer.address, written) := by
  rw [receive_of_version hdecode hversion]
  simp only [handle, hrole]
  cases held with
  | none =>
      obtain ⟨written, hwritten⟩ : ∃ written, (host.reply message Verb.getNack).encode = .ok written :=
        Message.exists_encode hname rfl (Nat.zero_le _)
      refine ⟨_, written, hwritten, ?_⟩
      have hanswer : get host storage message = .ok (host.reply message Verb.getNack) := by
        rw [get, Except.mapError_bind_of_ok hentry, Except.mapError_bind_of_ok hget]
        rfl
      rw [hanswer]
      exact outgoing_respond hpeer hwritten
  | some value =>
      have hfit := hfits value rfl
      let answer := (host.reply message Verb.getAck).withPayload
        (Entry.written { key := entry.key, value })
      obtain ⟨written, hwritten⟩ : ∃ written, answer.encode = .ok written :=
        Message.exists_encode hname rfl hfit
      refine ⟨_, written, hwritten, ?_⟩
      have hanswer : get host storage message = .ok answer := by
        rw [get, Except.mapError_bind_of_ok hentry, Except.mapError_bind_of_ok hget]
        exact Except.mapError_bind_of_ok hfit.encode _
      rw [hanswer]
      exact outgoing_respond hpeer hwritten

theorem receive_put (hdecode : Message.decode datagram = .ok message)
    (hversion : message.version = host.protocol.version) (hrole : message.role = .put)
    (hentry : Entry.decode message.payload = .ok entry) (hname : host.HasFitName)
    (hpeer : roster.find? message.replyTo = some peer)
    (hput : Storage.put storage entry.key entry.value = (.ok (), after)) :
    ∃ (answer : Message) (written : Bytes), answer.encode = .ok written ∧
      (receive host roster storage datagram).outgoing = some (peer.address, written) := by
  rw [receive_of_version hdecode hversion]
  simp only [handle, hrole]
  obtain ⟨written, hwritten⟩ : ∃ written, (host.reply message Verb.putAck).encode = .ok written :=
    Message.exists_encode hname rfl (Nat.zero_le _)
  refine ⟨_, written, hwritten, ?_⟩
  have hanswer : put host storage message = (.ok (host.reply message Verb.putAck), after) := by
    simp only [put, hentry, hput]
  rw [hanswer]
  exact outgoing_respond hpeer hwritten

theorem reply_of_receive (hdecode : Message.decode datagram = .ok message)
    (hversion : message.version = host.protocol.version) (hreply : message.role.isReply = true) :
    (receive host roster storage datagram).reply = some message := by
  rw [receive_of_version hdecode hversion]
  unfold handle
  cases hrole : message.role with
  | pong | putAck | getAck | getNack => rfl
  | _ =>
      rw [hrole] at hreply
      cases hreply

theorem reply_eq (host : Host) (roster : Roster) (storage : S) (datagram : Bytes) :
    (receive host roster storage datagram).reply =
      match Message.decode datagram with
      | .ok message =>
          if message.version = host.protocol.version ∧ message.role.isReply = true then some message
          else none
      | .error _ => none := by
  cases hdecode : Message.decode datagram with
  | error error => simp only [receive, hdecode]
  | ok message =>
      by_cases hversion : message.version = host.protocol.version
      · by_cases hreply : message.role.isReply = true
        · rw [reply_of_receive hdecode hversion hreply]
          exact (if_pos ⟨hversion, hreply⟩).symm
        · refine Eq.trans (Option.eq_none_iff_forall_not_mem.mpr fun taken htaken => hreply ?_)
            (if_neg fun h => hreply h.2).symm
          obtain ⟨hsame, htrue⟩ := receive_reply (Option.mem_def.mp htaken)
          rw [hdecode] at hsame
          cases hsame
          exact htrue
      · simp only [receive, hdecode, hversion, false_and, if_false]

end Server

end ReplicaRing
