import Mathlib.Data.List.Nodup
import ReplicaRing.Proofs.Codec.Record
import ReplicaRing.Proofs.Ring.Building
import ReplicaRing.Replication

/-! How a replication is sent: to whom, and what it says. -/

namespace ReplicaRing

def Request.role : Request → Role
  | store .. => .put
  | load .. => .get

private theorem Ring.choose_names (ring : Ring) (start : Fin ring.size) (copies : Nat)
    (steps : List Nat)
    {chosen : List Peer} (h : (chosen.map Peer.name).Nodup) :
    ((ring.choose start copies steps chosen).map Peer.name).Nodup := by
  induction steps generalizing chosen with
  | nil => exact h
  | cons step rest ih =>
      rw [choose]
      split
      · exact h
      case isFalse =>
        simp only
        split
        · exact ih h
        case isFalse hfresh =>
          apply ih
          rw [List.map_append, List.nodup_append]
          refine ⟨h, List.nodup_singleton _, ?_⟩
          intro name hname other hother heq
          obtain ⟨peer, hpeer, rfl⟩ := List.mem_map.mp hname
          rw [List.map_singleton, List.mem_singleton] at hother
          apply hfresh
          rw [List.any_eq_true]
          exact ⟨peer, hpeer, by simpa using heq.trans hother⟩

theorem Roster.replicas_names {roster : Roster} {key : Position} {level : Level}
    {peers : List Peer} (h : roster.replicas key level = .ok peers) :
    (peers.map Peer.name).Nodup := by
  unfold replicas at h
  cases hring : Ring.ofRoster roster with
  | error error =>
      rw [hring] at h
      cases h
  | ok ring =>
      rw [hring] at h
      change ring.select key _ = .ok peers at h
      unfold Ring.select at h
      cases hstart : ring.locate key with
      | error error =>
          rw [hstart] at h
          cases h
      | ok start =>
          rw [hstart] at h
          cases h
          have hnone : (([] : List Peer).map Peer.name).Nodup := List.nodup_nil
          exact ring.choose_names start _ _ hnone

private theorem Ring.choose_ne_nil (ring : Ring) (start : Fin ring.size) (copies : Nat)
    (steps : List Nat)
    {chosen : List Peer} (h : chosen ≠ []) : ring.choose start copies steps chosen ≠ [] := by
  induction steps generalizing chosen with
  | nil => exact h
  | cons step rest ih =>
      rw [choose]
      split
      · exact h
      · simp only
        split
        · exact ih h
        · exact ih (List.append_ne_nil_of_left_ne_nil h _)

private theorem Ring.select_ne_nil {ring : Ring} {key : Position} {copies : Nat} {peers : List Peer}
    (h : ring.select key copies = .ok peers) (hcopies : 0 < copies) : peers ≠ [] := by
  unfold select at h
  cases hstart : ring.locate key with
  | error error =>
      rw [hstart] at h
      cases h
  | ok start =>
      rw [hstart] at h
      cases h
      have hsteps : List.range ring.size = 0 :: (List.range (ring.size - 1)).map (· + 1) := by
        rw [← List.range_succ_eq_map]
        congr 1
        have := start.pos
        omega
      change ring.choose start copies (List.range ring.size) [] ≠ []
      have hnone : ¬copies ≤ ([] : List Peer).length := Nat.not_le_of_lt hcopies
      rw [hsteps, choose, if_neg hnone]
      exact ring.choose_ne_nil start copies _ (List.cons_ne_nil _ _)

private theorem Level.copies_pos (level : Level) {size : Nat} (h : 0 < size) :
    0 < level.copies size := by
  cases level with
  | all => exact h
  | _ => exact Nat.succ_pos _

theorem Roster.replicas_ne_nil {roster : Roster} {key : Position} {level : Level}
    {peers : List Peer} (h : roster.replicas key level = .ok peers) : peers ≠ [] := by
  obtain ⟨known, hsorted⟩ := roster
  unfold replicas at h
  cases hring : Ring.ofRoster ⟨known, hsorted⟩ with
  | error error =>
      rw [hring] at h
      cases h
  | ok ring =>
      rw [hring] at h
      change ring.select key _ = .ok peers at h
      cases known with
      | nil =>
          change Ring.ofTokens [] = .ok ring at hring
          rw [Ring.ofTokens_nil] at hring
          cases hring
          cases h
      | cons first rest =>
          exact Ring.select_ne_nil h (Level.copies_pos _ (Nat.succ_pos _))

namespace Replication

variable {host : Host} {request : Request} {id : UInt64} {roster : Roster}

structure Plans (host : Host) (request : Request) (id : UInt64) (roster : Roster)
    (targets : List Peer) (message : Message) : Prop where
  replicas : roster.replicas (.hash request.key) request.level = .ok targets
  role : message.role = request.role
  requestId : message.requestId = id
  version : message.version = host.protocol.version
  replyTo : message.replyTo = host.name
  entry : Entry.decode message.payload = .ok request.entry
  encodes : ∃ datagram, message.encode = .ok datagram

theorem plan_eq_ok {targets : List Peer} {message : Message}
    (h : plan host request id roster = .ok (targets, message)) :
    Plans host request id roster targets message := by
  obtain ⟨peers, hreplicas, h⟩ := Except.of_mapError_bind h
  obtain ⟨payload, hpayload, h⟩ := Except.of_mapError_bind h
  obtain ⟨datagram, hdatagram, h⟩ := Except.of_mapError_bind h
  cases h
  exact {
    replicas := hreplicas
    role := by cases request <;> rfl
    requestId := Args.requestId_withRequestId _ _
    version := rfl
    replyTo := rfl
    entry := Entry.decode_of_encode hpayload
    encodes := ⟨datagram, hdatagram⟩ }

namespace State

/-- The request has been sent, or will never be. -/
def IsSent (state : State) : Prop := state ≠ .start ∧ state ≠ .sending

theorem IsSent.waiting : IsSent .waiting := ⟨nofun, nofun⟩

theorem IsSent.of_isTerminal {state : State} (h : state.isTerminal = true) : state.IsSent := by
  cases state with
  | start | sending => cases h
  | _ => exact ⟨nofun, nofun⟩

end State

private theorem conclude_isSent (tally : Tally) :
    tally.conclude.state.IsSent ∧ tally.conclude.effects = [] := by
  unfold Tally.conclude
  split
  · exact ⟨.of_isTerminal rfl, rfl⟩
  · refine ⟨?_, rfl⟩
    simp only
    split
    · exact ⟨nofun, nofun⟩
    · split <;> exact ⟨nofun, nofun⟩

private theorem awaitRest_isSent (tally : Tally) :
    tally.awaitRest.state.IsSent ∧ tally.awaitRest.effects = [] := by
  unfold Tally.awaitRest
  split
  · exact conclude_isSent tally
  · exact ⟨.waiting, rfl⟩

private theorem settleWith_isSent (tally : Tally) {wrap : Receipt → State}
    (h : ∀ receipt, (wrap receipt).IsSent) :
    (tally.settleWith wrap).state.IsSent ∧ (tally.settleWith wrap).effects = [] := by
  unfold Tally.settleWith
  split
  · exact ⟨h _, rfl⟩
  · exact ⟨.of_isTerminal rfl, rfl⟩

theorem react_isSent (host : Host) (request : Request) (id : UInt64) (roster : Roster)
    (tally : Tally) {state : State} (h : state.IsSent) (input : Input) :
    (react host request id roster tally state input).state.IsSent ∧
      (react host request id roster tally state input).effects = [] := by
  unfold react
  split
  · exact absurd rfl h.1
  · exact absurd rfl h.2
  · split
    · exact awaitRest_isSent _
    · exact ⟨.waiting, rfl⟩
  · split
    · exact awaitRest_isSent _
    · exact awaitRest_isSent _
  · exact conclude_isSent tally
  · exact settleWith_isSent tally fun _ => .of_isTerminal rfl
  · exact settleWith_isSent tally fun _ => .of_isTerminal rfl
  all_goals exact ⟨⟨nofun, nofun⟩, rfl⟩

/-- Before it is sent, a request can only come closer to that, or fail. -/
inductive Departs (host : Host) (request : Request) (id : UInt64) (roster : Roster)
    (tally : Tally) (state : State) (input : Input) : Step → Prop
  | ready (hstate : state = .start) (hinput : input = .start) :
      Departs host request id roster tally state input
        { memory := tally, state := .sending, queued := [.send] }
  | fanOut (targets : List Peer) (message : Message) (hstate : state = .sending)
      (hinput : input = .send) (hplan : plan host request id roster = .ok (targets, message)) :
      Departs host request id roster tally state input (fanOut tally id targets message)
  | error : Departs host request id roster tally state input { memory := tally, state := .error }

theorem react_departs (host : Host) (request : Request) (id : UInt64) (roster : Roster)
    (tally : Tally) {state : State} (h : ¬state.IsSent) (input : Input) :
    Departs host request id roster tally state input
      (react host request id roster tally state input) := by
  cases state with
  | start =>
      cases input with
      | start => exact .ready rfl rfl
      | _ => exact .error
  | sending =>
      cases input with
      | send =>
          rw [react]
          split
          case h_1 targets message hplan => exact .fanOut targets message rfl rfl hplan
          case h_2 => exact .error
      | _ => exact .error
  | _ => exact absurd ⟨nofun, nofun⟩ h

section FanOut

variable {host : Host} {request : Request} {id : UInt64} {roster : Roster} {tally : Tally}
  {state : State} {input : Input}

theorem react_eq_fanOut (hunsent : ¬state.IsSent)
    (hwaiting : (react host request id roster tally state input).state = .waiting) :
    ∃ targets message, plan host request id roster = .ok (targets, message) ∧
      react host request id roster tally state input = fanOut tally id targets message := by
  have hdeparts := react_departs host request id roster tally hunsent input
  generalize react host request id roster tally state input = step at hdeparts hwaiting
  cases hdeparts with
  | ready | error => cases hwaiting
  | fanOut targets message _ _ hplan => exact ⟨targets, message, hplan, rfl⟩

/-- Whatever a replication asks of its node before it ends belongs to the fan-out. -/
theorem react_eq_fanOut_of_mem {effect : Effect}
    (h : effect ∈ (react host request id roster tally state input).effects) :
    state = .sending ∧ ∃ targets message, plan host request id roster = .ok (targets, message) ∧
      react host request id roster tally state input = fanOut tally id targets message ∧
      (effect = .route id ∨ ∃ peer, effect = .send peer message) := by
  by_cases hsent : state.IsSent
  · rw [(react_isSent _ _ _ _ _ hsent input).2] at h
    cases h
  · have hdeparts := react_departs host request id roster tally hsent input
    generalize react host request id roster tally state input = step at hdeparts h
    cases hdeparts with
    | ready | error => cases h
    | fanOut targets message hsending _ hplan =>
        refine ⟨hsending, targets, message, hplan, rfl, ?_⟩
        rcases List.mem_cons.mp h with rfl | hmem
        · exact .inl rfl
        · obtain ⟨peer, -, rfl⟩ := List.mem_map.mp hmem
          exact .inr ⟨peer, rfl⟩

end FanOut

private theorem conclude_queued (tally : Tally) {input : Input}
    (h : input ∈ tally.conclude.queued) :
    input = .settle := by
  unfold Tally.conclude at h
  split at h
  · cases h
  · exact List.mem_singleton.mp h

private theorem awaitRest_queued (tally : Tally) {input : Input}
    (h : input ∈ tally.awaitRest.queued) :
    input = .settle := by
  unfold Tally.awaitRest at h
  split at h
  · exact conclude_queued tally h
  · cases h

private theorem settleWith_queued (tally : Tally) (wrap : Receipt → State) :
    (tally.settleWith wrap).queued = [] := by
  unfold Tally.settleWith
  split <;> rfl

theorem react_queued {tally : Tally} {state : State} {input queued : Input}
    (h : queued ∈ (react host request id roster tally state input).queued) :
    queued = .send ∨ queued = .settle := by
  unfold react at h
  split at h
  · exact .inl (List.mem_singleton.mp h)
  · split at h <;> cases h
  · split at h
    · exact .inr (awaitRest_queued _ h)
    · cases h
  · split at h <;> exact .inr (awaitRest_queued _ h)
  · exact .inr (conclude_queued tally h)
  · rw [settleWith_queued] at h
    cases h
  · rw [settleWith_queued] at h
    cases h
  all_goals cases h

end Replication

end ReplicaRing
