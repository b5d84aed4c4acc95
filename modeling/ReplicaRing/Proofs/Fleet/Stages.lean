import ReplicaRing.Proofs.Fleet.Replies
import ReplicaRing.Proofs.Replication.Settling

/-! How a replication of a fleet gets on, and why its targets stand as they do. -/

namespace ReplicaRing.Fleet.Execution

open Replication (Tally State Standing Settles plan)

variable {Member S : Type} [DecidableEq Member] [Storage S] {e : Execution Member S}
  {time : Nat} {member : Member} {index : Nat} {request : Request} {id : UInt64}

def FansOut (e : Execution Member S) (time : Nat) (member : Member) (index : Nat)
    (targets : List Peer) : Prop :=
  ∃ request id run after message,
    e.operation? time member index = some (.replication request id run) ∧
    run.state = .sending ∧
    plan (e.host member) request id (e.roster time member) = .ok (targets, message) ∧
    e.operation? (time + 1) member index = some (.replication request id after) ∧
    after.state = .waiting

private theorem FansOut.names {targets : List Peer} (h : e.FansOut time member index targets) :
    (targets.map Peer.name).Nodup := by
  obtain ⟨request, id, run, after, message, -, -, hplan, -, -⟩ := h
  exact Roster.replicas_names (Replication.plan_eq_ok hplan).replicas

theorem FansOut.ne_nil {targets : List Peer} (h : e.FansOut time member index targets) :
    targets ≠ [] := by
  obtain ⟨request, id, run, after, message, -, -, hplan, -, -⟩ := h
  exact Roster.replicas_ne_nil (Replication.plan_eq_ok hplan).replicas

theorem FansOut.lt_of_answered {targets : List Peer} {server : Member} {answer : Message}
    {moment : Nat} (h : e.FansOut time member index targets)
    (hanswered : e.Answered moment member index server answer) : time < moment := by
  obtain ⟨request, id, run, after, message, hoperation, hstate, -, -, -⟩ := h
  obtain ⟨asked, hasked, -⟩ := hanswered
  by_contra hle
  obtain ⟨operation, hlater, hrequests⟩ := hasked.mono (Nat.le_of_not_lt hle)
  rw [hoperation] at hlater
  cases hlater
  exact hrequests.content.1.2 hstate

/-- The votes of the targets are answers that were given since the request was sent. -/
def Justified (e : Execution Member S) (fanOut time : Nat) (member : Member) (index : Nat)
    (request : Request) (standing : String → Standing) : Prop :=
  ∀ name vote, standing name = some (.reply vote) →
    ∃ server moment answer, fanOut < moment ∧ moment < time ∧ (e.host server).name = name ∧
      e.Answered moment member index server answer ∧ request.classify answer = vote

/-- How far a replication with the given memory and state has come. -/
inductive Stage (e : Execution Member S) (time : Nat) (member : Member) (index : Nat)
    (request : Request) (tally : Tally) (state : State) : Prop
  | unsent (hstate : ¬state.IsSent) (htally : tally = {})
  | failed (hstate : state = .error)
  | sent (fanOut : Nat) (targets : List Peer) (standing : String → Standing)
      (hstate : state.IsSent) (hbefore : fanOut < time)
      (hfanOut : e.FansOut fanOut member index targets)
      (hsettles : Settles (targets.map Peer.name) standing tally state)
      (hjustified : e.Justified fanOut time member index request standing)

private theorem Justified.mono {fanOut later : Nat} {standing : String → Standing}
    (h : e.Justified fanOut time member index request standing) (hle : time ≤ later) :
    e.Justified fanOut later member index request standing := by
  intro name vote hstanding
  obtain ⟨server, moment, answer, hafter, hbefore, hrest⟩ := h name vote hstanding
  exact ⟨server, moment, answer, hafter, Nat.lt_of_lt_of_le hbefore hle, hrest⟩

private theorem Stage.succ {tally : Tally} {state : State}
    (h : e.Stage time member index request tally state) :
    e.Stage (time + 1) member index request tally state := by
  cases h with
  | unsent hstate htally => exact .unsent hstate htally
  | failed hstate => exact .failed hstate
  | sent fanOut targets standing hstate hbefore hfanOut hsettles hjustified =>
      exact .sent fanOut targets standing hstate (Nat.lt_succ_of_lt hbefore) hfanOut hsettles
        (hjustified.mono (Nat.le_succ time))

private theorem Stage.react (hlawful : e.Lawful) {run after : Run Tally State Replication.Input}
    {input : Replication.Input}
    (h : e.Stage time member index request run.memory run.state)
    (hoperation : e.operation? time member index = some (.replication request id run))
    (hafter : e.operation? (time + 1) member index = some (.replication request id after))
    (hoffered : run.Offers input) (hterminal : run.state.isTerminal = false)
    (hmemory : after.memory = (Replication.react (e.host member) request id
      (e.roster time member) run.memory run.state input).memory)
    (hstate : after.state = (Replication.react (e.host member) request id
      (e.roster time member) run.memory run.state input).state) :
    e.Stage (time + 1) member index request after.memory after.state := by
  cases h with
  | unsent hunsent htally =>
      have hdeparts := Replication.react_departs (e.host member) request id
        (e.roster time member) run.memory hunsent input
      generalize Replication.react (e.host member) request id (e.roster time member) run.memory
        run.state input = step at hdeparts hmemory hstate
      cases hdeparts with
      | ready =>
          rw [hmemory, hstate]
          exact .unsent (fun hsent => hsent.2 rfl) htally
      | error =>
          rw [hstate]
          exact .failed rfl
      | fanOut targets message hsending hinput hplan =>
          have hfanOut : e.FansOut time member index targets :=
            ⟨request, id, run, after, message, hoperation, hsending, hplan, hafter, hstate⟩
          have hrecords := Replication.fanOut_records id message hfanOut.names
          rw [htally] at hmemory
          rw [hmemory, hstate]
          exact .sent time targets (fun _ => none) .waiting (Nat.lt_succ_self time)
            hfanOut ⟨hrecords, trivial⟩ fun name vote hnone => by cases hnone
  | failed herror =>
      rw [herror] at hterminal
      cases hterminal
  | sent fanOut targets standing hsent hbefore hfanOut hsettles hjustified =>
      obtain ⟨later, hlater, hnew⟩ := hsettles.react hfanOut.names hsent (e.host member) request id
        (e.roster time member) input
      have hsentAfter := (Replication.react_isSent (e.host member) request id
        (e.roster time member) run.memory hsent input).1
      rw [hmemory, hstate]
      refine .sent fanOut targets later hsentAfter (Nat.lt_succ_of_lt hbefore) hfanOut hlater ?_
      intro name vote hvote
      rcases hnew name _ hvote with hold | hinput
      · exact hjustified.mono (Nat.le_succ time) name vote hold
      · cases input with
        | reply message =>
            obtain ⟨server, moment, hmoment, hanswered⟩ :=
              answered_of_offers hlawful hoperation hoffered
            simp only [Replication.Input.verdict?, Option.ite_none_right_eq_some,
              Option.some.injEq, Replication.Verdict.reply.injEq] at hinput
            exact ⟨server, moment, message, hfanOut.lt_of_answered hanswered,
              Nat.lt_succ_of_lt hmoment, hanswered.replyTo_eq.symm.trans hinput.1, hanswered,
              hinput.2⟩
        | sendFailed peer => simp [Replication.Input.verdict?] at hinput
        | _ => cases hinput

theorem stage (hlawful : e.Lawful) {run : Run Tally State Replication.Input}
    (h : e.operation? time member index = some (.replication request id run)) :
    e.Stage time member index request run.memory run.state := by
  induction time generalizing run with
  | zero =>
      rw [operation?_zero hlawful] at h
      cases h
  | succ time ih =>
      cases came_of_succ h with
      | start now => exact .unsent (fun hsent => hsent.1 rfl) rfl
      | stay _ hbefore => exact (ih hbefore).succ
      | fail before parcel hbefore => simpa using (ih hbefore).succ
      | reply before datagram answer hbefore hdelivers => simpa using (ih hbefore).succ
      | move before _ effects hbefore _ hmoves =>
          cases hmoves with
          | react ready input hoffered hmemory hstate _ _ hterminal =>
              refine (ih hbefore).react hlawful hbefore h hoffered hterminal ?_ ?_
              · rw [← hmemory, ← hstate]
                rfl
              · rw [← hmemory, ← hstate]
                rfl
          | stop => exact (ih hbefore).succ

def Stops (e : Execution Member S) (time : Nat) (member : Member) (index : Nat) : Prop :=
  ∃ operation moved, e.operation? time member index = some operation ∧
    operation.isOver = false ∧ e.operation? (time + 1) member index = some moved ∧
    moved.isOver = true

theorem stops_of_isOver (hlawful : e.Lawful) {run : Run Tally State Replication.Input}
    (h : e.operation? time member index = some (.replication request id run))
    (hover : run.isOver = true) :
    ∃ stop before, stop < time ∧ e.Stops stop member index ∧
      e.operation? stop member index = some (.replication request id before) ∧
      before.memory = run.memory ∧ before.state = run.state := by
  induction time generalizing run with
  | zero =>
      rw [operation?_zero hlawful] at h
      cases h
  | succ time ih =>
      have hearlier : ∀ {earlier : Run Tally State Replication.Input},
          e.operation? time member index = some (.replication request id earlier) →
          earlier.isOver = true →
          ∃ stop before, stop < time + 1 ∧ e.Stops stop member index ∧
            e.operation? stop member index = some (.replication request id before) ∧
            before.memory = earlier.memory ∧ before.state = earlier.state := by
        intro earlier hoperation hearlier
        obtain ⟨stop, before, hlt, hrest⟩ := ih hoperation hearlier
        exact ⟨stop, before, Nat.lt_succ_of_lt hlt, hrest⟩
      cases came_of_succ h with
      | start now => simp [Run.start] at hover
      | stay _ hbefore => exact hearlier hbefore hover
      | fail before parcel hbefore =>
          simpa using hearlier hbefore (by simpa using hover)
      | reply before datagram answer hbefore hdelivers =>
          simpa using hearlier hbefore (by simpa using hover)
      | move before _ effects hbefore hnotOver hmoves =>
          cases hmoves with
          | react ready input _ _ _ hready => exact absurd hover (hready ▸ Bool.false_ne_true)
          | stop =>
              exact ⟨time, before, Nat.lt_succ_self time, ⟨_, _, hbefore, hnotOver, h, rfl⟩,
                hbefore, rfl, rfl⟩

end ReplicaRing.Fleet.Execution
