import ReplicaRing.Proofs.Fleet.Finite
import ReplicaRing.Proofs.Fleet.Reliability
import ReplicaRing.Proofs.Fleet.Sparing

/-! Executions of finitely many actions that leave nothing undone. -/

namespace ReplicaRing.Fleet

open Replication (Tally State)

variable {Member S : Type}

/-- Sends what is to be sent, and writes nothing outside the protocol. -/
def Action.isSmooth : Action Member S → Bool
  | .refuse _ | .rewrite .. => false
  | _ => true

def Caller.awaits? (client : Caller Member) : Option (Member × Nat) :=
  match client.session with
  | .replicating index _ => some (client.member, index)
  | _ => none

namespace Execution

variable [DecidableEq Member] [Storage S]

section Any

variable {e : Execution Member S} {time later caller : Nat} {member : Member} {index : Nat}
  {request : Request} {id : UInt64} {run : Run Tally State Replication.Input}

private theorem Move.isOver_or_advance {operation moved : Operation}
    (h : e.Move time member index operation moved) :
    moved.isOver = operation.isOver ∨ e.schedule time = .advance member index := by
  cases h with
  | nothing => exact .inl rfl
  | advance _ effects haction => exact .inr haction
  | fail parcel =>
      refine .inl ?_
      cases operation <;> exact Run.push_isOver _ _
  | reply datagram message =>
      refine .inl ?_
      cases operation <;> exact Run.push_isOver _ _

private theorem exists_advance {operation moved : Operation}
    (h : e.operation? time member index = some operation) (hgoing : operation.isOver = false)
    (hle : time ≤ later) (hlater : e.operation? later member index = some moved)
    (hover : moved.isOver = true) :
    ∃ turn, time ≤ turn ∧ e.schedule turn = .advance member index := by
  induction hle generalizing moved with
  | refl =>
      rw [h] at hlater
      cases hlater
      rw [hover] at hgoing
      cases hgoing
  | @step later hle ih =>
      obtain ⟨before, hbefore, -⟩ := operation?_mono h hle
      obtain ⟨after, hafter, hmove⟩ := operation?_succ_of_some hbefore
      rw [hlater] at hafter
      cases hafter
      rcases hmove.isOver_or_advance with hsame | haction
      · exact ih hbefore (hsame ▸ hover)
      · exact ⟨later, hle, haction⟩

private theorem exists_resume {client last : Caller Member}
    (h : (e.after time).callers[caller]? = some client) (hgoing : client.session.result? = none)
    (hle : time ≤ later) (hlater : (e.after later).callers[caller]? = some last)
    (hended : last.session.result? ≠ none) :
    ∃ turn, time ≤ turn ∧ e.schedule turn = .resume caller := by
  rcases idle_or_proceeds h hle with hidle | ⟨turn, program, hafter, -, -, hproceeds⟩
  · rw [hidle later hle (Nat.le_refl later)] at hlater
    cases hlater
    exact absurd hgoing hended
  · exact ⟨turn, hafter, hproceeds.action⟩

private theorem deadline_pos (hlawful : e.Lawful)
    (htimeout : 0 < (e.host member).protocol.ackTimeout)
    {due : Nat} {input : Replication.Input}
    (hoperation : e.operation? time member index = some (.replication request id run))
    (hdeadline : run.deadline = some (due, input)) : 0 < due := by
  have harm : ∀ now state, Run.arm (Replication.automaton (e.host member) request id) now state =
      some (due, input) → 0 < due := by
    intro now state harmed
    cases state with
    | waiting =>
        cases harmed
        exact Nat.add_pos_right now htimeout
    | _ => cases harmed
  induction time generalizing run with
  | zero =>
      rw [operation?_zero hlawful] at hoperation
      cases hoperation
  | succ time ih =>
      cases came_of_succ hoperation with
      | start now => cases hdeadline
      | stay _ hbefore => exact ih hbefore hdeadline
      | fail before parcel hbefore =>
          obtain ⟨more, hmore⟩ := exists_push before (.input (.sendFailed parcel.peer.name))
          rw [hmore] at hdeadline
          exact ih hbefore hdeadline
      | reply before datagram answer hbefore =>
          obtain ⟨more, hmore⟩ := exists_push before (.input (.reply answer))
          rw [hmore] at hdeadline
          exact ih hbefore hdeadline
      | move before _ effects hbefore _ _ hadvance =>
          cases Run.advance_cases hadvance with
          | take taken rest =>
              rw [Run.deadline_feed] at hdeadline
              split at hdeadline
              · exact ih hbefore hdeadline
              · exact harm _ _ hdeadline
          | expire passed taken =>
              rw [Run.deadline_feed] at hdeadline
              split at hdeadline
              · cases hdeadline
              · exact harm _ _ hdeadline
          | stop => cases hdeadline

theorem Made.of_awaits (h : (e.after time).callers[caller]?.bind Caller.awaits? = some (member, index))
    (hle : time ≤ later) : e.Made later caller member index := by
  obtain ⟨client, hclient, hawaits⟩ := Option.bind_eq_some_iff.mp h
  unfold Caller.awaits? at hawaits
  split at hawaits
  case h_1 hsession =>
    cases hawaits
    exact ⟨time, client, _, hle, hclient, rfl, hsession⟩
  case h_2 => cases hawaits

theorem Exchanged.of_answer {server : Member} {parcel : Parcel Member} {datagram answer : Bytes}
    {address : Address} {arrival back : Nat} (hencode : parcel.message.encode = .ok datagram)
    (haddress : e.address server = parcel.peer.address)
    (haction : e.schedule arrival = .deliver server datagram)
    (hsent : (e.address server, datagram) ∈ (e.after arrival).sent)
    (houtgoing : ((e.node arrival server).response datagram).outgoing = some (address, answer))
    (hback : e.schedule back = .deliver parcel.sender answer) (hafter : arrival < back)
    (hbefore : back < time) : e.Exchanged time parcel := by
  refine ⟨datagram, server, arrival, hencode, haddress, Nat.lt_trans hafter hbefore, haction, hsent, ?_⟩
  intro other reply hother
  rw [houtgoing] at hother
  cases hother
  exact ⟨back, hafter, hbefore, hback⟩

end Any

variable {start : Fleet Member S} {actions : List (Action Member S)}

private theorem extends_last (start : Fleet Member S) (actions : List (Action Member S))
    (time : Nat) :
    Extends ((ofList start actions).after time) ((ofList start actions).after actions.length) := by
  rcases Nat.le_total time actions.length with hle | hle
  · exact (ofList start actions).extends_after hle
  · rw [after_ofList hle]
    exact .refl _

omit [DecidableEq Member] [Storage S] in
theorem isSmooth_ofList (start : Fleet Member S)
    (h : ∀ action ∈ actions, action.isSmooth = true) (time : Nat) :
    ((ofList start actions).schedule time).isSmooth = true := by
  rcases schedule_ofList start actions time with hmem | helapse
  · exact h _ hmem
  · rw [helapse]
    rfl

/-- A fleet on which everybody is done is reliable, when everything has been exchanged by then and no
time has passed. -/
theorem reliable_ofList (hlawful : (ofList start actions).Lawful)
    (hsmooth : ∀ action ∈ actions, action.isSmooth = true)
    (htimeouts : ∀ member, 0 < (start.nodes member).host.protocol.ackTimeout)
    (hnow : ((ofList start actions).after actions.length).now = 0)
    (hover : ∀ member index operation,
      (ofList start actions).operation? actions.length member index = some operation →
      operation.isOver = true)
    (hended : ∀ client ∈ ((ofList start actions).after actions.length).callers,
      client.session.result? ≠ none)
    (hexchanged : ∀ parcel ∈ ((ofList start actions).after actions.length).outbox,
      (ofList start actions).Exchanged actions.length parcel) :
    (ofList start actions).Reliable where
  accepts time parcel := by
    rintro ⟨place, hplace, haction | ⟨-, error, hencode⟩⟩
    · have hrefuses := isSmooth_ofList start hsmooth time
      rw [haction] at hrefuses
      cases hrefuses
    · obtain ⟨datagram, -, -, hwritten, -⟩ :=
        hexchanged parcel ((extends_last start actions time).outbox.subset (List.mem_of_getElem? hplace))
      rw [hwritten] at hencode
      cases hencode
  exchanges time parcel hparcel :=
    ⟨actions.length, hexchanged parcel ((extends_last start actions time).outbox.subset hparcel)⟩
  prompt time member index request id run due input hoperation hdeadline hdue := by
    -- No time has passed, so no deadline has.
    have hpos := deadline_pos hlawful (htimeouts member) hoperation hdeadline
    have hlate := (extends_last start actions time).now
    omega
  turns time member index operation hoperation hgoing := by
    rcases Nat.le_total time actions.length with hle | hle
    · obtain ⟨last, hlast, -⟩ := operation?_mono hoperation hle
      exact exists_advance hoperation hgoing hle hlast (hover member index last hlast)
    · rw [operation?, node, after_ofList hle] at hoperation
      rw [hover member index operation hoperation] at hgoing
      cases hgoing
  resumes time caller client hclient hgoing := by
    rcases Nat.le_total time actions.length with hle | hle
    · obtain ⟨hlt, -⟩ := List.getElem?_eq_some_iff.mp hclient
      have hlast := Nat.lt_of_lt_of_le hlt ((ofList start actions).length_callers_mono hle)
      exact exists_resume hclient hgoing hle (List.getElem?_eq_getElem hlast)
        (hended _ (List.getElem_mem hlast))
    · rw [after_ofList hle] at hclient
      exact absurd hgoing (hended client (List.mem_of_getElem? hclient))

end Execution

end ReplicaRing.Fleet
