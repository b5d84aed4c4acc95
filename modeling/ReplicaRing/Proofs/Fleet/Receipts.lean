import ReplicaRing.Proofs.Fleet.Order
import ReplicaRing.Proofs.Fleet.Stages
import ReplicaRing.Proofs.Replication.Reactions

/-! Whose acknowledgement a replication takes its receipt from. -/

namespace ReplicaRing

namespace Replication

variable {host : Host} {request : Request} {id : UInt64} {roster : Roster} {now : Nat}
  {run after : Run Tally State Input} {effects : List Effect}

private theorem Orderly.receipt_of_advance (h : Orderly run)
    (hadvance : run.advance (automaton host request id) roster now =
      some (after, effects))
    (hreceipt : after.memory.receipt ≠ run.memory.receipt) :
    ∃ message receipt rest, run.state = .waiting ∧ run.memory.receipt = none ∧
      run.queue = .input (.reply message) :: rest ∧ message.replyTo ∈ run.memory.pending ∧
      request.classify message = some (.ack receipt) ∧ after.memory.receipt = some receipt ∧
      after.memory.acks = run.memory.acks + 1 := by
  cases Run.advance_cases hadvance with
  | take input rest _ _ hqueue =>
      obtain ⟨hwaiting, hnone, message, receipt, rfl, hpending, hvote, hfirst, hacks⟩ :=
        receipt_of_react hreceipt
      exact ⟨message, receipt, rest, hwaiting, hnone, hqueue, hpending, hvote, hfirst, hacks⟩
  | expire due input _ _ _ hdeadline =>
      obtain ⟨-, -, message, _, rfl, -⟩ := receipt_of_react hreceipt
      have hphase := h.phase
      rw [hdeadline] at hphase
      cases hphase.eq_waiting.2
  | stop => exact absurd rfl hreceipt

end Replication

namespace Fleet.Execution

open Replication (Tally State)

variable {Member S : Type} [DecidableEq Member] [Storage S] {e : Execution Member S}
  {time moment : Nat} {member server : Member} {index : Nat} {request : Request} {id : UInt64}
  {run : Run Tally State Replication.Input} {receipt : Receipt}

/-- The first acknowledgement that an operation counts is the one of this server. -/
def AcksFirst (e : Execution Member S) (moment : Nat) (member : Member) (index : Nat)
    (server : Member) (receipt : Receipt) : Prop :=
  ∃ request id run after message rest earlier,
    e.operation? moment member index = some (.replication request id run) ∧
    run.state = .waiting ∧ run.memory.acks = 0 ∧ run.queue = .input (.reply message) :: rest ∧
    message.replyTo ∈ run.memory.pending ∧ request.classify message = some (.ack receipt) ∧
    earlier < moment ∧ e.Answered earlier member index server message ∧
    e.operation? (moment + 1) member index = some (.replication request id after) ∧
    after.memory.acks = 1

theorem exists_acksFirst (hlawful : e.Lawful)
    (hoperation : e.operation? time member index = some (.replication request id run))
    (hreceipt : run.memory.receipt = some receipt) :
    ∃ moment server, moment < time ∧ e.AcksFirst moment member index server receipt := by
  induction time generalizing run with
  | zero =>
      rw [operation?_zero hlawful] at hoperation
      cases hoperation
  | succ time ih =>
      have hearlier : ∀ {before : Run Tally State Replication.Input},
          e.operation? time member index = some (.replication request id before) →
          before.memory.receipt = some receipt →
          ∃ moment server, moment < time + 1 ∧ e.AcksFirst moment member index server receipt := by
        intro before hbefore hsame
        obtain ⟨moment, server, hlt, hfirst⟩ := ih hbefore hsame
        exact ⟨moment, server, Nat.lt_succ_of_lt hlt, hfirst⟩
      cases came_of_succ hoperation with
      | start now => cases hreceipt
      | stay _ hbefore => exact hearlier hbefore hreceipt
      | fail before parcel hbefore => exact hearlier hbefore (by simpa using hreceipt)
      | reply before datagram answer hbefore => exact hearlier hbefore (by simpa using hreceipt)
      | move before _ effects hbefore _ _ hadvance =>
          by_cases hsame : run.memory.receipt = before.memory.receipt
          case pos => exact hearlier hbefore (hsame ▸ hreceipt)
          case neg =>
            obtain ⟨message, first, rest, hwaiting, hnone, hqueue, hpending, hvote, hfirst, hacks⟩ :=
              (orderly hlawful hbefore).receipt_of_advance hadvance hsame
            rw [hfirst] at hreceipt
            cases hreceipt
            obtain ⟨server, earlier, hlt, hanswered⟩ :=
              answered_of_offers hlawful hbefore (.inl (hqueue ▸ List.mem_cons_self))
            -- The receipt is kept from the first acknowledgement on, so without one there was none.
            have hnobody : before.memory.acks = 0 := by
              have hstage := stage hlawful hbefore
              rw [hwaiting] at hstage
              cases hstage with
              | unsent hunsent => exact absurd .waiting hunsent
              | failed herror => cases herror
              | sent fanOut targets standing _ _ _ hsettles =>
                  exact hsettles.records.unreceived hnone
            exact ⟨time, server, Nat.lt_succ_self time, request, id, before, run, message, rest, earlier,
              hbefore, hwaiting, hnobody, hqueue, hpending, hvote, hlt, hanswered, hoperation,
              by rw [hacks, hnobody]⟩

end Fleet.Execution

end ReplicaRing
