import ReplicaRing.Proofs.Fleet.Replies
import ReplicaRing.Proofs.Replication.Orderly

/-! The replications of a fleet hear of their targets only when they have sent their requests. -/

namespace ReplicaRing.Fleet.Execution

open Replication (Tally State Orderly)

variable {Member S : Type} [DecidableEq Member] [Storage S] {e : Execution Member S}
  {time earlier : Nat} {member : Member} {index : Nat} {request : Request} {id : UInt64}
  {run : Run Tally State Replication.Input} {message : Message}

theorem Asked.isSent (h : e.Asked earlier member index message)
    (hoperation : e.operation? time member index = some (.replication request id run))
    (hle : earlier ≤ time) : run.state.IsSent := by
  obtain ⟨operation, hlater, hrequests⟩ := h.mono hle
  rw [hoperation] at hlater
  cases hlater
  exact hrequests.content.1

theorem orderly (hlawful : e.Lawful)
    (h : e.operation? time member index = some (.replication request id run)) :
    Orderly run := by
  induction time generalizing run with
  | zero =>
      rw [operation?_zero hlawful] at h
      cases h
  | succ time ih =>
      cases came_of_succ h with
      | start now => exact .start _ request id now
      | stay _ hbefore => exact ih hbefore
      | fail before parcel hbefore hsender hindex hrefuses =>
          obtain ⟨place, hparcel, -⟩ := hrefuses
          have hasked := asked_of_mem_outbox hlawful (List.mem_of_getElem? hparcel)
          rw [hsender, hindex] at hasked
          exact (ih hbefore).push (hasked.isSent hbefore (Nat.le_refl time)) rfl
      | reply before datagram answer hbefore hdelivers =>
          obtain ⟨server, earlier, hearlier, asked, hasked, -⟩ := hdelivers.answered hlawful
          exact (ih hbefore).push (hasked.isSent hbefore (Nat.le_of_lt hearlier)) rfl
      | move before _ effects hbefore _ _ hadvance => exact (ih hbefore).advance hadvance

end ReplicaRing.Fleet.Execution
