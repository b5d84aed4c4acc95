import ReplicaRing.Proofs.Fleet.Traffic

/-! Replies reach the operations whose requests they answer, and no others. -/

namespace ReplicaRing.Fleet.Execution

variable {Member S : Type} [DecidableEq Member] [Storage S] {e : Execution Member S}
  {time : Nat} {member : Member} {index : Nat}

private theorem find?_routes_succ {id : UInt64} {owner : Nat}
    (h : (e.node (time + 1) member).routes.find? id = some owner) :
    (e.node time member).routes.find? id = some owner ∨
      ∃ operation, e.operation? (time + 1) member owner = some operation ∧ operation.id = id := by
  have hchange := e.node_succ time member
  have hmoved : ∀ index effects node, e.schedule time = .advance member index →
      (e.node time member).advance (e.after time).now index = some (node, effects) →
      ∃ operation moved : Operation, operation.advance (e.host member) (e.roster time member)
        (e.after time).now = some (moved, effects) ∧
          e.operation? (time + 1) member index = some moved := by
    intro index effects node haction hadvance
    obtain ⟨operation, moved, -, hmoved, hafter⟩ := operation?_advance haction hadvance
    exact ⟨operation, moved, hmoved, hafter⟩
  generalize e.node (time + 1) member = node at hchange h
  cases hchange with
  | advance advanced _ effects haction hadvance =>
      obtain ⟨operation, moved, hoperation, hafter⟩ := hmoved _ _ _ haction hadvance
      obtain ⟨_, _, -, -, rfl⟩ := Node.advance_eq_some hadvance
      rcases Node.find?_foldl_apply h with hold | ⟨rfl, hroute⟩
      · exact .inl hold
      · refine .inr ⟨moved, hafter, ?_⟩
        rcases Operation.advance_effects hoperation hroute with ⟨_, _, h, -⟩ | h | h | h
        · cases h
        · cases h
          rfl
        · cases h
        · cases h
  | receive datagram haction hsent =>
      rcases (e.node time member).receive_node datagram with
        hnode | ⟨message, replied, -, -, hnode⟩
      · rw [hnode] at h
        exact .inl h
      · rw [hnode] at h
        exact .inl h
  | _ => exact .inl h

private theorem owner_of_route (hlawful : e.Lawful) {id : UInt64} {owner : Nat}
    (h : (e.node time member).routes.find? id = some owner) :
    ∃ operation, e.operation? time member owner = some operation ∧ operation.id = id := by
  induction time with
  | zero =>
      have hnone : (e.node 0 member).routes = {} := hlawful.fresh.noRoutes member
      rw [hnone] at h
      cases h
  | succ time ih =>
      rcases find?_routes_succ h with hold | hnew
      · obtain ⟨operation, hoperation, hid⟩ := ih hold
        obtain ⟨moved, hmoved, hmove⟩ := operation?_succ_of_some hoperation
        exact ⟨moved, hmoved, hmove.id_eq.trans hid⟩
      · exact hnew

theorem Delivers.answered (hlawful : e.Lawful) {datagram : Bytes} {message : Message}
    (h : e.Delivers time member index datagram message) :
    ∃ server earlier, earlier < time ∧ e.Answered earlier member index server message := by
  obtain ⟨hdecode, hreply⟩ := Server.receive_reply h.reply
  rcases asked_or_answered hlawful h.sent hdecode with
    ⟨asker, asked, operation, -, hrequests⟩ |
    ⟨asker, asked, server, earlier, hearlier, haddress, hanswered⟩
  · rw [hrequests.not_isReply] at hreply
    cases hreply
  · obtain rfl : member = asker := hlawful.addresses haddress
    obtain ⟨operation, hoperation, hid⟩ := owner_of_route hlawful h.owner
    rw [operation_id hlawful hoperation, hanswered.requestId_eq hlawful] at hid
    obtain rfl : index = asked :=
      requestId_injective (index_lt hlawful hoperation) (hanswered.index_lt hlawful) hid
    exact ⟨server, earlier, hearlier, hanswered⟩

/-- Every reply that a replication has yet to count answers a request of its own. -/
theorem answered_of_offers (hlawful : e.Lawful) {request : Request} {id : UInt64}
    {run : Run Replication.Tally Replication.State Replication.Input} {message : Message}
    (h : e.operation? time member index = some (.replication request id run))
    (hoffers : run.Offers (.reply message)) :
    ∃ server earlier, earlier < time ∧ e.Answered earlier member index server message := by
  induction time generalizing run with
  | zero =>
      rw [operation?_zero hlawful] at h
      cases h
  | succ time ih =>
      suffices hanswered : ∃ server earlier, earlier < time ∧
          e.Answered earlier member index server message by
        obtain ⟨server, earlier, hlt, hanswered⟩ := hanswered
        exact ⟨server, earlier, Nat.lt_succ_of_lt hlt, hanswered⟩
      cases came_of_succ h with
      | start now =>
          rcases Run.offers_push hoffers with hold | hnew
          · rcases hold with hqueue | ⟨_, hdeadline⟩
            · cases hqueue
            · cases hdeadline
          · cases hnew
      | stay _ hbefore => exact ih hbefore hoffers
      | fail before parcel hbefore =>
          rcases Run.offers_push hoffers with hold | hnew
          · exact ih hbefore hold
          · cases hnew
      | reply before datagram answer hbefore hdelivers =>
          rcases Run.offers_push hoffers with hold | hnew
          · exact ih hbefore hold
          · cases hnew
            exact hdelivers.answered hlawful
      | move before _ effects hbefore _ hmoves =>
          exact ih hbefore (Replication.offers_of_moves hmoves hoffers)

end ReplicaRing.Fleet.Execution
