import ReplicaRing.Proofs.Fleet.Order
import ReplicaRing.Proofs.Fleet.Progress
import ReplicaRing.Proofs.Fleet.Stages

/-! What an operation does when it sends its request: parcels for all targets, and a route back. -/

namespace ReplicaRing

namespace Fleet.Execution

open Replication (Tally State plan)

variable {Member S : Type} [DecidableEq Member] [Storage S] {e : Execution Member S}
  {time fanOut : Nat} {member : Member} {index : Nat} {request : Request} {id : UInt64}
  {run : Run Tally State Replication.Input} {targets : List Peer}

theorem FansOut.advance (h : e.FansOut time member index targets) :
    ∃ request id run message node,
      e.operation? time member index = some (.replication request id run) ∧
      plan (e.host member) request id (e.roster time member) = .ok (targets, message) ∧
      e.schedule time = .advance member index ∧
      (e.node time member).advance (e.after time).now index =
        some (node, .route id :: targets.map fun peer => .send peer message) := by
  obtain ⟨request, id, run, after, message, hoperation, hsending, hplan, hafter, hwaiting⟩ := h
  refine ⟨request, id, run, message, ?_⟩
  have hunsent : ¬run.state.IsSent := fun hsent => hsent.2 hsending
  obtain ⟨moved, hmoved, hmove⟩ := operation?_succ_of_some hoperation
  rw [hafter] at hmoved
  cases hmoved
  generalize hlater : Operation.replication request id after = later at hmove
  cases hmove with
  | nothing =>
      cases hlater
      rw [hwaiting] at hsending
      cases hsending
  | fail parcel =>
      cases hlater
      rw [Run.push_state, hsending] at hwaiting
      cases hwaiting
  | reply datagram answer =>
      cases hlater
      rw [Run.push_state, hsending] at hwaiting
      cases hwaiting
  | advance _ effects haction hadvance =>
      subst hlater
      obtain ⟨_, heq, -, hmoves, -⟩ := Operation.advance_replication hadvance
      cases heq
      have heffects : effects = .route id :: targets.map fun peer => .send peer message := by
        cases hmoves with
        | react ready input _ hmemory hstate =>
            obtain ⟨peers, planned, hpeers, hreact⟩ :=
              Replication.react_eq_fanOut (hstate ▸ hunsent) hwaiting
            rw [hplan] at hpeers
            cases hpeers
            rw [hmemory, hstate] at hreact
            exact congrArg Reaction.effects hreact
        | stop =>
            rw [hsending] at hwaiting
            cases hwaiting
      subst heffects
      have hbefore : (e.node time member).operations[index]? =
          some (.replication request id run) := hoperation
      have hnode : (e.node time member).advance (e.after time).now index = _ :=
        Node.advance_of_operation hbefore
      rw [e.host_node, ← roster, hadvance] at hnode
      exact ⟨_, hoperation, hplan, haction, hnode⟩

private theorem outbox_advance {node : Node S} {effects : List Effect}
    (haction : e.schedule time = .advance member index)
    (hadvance : (e.node time member).advance (e.after time).now index = some (node, effects)) :
    (e.after (time + 1)).outbox =
      (e.after time).outbox ++ effects.filterMap (Parcel.of? member index) := by
  rw [after, haction, step]
  rw [← Execution.node, hadvance]

theorem FansOut.parcel (h : e.FansOut fanOut member index targets) (hle : fanOut < time) :
    ∃ message, ∀ peer ∈ targets,
      (⟨member, index, peer, message⟩ : Parcel Member) ∈ (e.after time).outbox := by
  obtain ⟨request, id, run, message, node, -, -, haction, hadvance⟩ := h.advance
  refine ⟨message, fun peer hpeer => (e.extends_after hle).outbox.subset ?_⟩
  rw [outbox_advance haction hadvance]
  refine List.mem_append_right _ (List.mem_filterMap.mpr ⟨.send peer message, ?_, rfl⟩)
  exact List.mem_cons_of_mem _ (List.mem_map_of_mem hpeer)

private theorem fansOut_of_send {node : Node S} {effects : List Effect} {peer : Peer}
    {message : Message}
    (haction : e.schedule time = .advance member index)
    (hadvance : (e.node time member).advance (e.after time).now index = some (node, effects))
    (hsend : .send peer message ∈ effects)
    (hoperation : e.operation? (time + 1) member index = some (.replication request id run)) :
    ∃ targets, e.FansOut time member index targets ∧
      plan (e.host member) request id (e.roster time member) = .ok (targets, message) := by
  obtain ⟨before, moved, hbefore, hmoved, hafter⟩ := operation?_advance haction hadvance
  rw [hoperation] at hafter
  cases hafter
  cases before with
  | ping => cases Operation.request?_advance hmoved
  | replication asked number earlier =>
      obtain ⟨_, heq, -, hmoves, -⟩ := Operation.advance_replication hmoved
      cases heq
      cases hmoves with
      | react ready input _ hmemory hstate =>
          obtain ⟨hsending, targets, _, hplan, hreact, hroute | ⟨_, hsends⟩⟩ :=
            Replication.react_eq_fanOut_of_mem hsend
          case inl => cases hroute
          cases hsends
          rw [← hmemory, ← hstate] at hreact
          exact ⟨targets, ⟨request, id, earlier, _, message, hbefore, hsending, hplan, hoperation,
            congrArg Reaction.state hreact⟩, hplan⟩
      | stop => rcases Replication.mem_retire hsend with h | h <;> cases h

theorem planned_of_mem_outbox (hlawful : e.Lawful) {parcel : Parcel Member}
    (hparcel : parcel ∈ (e.after time).outbox)
    (hoperation : e.operation? time parcel.sender parcel.operation =
      some (.replication request id run)) :
    ∃ fanOut targets, fanOut < time ∧
      e.FansOut fanOut parcel.sender parcel.operation targets ∧
      plan (e.host parcel.sender) request id (e.roster fanOut parcel.sender) =
        .ok (targets, parcel.message) := by
  induction time generalizing run with
  | zero =>
      rw [operation?_zero hlawful] at hoperation
      cases hoperation
  | succ time ih =>
      rcases mem_outbox_succ hparcel with hold | ⟨node, effects, haction, hadvance, heffect⟩
      · obtain ⟨before, hbefore, -⟩ := asked_of_mem_outbox hlawful hold
        obtain ⟨moved, hmoved, hmove⟩ := operation?_succ_of_some hbefore
        rw [hoperation] at hmoved
        cases hmoved
        have hrequest := hmove.request?_eq
        have hid := hmove.id_eq
        cases before with
        | ping => cases hrequest
        | replication asked number earlier =>
            cases hrequest
            cases hid
            obtain ⟨fanOut, targets, hlt, hrest⟩ := ih hold hbefore
            exact ⟨fanOut, targets, Nat.lt_succ_of_lt hlt, hrest⟩
      · obtain ⟨targets, hfansOut, hplan⟩ := fansOut_of_send haction hadvance heffect hoperation
        exact ⟨time, targets, Nat.lt_succ_self time, hfansOut, hplan⟩

theorem FansOut.isSent (h : e.FansOut fanOut member index targets) (hlawful : e.Lawful)
    (hlt : fanOut < time)
    (hoperation : e.operation? time member index = some (.replication request id run)) :
    run.state.IsSent := by
  obtain ⟨message, hparcels⟩ := h.parcel hlt
  obtain ⟨peer, hpeer⟩ := List.exists_mem_of_ne_nil targets h.ne_nil
  exact (asked_of_mem_outbox hlawful (hparcels peer hpeer)).isSent hoperation (Nat.le_refl time)

theorem FansOut.unique {other : Nat} {peers : List Peer}
    (h : e.FansOut fanOut member index targets) (hother : e.FansOut other member index peers)
    (hlawful : e.Lawful) : fanOut = other ∧ targets = peers := by
  have hnot : ∀ {first second : Nat} {few many : List Peer}, e.FansOut first member index few →
      e.FansOut second member index many → ¬first < second := by
    intro first second few many hfirst hsecond hlt
    obtain ⟨request, id, run, after, message, hoperation, hsending, -⟩ := hsecond
    exact (hfirst.isSent hlawful hlt hoperation).2 hsending
  obtain rfl : fanOut = other :=
    Nat.le_antisymm (Nat.le_of_not_lt (hnot hother h)) (Nat.le_of_not_lt (hnot h hother))
  obtain ⟨_, _, _, _, _, hoperation, -, hplan, -⟩ := h
  obtain ⟨_, _, _, _, _, hsame, -, hplanned, -⟩ := hother
  rw [hoperation] at hsame
  cases hsame
  rw [hplan] at hplanned
  cases hplanned
  exact ⟨rfl, rfl⟩

private theorem effects_of_isSent {moved : Operation} {effects : List Effect}
    (hadvance : (Operation.replication request id run).advance (e.host member)
      (e.roster time member) (e.after time).now = some (moved, effects))
    (hsent : run.state.IsSent) (hover : moved.isOver = false) : effects = [] := by
  obtain ⟨after, rfl, -, hmoves, -⟩ := Operation.advance_replication hadvance
  cases hmoves with
  | react ready input => exact (Replication.react_isSent _ _ _ _ _ hsent input).2
  | stop => cases hover

private theorem FansOut.route_succ (h : e.FansOut time member index targets)
    (hoperation : e.operation? time member index = some (.replication request id run)) :
    (e.node (time + 1) member).routes.find? id = some index := by
  obtain ⟨_, _, _, message, node, hbefore, -, haction, hadvance⟩ := h.advance
  rw [hoperation] at hbefore
  cases hbefore
  rw [node_advance haction hadvance]
  obtain ⟨_, moved, -, -, rfl⟩ := Node.advance_eq_some hadvance
  rw [List.foldl_cons, Node.find?_foldl_apply_of_ne]
  · exact (Table.find?_insert _ _ _ _).trans (if_pos rfl)
  · intro effect heffect
    obtain ⟨peer, -, rfl⟩ := List.mem_map.mp heffect
    simp

private theorem ne_route_of_other (hlawful : e.Lawful) {other : Nat} {operation moved : Operation}
    {effects : List Effect} {effect : Effect}
    (hoperation : e.operation? time member index = some (.replication request id run))
    (hother : e.operation? time member other = some operation) (hne : other ≠ index)
    (hadvance : operation.advance (e.host member) (e.roster time member) (e.after time).now =
      some (moved, effects))
    (heffect : effect ∈ effects) : effect ≠ .route id ∧ effect ≠ .unroute id := by
  have hid : moved.id ≠ id := by
    rw [Operation.id_advance hadvance, operation_id hlawful hother,
      show id = e.requestId member index from operation_id hlawful hoperation]
    exact fun heq => hne (requestId_injective (index_lt hlawful hother)
      (index_lt hlawful hoperation) heq)
  rcases Operation.advance_effects hadvance heffect with ⟨peer, message, rfl, -⟩ | rfl | rfl | rfl
  · simp
  · simp [hid]
  · simp [hid]
  · simp

/-- Until an operation that has been sent ends, the replies to its request reach it. -/
theorem FansOut.route (h : e.FansOut fanOut member index targets) (hlawful : e.Lawful)
    (hlt : fanOut < time)
    (hoperation : e.operation? time member index = some (.replication request id run))
    (hover : run.isOver = false) :
    (e.node time member).routes.find? id = some index := by
  induction hlt generalizing run with
  | refl =>
      obtain ⟨_, _, _, _, _, hbefore, -⟩ := h.advance
      obtain ⟨after, hafter⟩ := replication?_mono hbefore (Nat.le_succ fanOut)
      rw [hoperation] at hafter
      cases hafter
      exact h.route_succ hbefore
  | @step time hle ih =>
      obtain ⟨_, _, _, _, _, hfirst, -⟩ := h.advance
      obtain ⟨before, hbefore⟩ := replication?_mono hfirst (Nat.le_of_lt hle)
      obtain ⟨after, hafter⟩ := replication?_mono hbefore (Nat.le_succ time)
      rw [hoperation] at hafter
      cases hafter
      have hroute := ih hbefore (isOver_of_later hbefore hoperation (Nat.le_succ time) hover)
      have hchange := e.node_succ time member
      have hlater := hoperation
      rw [operation?] at hlater
      generalize e.node (time + 1) member = node at hchange hlater
      cases hchange with
      | advance moving _ effects haction hadvance =>
          obtain ⟨operation, moved, hmoving, hmoves, rfl⟩ := Node.advance_eq_some hadvance
          rw [e.host_node] at hmoves
          rw [Node.find?_foldl_apply_of_ne]
          · exact hroute
          intro effect heffect
          by_cases hsame : moving = index
          · subst hsame
            obtain rfl : operation = .replication request id before :=
              Option.some.inj (hmoving.symm.trans hbefore)
            obtain ⟨routes, hframe⟩ :=
              ((e.node time member).modify moving fun _ => moved).foldl_apply moving effects
            rw [hframe] at hlater
            change ((e.node time member).modify moving fun _ => moved).operations[moving]? =
              some (.replication request id run) at hlater
            rw [Node.getElem?_modify, if_pos rfl, hmoving] at hlater
            cases hlater
            -- Of its own moves only the last one unroutes.
            rw [effects_of_isSent hmoves (h.isSent hlawful hle hbefore) hover] at heffect
            cases heffect
          · exact ne_route_of_other hlawful hbefore hmoving hsame hmoves heffect
      | receive datagram haction hsent =>
          obtain ⟨operations, storage, hnode, -⟩ := (e.node time member).receive_frame datagram
          rw [hnode]
          exact hroute
      | _ => exact hroute

end Fleet.Execution

end ReplicaRing
