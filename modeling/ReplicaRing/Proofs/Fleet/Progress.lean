import ReplicaRing.Proofs.Fleet.Sessions

/-! What has come to be in a fleet stays, and what is under way goes on. -/

namespace ReplicaRing.Fleet

open Replication (Tally State)

variable {Member S : Type} [DecidableEq Member] [Storage S]

/-- Time goes on, and what was to be sent or has been sent is not forgotten. -/
structure Extends (before after : Fleet Member S) : Prop where
  outbox : before.outbox <+: after.outbox
  sent : before.sent <+: after.sent
  now : before.now ≤ after.now

omit [DecidableEq Member] [Storage S] in
theorem Extends.refl (fleet : Fleet Member S) : Extends fleet fleet :=
  ⟨List.prefix_rfl, List.prefix_rfl, Nat.le_refl _⟩

omit [DecidableEq Member] [Storage S] in
private theorem Extends.trans {before middle after : Fleet Member S} (h : Extends before middle)
    (hrest : Extends middle after) : Extends before after :=
  ⟨h.outbox.trans hrest.outbox, h.sent.trans hrest.sent, Nat.le_trans h.now hrest.now⟩

private theorem extends_step (fleet : Fleet Member S) (action : Action Member S) :
    Extends fleet (fleet.step action) := by
  cases action with
  | call member call => exact ⟨List.prefix_rfl, List.prefix_rfl, Nat.le_refl _⟩
  | resume caller =>
      rw [step]
      split
      · exact .refl fleet
      case _ waiting _ =>
        obtain ⟨nodes, hframe⟩ := fleet.resume_frame waiting.member waiting.session
        simp only [hframe]
        exact ⟨List.prefix_rfl, List.prefix_rfl, Nat.le_refl _⟩
  | advance member operation =>
      rw [step]
      split
      · exact .refl fleet
      · exact ⟨List.prefix_append .., List.prefix_rfl, Nat.le_refl _⟩
  | transmit parcel =>
      rw [step]
      split
      · exact .refl fleet
      · rw [transmit]
        split
        · exact ⟨List.prefix_rfl, List.prefix_append .., Nat.le_refl _⟩
        · exact ⟨List.prefix_rfl, List.prefix_rfl, Nat.le_refl _⟩
  | refuse parcel =>
      rw [step]
      split
      · exact .refl fleet
      · exact ⟨List.prefix_rfl, List.prefix_rfl, Nat.le_refl _⟩
  | deliver member datagram =>
      rw [step]
      split
      · exact ⟨List.prefix_rfl, List.prefix_append .., Nat.le_refl _⟩
      · exact .refl fleet
  | view member roster => exact ⟨List.prefix_rfl, List.prefix_rfl, Nat.le_refl _⟩
  | rewrite member storage => exact ⟨List.prefix_rfl, List.prefix_rfl, Nat.le_refl _⟩
  | elapse passed => exact ⟨List.prefix_rfl, List.prefix_rfl, Nat.le_add_right ..⟩

namespace Execution

variable {e : Execution Member S} {time later caller : Nat} {client : Caller Member}
  {member : Member} {index : Nat} {request : Request} {id : UInt64}
  {run : Run Tally State Replication.Input}

theorem extends_after (e : Execution Member S) (hle : time ≤ later) :
    Extends (e.after time) (e.after later) := by
  induction hle with
  | refl => exact .refl _
  | step hle ih => exact ih.trans (extends_step _ _)

theorem caller_succ_of_some (h : (e.after time).callers[caller]? = some client) :
    (e.after (time + 1)).callers[caller]? = some client ∧ e.schedule time ≠ .resume caller ∨
      e.schedule time = .resume caller ∧
        e.after (time + 1) = { ((e.after time).resume client.member client.session).2 with
          callers := (e.after time).callers.set caller
            { client with session := ((e.after time).resume client.member client.session).1 } } := by
  obtain ⟨hlt, -⟩ := List.getElem?_eq_some_iff.mp h
  rw [after]
  cases e.schedule time with
  | call member call =>
      refine .inl ⟨?_, by simp⟩
      rw [step, List.getElem?_append_left hlt]
      exact h
  | resume resumed =>
      by_cases hcaller : resumed = caller
      · subst hcaller
        refine .inr ⟨rfl, ?_⟩
        rw [step, h]
      · refine .inl ⟨?_, fun heq => hcaller (Action.resume.inj heq)⟩
        rw [step]
        split
        · exact h
        · rw [List.getElem?_set_ne hcaller]
          exact h
  | advance advanced operation =>
      refine .inl ⟨?_, by simp⟩
      rw [step]
      split <;> exact h
  | transmit taken =>
      refine .inl ⟨?_, by simp⟩
      rw [step]
      split
      · exact h
      · rw [transmit]
        split <;> exact h
  | refuse taken =>
      refine .inl ⟨?_, by simp⟩
      rw [step]
      split <;> exact h
  | deliver receiver datagram =>
      refine .inl ⟨?_, by simp⟩
      rw [step]
      split <;> exact h
  | _ => exact .inl ⟨h, by simp⟩

theorem operation?_deliver {operation : Operation} {datagram : Bytes} {message : Message}
    (h : e.Delivers time member index datagram message)
    (hoperation : e.operation? time member index = some operation) :
    e.operation? (time + 1) member index = some (operation.reply message) := by
  have hnode : e.node (time + 1) member = ((e.node time member).receive datagram).1 := by
    have hhere : (((e.after time).nodes member).address, datagram) ∈ (e.after time).sent := by
      have hsent := h.sent
      rwa [← e.address_node time member] at hsent
    rw [node, after, h.action, step, if_pos hhere]
    exact setNode_nodes_self ..
  have hreceive : ((e.node time member).receive datagram).1 =
      { e.node time member with
        storage := ((e.node time member).response datagram).storage }.modify index
          fun operation => operation.reply message := by
    have hreply := h.reply
    rw [Node.response] at hreply
    simp only [Node.receive, hreply, h.owner, Node.response]
  have hbefore : (e.node time member).operations[index]? = some operation := hoperation
  rw [operation?, hnode, hreceive, Node.getElem?_modify, if_pos rfl]
  exact congrArg (Option.map _) hbefore

/-- An operation whose turn it is makes its move, if it has one. -/
theorem operation?_turn (haction : e.schedule time = .advance member index)
    (h : e.operation? time member index = some (.replication request id run)) :
    (run.next (Replication.automaton (e.host member) request id) (e.after time).now = .wait ∧
      e.operation? (time + 1) member index = some (.replication request id run)) ∨
    ∃ after effects, run.advance (Replication.automaton (e.host member) request id)
        (e.roster time member) (e.after time).now = some (after, effects) ∧
      e.operation? (time + 1) member index = some (.replication request id after) := by
  have hbefore : (e.node time member).operations[index]? = some (.replication request id run) := h
  cases hrun : run.advance (Replication.automaton (e.host member) request id)
      (e.roster time member) (e.after time).now with
  | none =>
      refine .inl ⟨?_, ?_⟩
      · unfold Run.advance at hrun
        split at hrun
        case h_4 hwait => exact hwait
        all_goals cases hrun
      · have hstay : (e.node time member).advance (e.after time).now index = none := by
          rw [Node.advance_of_operation hbefore, Operation.advance, e.host_node, ← roster, hrun]
          rfl
        rw [operation?, node, after, haction, step]
        rw [← node, hstay]
        exact h
  | some moved =>
      obtain ⟨after, effects⟩ := moved
      refine .inr ⟨after, effects, rfl, ?_⟩
      have hmoves : ∃ moved, (e.node time member).advance (e.after time).now index =
          some (moved, effects) := by
        rw [Node.advance_of_operation hbefore, Operation.advance, e.host_node, ← roster, hrun]
        exact ⟨_, rfl⟩
      obtain ⟨node, hnode⟩ := hmoves
      obtain ⟨operation, moved, hoperation, hadvance, hafter⟩ := operation?_advance haction hnode
      rw [h] at hoperation
      cases hoperation
      rw [Operation.advance, hrun] at hadvance
      cases hadvance
      exact hafter

omit [DecidableEq Member] [Storage S] in
theorem exists_push (run : Run Tally State Replication.Input)
    (command : Command Replication.Input) :
    ∃ more, run.push command = { run with queue := run.queue ++ more } := by
  unfold Run.push
  split
  · exact ⟨[], by rw [List.append_nil]⟩
  · exact ⟨[command], rfl⟩

theorem exists_turn (h : e.operation? time member index = some (.replication request id run))
    (hturn : ∃ turn, time ≤ turn ∧ e.schedule turn = .advance member index) :
    ∃ turn more, time ≤ turn ∧ e.schedule turn = .advance member index ∧
      e.operation? turn member index =
        some (.replication request id { run with queue := run.queue ++ more }) := by
  obtain ⟨turn, hle, haction⟩ := hturn
  obtain ⟨gap, rfl⟩ := Nat.exists_eq_add_of_le hle
  induction gap generalizing time run with
  | zero => exact ⟨time, [], Nat.le_refl _, haction, by rw [List.append_nil]; exact h⟩
  | succ gap ih =>
      by_cases hnow : e.schedule time = .advance member index
      · exact ⟨time, [], Nat.le_refl _, hnow, by rw [List.append_nil]; exact h⟩
      · obtain ⟨moved, hmoved, hmove⟩ := operation?_succ_of_some h
        have hpush : ∃ more, moved =
            .replication request id { run with queue := run.queue ++ more } := by
          cases hmove with
          | nothing => exact ⟨[], by rw [List.append_nil]⟩
          | advance _ effects hadvances => exact absurd hadvances hnow
          | fail parcel =>
              obtain ⟨more, hmore⟩ := exists_push run (.input (.sendFailed parcel.peer.name))
              exact ⟨more, by rw [Operation.sendFailed, hmore]⟩
          | reply datagram message =>
              obtain ⟨more, hmore⟩ := exists_push run (.input (.reply message))
              exact ⟨more, by rw [Operation.reply, hmore]⟩
        obtain ⟨more, rfl⟩ := hpush
        obtain ⟨found, rest, hafter, hfound, hoperation⟩ := ih hmoved (Nat.le_add_right ..)
          (by rwa [Nat.succ_add_eq_add_succ])
        refine ⟨found, more ++ rest, Nat.le_of_succ_le hafter, hfound, ?_⟩
        rw [hoperation, List.append_assoc]

end Execution

end ReplicaRing.Fleet
