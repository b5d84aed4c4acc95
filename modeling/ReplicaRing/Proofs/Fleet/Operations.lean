import ReplicaRing.Proofs.Fleet.Steps
import ReplicaRing.Proofs.Node.Requests

/-! The operations of a fleet: who they are, and what one action can do to one of them. -/

namespace ReplicaRing.Fleet.Execution

variable {Member S : Type} [DecidableEq Member] [Storage S] {e : Execution Member S}
  {time : Nat} {member : Member} {index : Nat}

section Node

variable {node : Node S}

private theorem Change.host (h : Change e time member node) : node.host =
    (e.node time member).host := by
  cases h with
  | advance index _ effects haction hadvance =>
      obtain ⟨operations, routes, rfl, -⟩ := Node.advance_frame hadvance
      rfl
  | receive datagram haction hsent =>
      obtain ⟨operations, storage, hnode, -⟩ := (e.node time member).receive_frame datagram
      rw [hnode]
  | _ => rfl

private theorem Change.address (h : Change e time member node) :
    node.address = (e.node time member).address := by
  cases h with
  | advance index _ effects haction hadvance =>
      obtain ⟨operations, routes, rfl, -⟩ := Node.advance_frame hadvance
      rfl
  | receive datagram haction hsent =>
      obtain ⟨operations, storage, hnode, -⟩ := (e.node time member).receive_frame datagram
      rw [hnode]
  | _ => rfl

end Node

theorem host_node (e : Execution Member S) (time : Nat) (member : Member) :
    (e.node time member).host = e.host member := by
  induction time with
  | zero => rfl
  | succ time ih => rw [(e.node_succ time member).host, ih]

theorem address_node (e : Execution Member S) (time : Nat) (member : Member) :
    (e.node time member).address = e.address member := by
  induction time with
  | zero => rfl
  | succ time ih => rw [(e.node_succ time member).address, ih]

structure Delivers (e : Execution Member S) (time : Nat) (member : Member) (index : Nat)
    (datagram : Bytes) (message : Message) : Prop where
  action : e.schedule time = .deliver member datagram
  sent : (e.address member, datagram) ∈ (e.after time).sent
  reply : ((e.node time member).response datagram).reply = some message
  owner : (e.node time member).routes.owner? message = some index

inductive Move (e : Execution Member S) (time : Nat) (member : Member) (index : Nat)
    (operation : Operation) : Operation → Prop
  | nothing : Move e time member index operation operation
  | advance (moved : Operation) (effects : List Effect)
      (haction : e.schedule time = .advance member index)
      (hadvance : operation.advance (e.host member) (e.roster time member) (e.after time).now =
        some (moved, effects)) :
      Move e time member index operation moved
  | fail (parcel : Parcel Member) (hsender : parcel.sender = member)
      (hindex : parcel.operation = index) (hrefuses : e.Refuses time parcel) :
      Move e time member index operation (operation.sendFailed parcel.peer.name)
  | reply (datagram : Bytes) (message : Message)
      (hdelivers : e.Delivers time member index datagram message) :
      Move e time member index operation (operation.reply message)

def Starts (e : Execution Member S) (time : Nat) (member : Member) (operation : Operation) : Prop :=
  (∃ request, operation = Operation.startReplication (e.host member) (e.after time).now request
    (e.node time member).nextId) ∨
  ∃ target, operation = Operation.startPing (e.host member) (e.after time).now target
    (e.node time member).nextId

/-- What an action does at one place of a member's list of operations. -/
inductive Transit (e : Execution Member S) (time : Nat) (member : Member) (index : Nat) :
    Option Operation → Option Operation → Prop
  | absent : Transit e time member index none none
  | start (operation : Operation) (hindex : index = (e.node time member).operations.size)
      (hstarts : e.Starts time member operation) :
      Transit e time member index none (some operation)
  | move (operation moved : Operation) (hmove : e.Move time member index operation moved) :
      Transit e time member index (some operation) (some moved)

namespace Transit

private theorem refl (before : Option Operation) : Transit e time member index before before := by
  cases before with
  | none => exact .absent
  | some operation => exact .move operation operation .nothing

private theorem of_modify {node : Node S} (changed : Nat) (change : Operation → Operation)
    (hnode : node.operations[index]? = e.operation? time member index)
    (hmove : changed = index → ∀ operation, e.Move time member index operation (change operation)) :
    Transit e time member index (e.operation? time member index)
      (node.modify changed change).operations[index]? := by
  rw [Node.getElem?_modify, hnode]
  split
  case isFalse => exact refl _
  case isTrue hindex =>
    cases e.operation? time member index with
    | none => exact .absent
    | some operation => exact .move operation _ (hmove hindex operation)

private theorem of_start (started : UInt64 → Operation)
    (hstarts : e.Starts time member (started (e.node time member).nextId)) :
    Transit e time member index (e.operation? time member index)
      ((e.node time member).start started).2.operations[index]? := by
  rw [Node.getElem?_start]
  split
  case isFalse => exact refl _
  case isTrue hindex =>
    have habsent : e.operation? time member index = none := by
      rw [operation?, hindex]
      exact Array.getElem?_size
    rw [habsent]
    exact .start _ hindex hstarts

end Transit

private theorem operation?_succ (e : Execution Member S) (time : Nat) (member : Member)
    (index : Nat) :
    Transit e time member index (e.operation? time member index)
      (e.operation? (time + 1) member index) := by
  have hchange := e.node_succ time member
  have hhost := e.host_node time member
  change Transit e time member index _ (e.node (time + 1) member).operations[index]?
  generalize e.node (time + 1) member = node at hchange
  cases hchange with
  | nothing => exact .refl _
  | startReplication request => exact .of_start _ (.inl ⟨request, by rw [hhost]⟩)
  | startPing target => exact .of_start _ (.inr ⟨target, by rw [hhost]⟩)
  | advance advanced _ effects haction hadvance =>
      obtain ⟨operation, moved, hoperation, hmoved, rfl⟩ := Node.advance_eq_some hadvance
      obtain ⟨routes, hroutes⟩ :=
        ((e.node time member).modify advanced fun _ => moved).foldl_apply advanced effects
      rw [hhost] at hmoved
      rw [hroutes]
      change Transit e time member index (e.operation? time member index)
        ((e.node time member).modify advanced fun _ => moved).operations[index]?
      rw [Node.getElem?_modify]
      split
      case isFalse => exact .refl _
      case isTrue hindex =>
        subst hindex
        have hbefore : e.operation? time member advanced = some operation := hoperation
        rw [hbefore, hoperation]
        exact .move operation moved (.advance moved effects haction hmoved)
  | giveBack parcel hsender hrefuses =>
      exact .of_modify _ _ rfl fun hindex operation => .fail parcel hsender hindex hrefuses
  | receive datagram haction hsent =>
      rcases (e.node time member).receive_node datagram with
        h | ⟨message, replied, hreply, howner, h⟩
      · rw [h]
        exact .refl _
      · rw [h]
        refine .of_modify _ _ rfl ?_
        rintro rfl operation
        refine .reply datagram message ⟨haction, ?_, hreply, howner⟩
        rwa [e.address_node time member] at hsent
  | view roster haction => exact .refl _
  | rewrite storage haction => exact .refl _

theorem operation?_succ_of_some {operation : Operation}
    (h : e.operation? time member index = some operation) :
    ∃ moved, e.operation? (time + 1) member index = some moved ∧
      e.Move time member index operation moved := by
  have htransit := e.operation?_succ time member index
  rw [h] at htransit
  generalize e.operation? (time + 1) member index = after at htransit
  cases htransit with
  | move _ moved hmove => exact ⟨moved, rfl, hmove⟩

private theorem operation?_of_succ {moved : Operation}
    (h : e.operation? (time + 1) member index = some moved) :
    (∃ operation, e.operation? time member index = some operation ∧
      e.Move time member index operation moved) ∨
    index = (e.node time member).operations.size ∧ e.Starts time member moved := by
  have htransit := e.operation?_succ time member index
  rw [h] at htransit
  generalize e.operation? time member index = before at htransit
  cases htransit with
  | start _ hindex hstarts => exact .inr ⟨hindex, hstarts⟩
  | move operation _ hmove => exact .inl ⟨operation, rfl, hmove⟩

/-! Operations keep their numbers, which count up from the first. -/

theorem Move.id_eq {operation moved : Operation}
    (h : e.Move time member index operation moved) : moved.id = operation.id := by
  cases h with
  | nothing => rfl
  | advance _ effects haction hadvance => exact Operation.id_advance hadvance
  | fail parcel => exact Operation.id_sendFailed parcel.peer.name operation
  | reply datagram message hdelivers => exact Operation.id_reply message operation

theorem Move.request?_eq {operation moved : Operation}
    (h : e.Move time member index operation moved) : moved.request? = operation.request? := by
  cases h with
  | nothing => rfl
  | advance _ effects haction hadvance => exact Operation.request?_advance hadvance
  | fail parcel => exact Operation.request?_sendFailed parcel.peer.name operation
  | reply datagram message hdelivers => exact Operation.request?_reply message operation

theorem operation?_mono {earlier : Nat} {operation : Operation}
    (h : e.operation? earlier member index = some operation) (hle : earlier ≤ time) :
    ∃ later, e.operation? time member index = some later ∧
      later.request? = operation.request? := by
  induction hle with
  | refl => exact ⟨operation, h, rfl⟩
  | step hle ih =>
      obtain ⟨before, hbefore, hrequest⟩ := ih
      obtain ⟨later, hlater, hmove⟩ := operation?_succ_of_some hbefore
      exact ⟨later, hlater, hmove.request?_eq.trans hrequest⟩

theorem lt_of_new {earlier : Nat} {operation : Operation}
    (hnone : e.operation? earlier member index = none)
    (h : e.operation? time member index = some operation) : earlier < time := by
  by_contra hle
  obtain ⟨later, hlater, -⟩ := operation?_mono h (Nat.le_of_not_lt hle)
  rw [hnone] at hlater
  cases hlater

theorem new_anti {earlier : Nat} (hnone : e.operation? time member index = none) (hle : earlier ≤ time) :
    e.operation? earlier member index = none := by
  cases hoperation : e.operation? earlier member index with
  | none => rfl
  | some operation => exact absurd (lt_of_new hnone hoperation) (Nat.not_lt.mpr hle)

theorem request?_congr {other : Nat} {operation second : Operation}
    (h : e.operation? time member index = some operation)
    (hother : e.operation? other member index = some second) :
    operation.request? = second.request? := by
  rcases Nat.le_total time other with hle | hle
  · obtain ⟨later, hlater, hsame⟩ := operation?_mono h hle
    rw [hother] at hlater
    cases hlater
    exact hsame.symm
  · obtain ⟨later, hlater, hsame⟩ := operation?_mono hother hle
    rw [h] at hlater
    cases hlater
    exact hsame

theorem node_advance {node : Node S} {effects : List Effect}
    (haction : e.schedule time = .advance member index)
    (hadvance : (e.node time member).advance (e.after time).now index = some (node, effects)) :
    e.node (time + 1) member = node := by
  rw [Execution.node, Execution.after, haction]
  simp only [step]
  rw [← Execution.node, hadvance]
  exact setNode_nodes_self _ _ _

theorem replication?_mono {earlier : Nat} {request : Request} {id : UInt64}
    {run : Run Replication.Tally Replication.State Replication.Input}
    (h : e.operation? earlier member index = some (.replication request id run))
    (hle : earlier ≤ time) :
    ∃ later, e.operation? time member index = some (.replication request id later) := by
  induction hle with
  | refl => exact ⟨run, h⟩
  | step hle ih =>
      obtain ⟨before, hbefore⟩ := ih
      obtain ⟨moved, hmoved, hmove⟩ := operation?_succ_of_some hbefore
      have hrequest := hmove.request?_eq
      have hid := hmove.id_eq
      cases moved with
      | ping => cases hrequest
      | replication asked number after =>
          cases hrequest
          cases hid
          exact ⟨after, hmoved⟩

theorem replication_of_later {earlier : Nat} {operation : Operation} {request : Request} {id : UInt64}
    {run : Run Replication.Tally Replication.State Replication.Input}
    (h : e.operation? earlier member index = some operation) (hle : earlier ≤ time)
    (hlater : e.operation? time member index = some (.replication request id run)) :
    ∃ before, operation = .replication request id before := by
  cases operation with
  | replication asked number before =>
      obtain ⟨after, hafter⟩ := replication?_mono h hle
      rw [hlater] at hafter
      cases hafter
      exact ⟨before, rfl⟩
  | ping target number before =>
      obtain ⟨after, hafter, hrequest⟩ := operation?_mono h hle
      rw [hlater] at hafter
      cases hafter
      cases hrequest

theorem operation?_advance {node : Node S} {effects : List Effect}
    (haction : e.schedule time = .advance member index)
    (hadvance : (e.node time member).advance (e.after time).now index = some (node, effects)) :
    ∃ operation moved, e.operation? time member index = some operation ∧
      operation.advance (e.host member) (e.roster time member) (e.after time).now =
        some (moved, effects) ∧
      e.operation? (time + 1) member index = some moved := by
  have hnode := node_advance haction hadvance
  obtain ⟨operation, moved, hoperation, hmoved, rfl⟩ := Node.advance_eq_some hadvance
  obtain ⟨routes, hroutes⟩ :=
    ((e.node time member).modify index fun _ => moved).foldl_apply index effects
  rw [e.host_node] at hmoved
  refine ⟨operation, moved, hoperation, hmoved, ?_⟩
  rw [operation?, hnode, hroutes]
  change ((e.node time member).modify index fun _ => moved).operations[index]? = some moved
  rw [Node.getElem?_modify, if_pos rfl, hoperation]
  rfl

theorem Change.counts {node : Node S} (h : Change e time member node) :
    node.operations.size = (e.node time member).operations.size ∧
        node.nextId = (e.node time member).nextId ∨
      node.operations.size = (e.node time member).operations.size + 1 ∧
        node.nextId = (e.node time member).nextId + 1 := by
  cases h with
  | startReplication request => exact .inr ⟨Array.size_push _, rfl⟩
  | startPing target => exact .inr ⟨Array.size_push _, rfl⟩
  | advance index _ effects haction hadvance =>
      obtain ⟨operations, routes, rfl, hsize⟩ := Node.advance_frame hadvance
      exact .inl ⟨hsize, rfl⟩
  | giveBack parcel => exact .inl ⟨Array.size_modify, rfl⟩
  | receive datagram haction hsent =>
      obtain ⟨operations, storage, hnode, hsize⟩ := (e.node time member).receive_frame datagram
      rw [hnode]
      exact .inl ⟨hsize, rfl⟩
  | _ => exact .inl ⟨rfl, rfl⟩

private theorem nextId_node (hlawful : e.Lawful) (time : Nat) (member : Member) :
    (e.node time member).nextId =
      e.requestId member (e.node time member).operations.size := by
  induction time with
  | zero =>
      have hnone : (e.node 0 member).operations = #[] := hlawful.fresh.noOperations member
      rw [hnone]
      exact (UInt64.add_zero _).symm
  | succ time ih =>
      rcases (e.node_succ time member).counts with ⟨hsize, hnext⟩ | ⟨hsize, hnext⟩
      · rw [hsize, hnext, ih]
      · rw [hsize, hnext, ih, requestId, requestId, UInt64.ofNat_add, UInt64.add_assoc]
        rfl

theorem operation?_zero (hlawful : e.Lawful) (member : Member) (index : Nat) :
    e.operation? 0 member index = none := by
  have hnone : (e.node 0 member).operations = #[] := hlawful.fresh.noOperations member
  rw [operation?, hnone]
  rfl

theorem operation_id (hlawful : e.Lawful) {operation : Operation}
    (h : e.operation? time member index = some operation) :
    operation.id = e.requestId member index := by
  induction time generalizing operation with
  | zero =>
      rw [operation?_zero hlawful] at h
      cases h
  | succ time ih =>
      rcases operation?_of_succ h with ⟨before, hbefore, hmove⟩ | ⟨rfl, hstarts⟩
      · rw [hmove.id_eq, ih hbefore]
      · rw [← nextId_node hlawful]
        rcases hstarts with ⟨request, rfl⟩ | ⟨target, rfl⟩ <;> rfl

theorem index_lt {operation : Operation} (hlawful : e.Lawful)
    (h : e.operation? time member index = some operation) : index < 2 ^ 64 := by
  obtain ⟨hindex, -⟩ := Array.getElem?_eq_some_iff.mp h
  exact Nat.lt_trans hindex (hlawful.requests time member)

omit [DecidableEq Member] [Storage S] in
theorem requestId_injective {other : Nat} (hindex : index < 2 ^ 64) (hother : other < 2 ^ 64)
    (h : e.requestId member index = e.requestId member other) : index = other :=
  Node.number_injective hindex hother h

inductive Came (e : Execution Member S) (time : Nat) (member : Member) (index : Nat)
    (request : Request) (id : UInt64) :
    Run Replication.Tally Replication.State Replication.Input → Prop
  | start (now : Nat) :
      Came e time member index request id
        ((Run.start (Replication.automaton (e.host member) request id) now {} .start 1).push
          (.input .start))
  | stay (run : Run Replication.Tally Replication.State Replication.Input)
      (hbefore : e.operation? time member index = some (.replication request id run)) :
      Came e time member index request id run
  | fail (run : Run Replication.Tally Replication.State Replication.Input)
      (parcel : Parcel Member)
      (hbefore : e.operation? time member index = some (.replication request id run))
      (hsender : parcel.sender = member) (hindex : parcel.operation = index)
      (hrefuses : e.Refuses time parcel) :
      Came e time member index request id (run.push (.input (.sendFailed parcel.peer.name)))
  | reply (run : Run Replication.Tally Replication.State Replication.Input) (datagram : Bytes)
      (answer : Message)
      (hbefore : e.operation? time member index = some (.replication request id run))
      (hdelivers : e.Delivers time member index datagram answer) :
      Came e time member index request id (run.push (.input (.reply answer)))
  | move (run after : Run Replication.Tally Replication.State Replication.Input)
      (effects : List Effect)
      (hbefore : e.operation? time member index = some (.replication request id run))
      (hover : run.isOver = false)
      (hmoves : run.Moves (Replication.automaton (e.host member) request id)
        (e.roster time member) (e.after time).now after effects)
      (hadvance : run.advance (Replication.automaton (e.host member) request id)
        (e.roster time member) (e.after time).now = some (after, effects)) :
      Came e time member index request id after

theorem came_of_succ {request : Request} {id : UInt64}
    {run : Run Replication.Tally Replication.State Replication.Input}
    (h : e.operation? (time + 1) member index = some (.replication request id run)) :
    e.Came time member index request id run := by
  rcases operation?_of_succ h with ⟨operation, hoperation, hmove⟩ | ⟨-, hstarts⟩
  · cases operation with
    | ping target number run => cases hmove.request?_eq
    | replication asked number before =>
        generalize hmoved : Operation.replication request id run = moved at hmove
        cases hmove with
        | nothing =>
            cases hmoved
            exact .stay _ hoperation
        | advance _ effects haction hadvance =>
            obtain ⟨after, rfl, hover, hmoves, hrun⟩ := Operation.advance_replication hadvance
            cases hmoved
            exact .move before _ effects hoperation hover hmoves hrun
        | fail parcel hsender hindex hrefuses =>
            cases hmoved
            exact .fail before parcel hoperation hsender hindex hrefuses
        | reply datagram answer hdelivers =>
            cases hmoved
            exact .reply before datagram answer hoperation hdelivers
  · rcases hstarts with ⟨started, hstart⟩ | ⟨target, hstart⟩
    · cases hstart
      exact .start _
    · cases hstart

end ReplicaRing.Fleet.Execution
