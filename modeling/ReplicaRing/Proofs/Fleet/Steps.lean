import ReplicaRing.Proofs.Fleet.Execution

/-! What one action can do to a node. -/

namespace ReplicaRing.Fleet

open Simulation (Answer Session)

variable {Member S : Type} [DecidableEq Member]

section Fleet

variable (fleet : Fleet Member S) (member other : Member)

@[simp] theorem setNode_nodes_self (node : Node S) :
    (fleet.setNode member node).nodes member = node :=
  Function.update_self ..

theorem setNode_nodes_of_ne (node : Node S) (h : other ≠ member) :
    (fleet.setNode member node).nodes other = fleet.nodes other :=
  Function.update_of_ne h ..

private theorem proceed_nodes (program : Exchanges Answer) :
    (fleet.proceed member program).2 = fleet ∨
      (∃ request, (fleet.proceed member program).2 = fleet.setNode member
        ((fleet.nodes member).startReplication fleet.now request).2) ∨
      ∃ name, (fleet.proceed member program).2 = fleet.setNode member
        ((fleet.nodes member).startPing fleet.now name).2 := by
  cases program with
  | done result => exact .inl rfl
  | ask exchange next =>
      cases exchange with
      | replicate request => exact .inr (.inl ⟨request, rfl⟩)
      | ping name => exact .inr (.inr ⟨name, rfl⟩)
      | pause time => exact .inl rfl

inductive Resumes (session : Session Answer) : Session Answer × Fleet Member S → Prop
  | wait : Resumes session (session, fleet)
  | replicated (index : Nat) (next : Replication.State → Exchanges Answer) (request : Request)
      (id : UInt64) (run : Run Replication.Tally Replication.State Replication.Input)
      (hsession : session = .replicating index next)
      (hoperation : (fleet.nodes member).operations[index]? = some (.replication request id run))
      (hover : run.isOver = true) :
      Resumes session (fleet.proceed member (next run.state))
  | pinged (index : Nat) (next : Ping.State → Exchanges Answer) (state : Ping.State)
      (hsession : session = .pinging index next) :
      Resumes session (fleet.proceed member (next state))
  | rested (till : Nat) (next : Exchanges Answer) (hsession : session = .pausing till next) :
      Resumes session (fleet.proceed member next)

theorem resume_cases (session : Session Answer) :
    Resumes fleet member session (fleet.resume member session) := by
  cases session with
  | replicating index next =>
      rw [resume]
      split
      case h_1 request id run hoperation =>
        split
        case isTrue hover => exact .replicated index next request id run rfl hoperation hover
        case isFalse => exact .wait
      case h_2 => exact .wait
  | pinging index next =>
      rw [resume]
      split
      case h_1 target id run hoperation =>
        split
        · exact .pinged index next run.state rfl
        · exact .wait
      case h_2 => exact .wait
  | pausing till next =>
      rw [resume]
      split
      · exact .rested till next rfl
      · exact .wait
  | ended result time => exact .wait

private theorem resume_nodes (session : Session Answer) :
    (fleet.resume member session).2 = fleet ∨
      (∃ request, (fleet.resume member session).2 = fleet.setNode member
        ((fleet.nodes member).startReplication fleet.now request).2) ∨
      ∃ name, (fleet.resume member session).2 = fleet.setNode member
        ((fleet.nodes member).startPing fleet.now name).2 := by
  have hresumes := fleet.resume_cases member session
  generalize fleet.resume member session = resumed at hresumes
  cases hresumes with
  | wait => exact .inl rfl
  | _ => exact fleet.proceed_nodes member _

theorem resume_frame (session : Session Answer) :
    ∃ nodes, (fleet.resume member session).2 = { fleet with nodes } := by
  rcases fleet.resume_nodes member session with h | ⟨request, h⟩ | ⟨name, h⟩
  · exact ⟨fleet.nodes, h⟩
  · exact ⟨_, h⟩
  · exact ⟨_, h⟩

end Fleet

namespace Execution

variable [Storage S] {e : Execution Member S} {time : Nat} {member : Member}

def Refuses (e : Execution Member S) (time : Nat) (parcel : Parcel Member) : Prop :=
  ∃ place, (e.after time).outbox[place]? = some parcel ∧
    (e.schedule time = .refuse place ∨ e.schedule time = .transmit place ∧
      ∃ error, parcel.message.encode = .error error)

inductive Change (e : Execution Member S) (time : Nat) (member : Member) : Node S → Prop
  | nothing : Change e time member (e.node time member)
  | startReplication (request : Request) :
      Change e time member
        ((e.node time member).startReplication (e.after time).now request).2
  | startPing (name : String) :
      Change e time member ((e.node time member).startPing (e.after time).now name).2
  | advance (index : Nat) (node : Node S) (effects : List Effect)
      (haction : e.schedule time = .advance member index)
      (hadvance : (e.node time member).advance (e.after time).now index = some (node, effects)) :
      Change e time member node
  | giveBack (parcel : Parcel Member) (hsender : parcel.sender = member)
      (hrefuses : e.Refuses time parcel) :
      Change e time member
        ((e.node time member).modify parcel.operation (Operation.sendFailed parcel.peer.name))
  | receive (datagram : Bytes) (haction : e.schedule time = .deliver member datagram)
      (hsent : ((e.node time member).address, datagram) ∈ (e.after time).sent) :
      Change e time member ((e.node time member).receive datagram).1
  | view (roster : Roster) (haction : e.schedule time = .view member roster) :
      Change e time member
        { e.node time member with
          membership := (e.node time member).membership.replace roster }
  | rewrite (storage : S) (haction : e.schedule time = .rewrite member storage) :
      Change e time member { e.node time member with storage }

private theorem Change.of_setNode {changed : Member} {node : Node S}
    (h : changed = member → Change e time member node) :
    Change e time member (((e.after time).setNode changed node).nodes member) := by
  by_cases hmember : member = changed
  · subst hmember
    rw [setNode_nodes_self]
    exact h rfl
  · rw [setNode_nodes_of_ne _ _ _ _ hmember]
    exact .nothing

private theorem Change.of_giveBack {parcel : Parcel Member} (hrefuses : e.Refuses time parcel) :
    Change e time member (((e.after time).giveBack parcel).nodes member) := by
  apply Change.of_setNode
  rintro rfl
  exact .giveBack parcel rfl hrefuses

theorem node_succ (e : Execution Member S) (time : Nat) (member : Member) :
    Change e time member (e.node (time + 1) member) := by
  change Change e time member (((e.after time).step (e.schedule time)).nodes member)
  cases haction : e.schedule time with
  | call caller call => exact .nothing
  | resume caller =>
      rw [step]
      split
      · exact .nothing
      case _ waiting _ =>
        change Change e time member
          (((e.after time).resume waiting.member waiting.session).2.nodes member)
        rcases (e.after time).resume_nodes waiting.member waiting.session with
          h | ⟨request, h⟩ | ⟨name, h⟩
        · rw [h]
          exact .nothing
        · rw [h]
          apply Change.of_setNode
          rintro rfl
          exact .startReplication request
        · rw [h]
          apply Change.of_setNode
          rintro rfl
          exact .startPing name
  | advance advanced index =>
      rw [step]
      split
      · exact .nothing
      case _ node effects hadvance =>
        apply Change.of_setNode
        rintro rfl
        exact .advance index node effects haction hadvance
  | transmit parcel =>
      rw [step]
      split
      · exact .nothing
      case _ taken htaken =>
        rw [transmit]
        split
        · exact .nothing
        case _ error herror => exact .of_giveBack ⟨parcel, htaken, .inr ⟨haction, error, herror⟩⟩
  | refuse parcel =>
      rw [step]
      split
      · exact .nothing
      case _ taken htaken => exact .of_giveBack ⟨parcel, htaken, .inl haction⟩
  | deliver receiver datagram =>
      rw [step]
      split
      case isTrue hsent =>
        apply Change.of_setNode
        rintro rfl
        exact .receive datagram haction hsent
      case isFalse => exact .nothing
  | view viewer roster =>
      apply Change.of_setNode
      rintro rfl
      exact .view roster haction
  | rewrite writer storage =>
      apply Change.of_setNode
      rintro rfl
      exact .rewrite storage haction
  | elapse passed => exact .nothing

end Execution

end ReplicaRing.Fleet
