import Mathlib.Data.Bool.Basic
import ReplicaRing.Proofs.Fleet.Operations

/-! Executions of finitely many actions, after which nothing happens. -/

namespace ReplicaRing.Fleet

open Simulation (Answer Call)

variable {Member S : Type} [DecidableEq Member] [Storage S]

deriving instance DecidableEq for Call, Answer

def Caller.told? (client : Caller Member) : Option (Member × Call × Answer × Nat) :=
  match client.session with
  | .ended answer ended => some (client.member, client.call, answer, ended)
  | _ => none

omit [DecidableEq Member] in
theorem Caller.told?_eq_some {client : Caller Member} {member : Member} {call : Call}
    {answer : Answer} {ended : Nat} (h : client.told? = some (member, call, answer, ended)) :
    client.member = member ∧ client.call = call ∧ client.session = .ended answer ended := by
  unfold told? at h
  split at h
  case h_1 hsession =>
    cases h
    exact ⟨rfl, rfl, hsession⟩
  case h_2 => cases h

def Action.isView : Action Member S → Bool
  | .view .. => true
  | _ => false

/-- Writes nothing outside the protocol, and brings no put of the key with another value. -/
def Action.isHarmless (key value : Bytes) : Action Member S → Bool
  | .rewrite .. => false
  | .deliver _ datagram =>
      match Message.decode datagram with
      | .error _ => true
      | .ok message =>
          match Entry.decode message.payload with
          | .error _ => true
          | .ok entry => message.role ≠ .put || entry.key ≠ key || entry.value = value
  | _ => true

namespace Execution

section Any

variable {e : Execution Member S} {time : Nat}

private theorem Change.roster {member : Member} {node : Node S} (h : Change e time member node)
    (haction : (e.schedule time).isView = false) :
    node.membership.roster = e.roster time member := by
  cases h with
  | advance index _ effects _ hadvance =>
      obtain ⟨operations, routes, rfl, -⟩ := Node.advance_frame hadvance
      rfl
  | receive datagram _ _ =>
      obtain ⟨operations, storage, hnode, -⟩ := (e.node time member).receive_frame datagram
      rw [hnode]
      rfl
  | view roster hview =>
      rw [hview] at haction
      cases haction
  | _ => rfl

private theorem size_operations_le (hnone : ∀ member, (e.start.nodes member).operations = #[])
    (time : Nat) (member : Member) : (e.node time member).operations.size ≤ time := by
  induction time with
  | zero =>
      have hzero : (e.node 0 member).operations = #[] := hnone member
      rw [hzero]
      exact Nat.le_refl 0
  | succ time ih =>
      rcases (e.node_succ time member).counts with ⟨hsize, -⟩ | ⟨hsize, -⟩ <;> omega

end Any

def ofList (start : Fleet Member S) (actions : List (Action Member S)) : Execution Member S :=
  ⟨start, fun time => actions.getD time (.elapse 0)⟩

variable {start : Fleet Member S} {actions : List (Action Member S)} {time : Nat}

omit [DecidableEq Member] [Storage S] in
theorem schedule_ofList_of_ge (start : Fleet Member S) (h : actions.length ≤ time) :
    (ofList start actions).schedule time = .elapse 0 := by
  change actions.getD time _ = _
  rw [List.getD_eq_getElem?_getD, List.getElem?_eq_none h]
  rfl

theorem after_ofList (h : actions.length ≤ time) :
    (ofList start actions).after time = (ofList start actions).after actions.length := by
  induction h with
  | refl => rfl
  | @step time hle ih =>
      rw [after, schedule_ofList_of_ge start hle, ← ih]
      rfl

omit [DecidableEq Member] [Storage S] in
theorem schedule_ofList (start : Fleet Member S) (actions : List (Action Member S)) (time : Nat) :
    (ofList start actions).schedule time ∈ actions ∨
      (ofList start actions).schedule time = .elapse 0 := by
  change actions.getD time _ ∈ actions ∨ actions.getD time _ = _
  rw [List.getD_eq_getElem?_getD]
  cases haction : actions[time]? with
  | none => exact .inr rfl
  | some action => exact .inl (List.mem_of_getElem? haction)

omit [DecidableEq Member] [Storage S] in
theorem schedule_ofList_of_lt (start : Fleet Member S) (h : time < actions.length) :
    (ofList start actions).schedule time = actions[time] := by
  change actions.getD time _ = _
  rw [List.getD_eq_getElem?_getD, List.getElem?_eq_getElem h]
  rfl

omit [DecidableEq Member] [Storage S] in
private theorem isView_ofList (h : ∀ action ∈ actions, action.isView = false) (time : Nat) :
    ((ofList start actions).schedule time).isView = false := by
  rcases schedule_ofList start actions time with hmem | helapse
  · exact h _ hmem
  · rw [helapse]
    rfl

theorem roster_ofList (h : ∀ action ∈ actions, action.isView = false) (time : Nat)
    (member : Member) :
    (ofList start actions).roster time member = (start.nodes member).membership.roster := by
  induction time with
  | zero => rfl
  | succ time ih =>
      rw [← ih]
      exact ((ofList start actions).node_succ time member).roster (isView_ofList h time)

/-- Without new views, it is enough that a fleet is set up as it should be. -/
theorem lawful_ofList (hfresh : start.IsFresh)
    (hnames : Function.Injective fun member => (start.nodes member).host.name)
    (haddresses : Function.Injective fun member => (start.nodes member).address)
    (hrosters : ∀ member other peer,
      (start.nodes member).membership.roster.find? (start.nodes other).host.name = some peer →
        peer.address = (start.nodes other).address)
    (hviews : ∀ action ∈ actions, action.isView = false) (hlength : actions.length < 2 ^ 64) :
    (ofList start actions).Lawful where
  fresh := hfresh
  names := hnames
  addresses := haddresses
  rosters time member other peer hpeer := by
    rw [roster_ofList hviews] at hpeer
    exact hrosters member other peer hpeer
  requests time member := by
    rcases Nat.le_total time actions.length with hle | hle
    · have hsize := (ofList start actions).size_operations_le hfresh.noOperations time member
      exact Nat.lt_of_le_of_lt (Nat.le_trans hsize hle) hlength
    · rw [node, after_ofList hle]
      exact Nat.lt_of_le_of_lt
        ((ofList start actions).size_operations_le hfresh.noOperations _ member) hlength

theorem lawful_ofList_pair {start : Fleet Bool S} {actions : List (Action Bool S)}
    (hfresh : start.IsFresh)
    (hnames : (start.nodes false).host.name ≠ (start.nodes true).host.name)
    (haddresses : (start.nodes false).address ≠ (start.nodes true).address)
    (hrosters : ∀ member other, ((start.nodes member).membership.roster.find?
      (start.nodes other).host.name).all (·.address = (start.nodes other).address) = true)
    (hviews : ∀ action ∈ actions, action.isView = false) (hlength : actions.length < 2 ^ 64) :
    (ofList start actions).Lawful := by
  refine lawful_ofList hfresh (Bool.injective_iff.mpr hnames) (Bool.injective_iff.mpr haddresses) ?_
    hviews hlength
  intro member other peer hpeer
  have hfound := hrosters member other
  rw [hpeer] at hfound
  exact of_decide_eq_true hfound

end Execution

section Run

variable {fleet middle after : Fleet Member S}

def run (fleet : Fleet Member S) (actions : List (Action Member S)) : Fleet Member S :=
  actions.foldl step fleet

def Reaches (fleet after : Fleet Member S) : Prop := ∃ actions, fleet.run actions = after

namespace Reaches

theorem refl : fleet.Reaches fleet := ⟨[], rfl⟩

theorem one {action : Action Member S} (h : fleet.step action = after) : fleet.Reaches after :=
  ⟨[action], h⟩

theorem trans (h : fleet.Reaches middle) (hrest : middle.Reaches after) :
    fleet.Reaches after := by
  obtain ⟨actions, rfl⟩ := h
  obtain ⟨rest, rfl⟩ := hrest
  exact ⟨actions ++ rest, List.foldl_append⟩

end Reaches

private theorem after_ofList_eq_run {actions : List (Action Member S)} {time : Nat}
    (h : time ≤ actions.length) :
    (Execution.ofList fleet actions).after time = fleet.run (actions.take time) := by
  induction time with
  | zero => rfl
  | succ time ih =>
      rw [Execution.after, Execution.schedule_ofList_of_lt fleet h, ih (Nat.le_of_succ_le h), run, run,
        List.take_succ_eq_append_getElem h, List.foldl_append]
      rfl

theorem Reaches.exists_after (h : fleet.Reaches after) :
    ∃ (e : Execution Member S) (time : Nat), e.start = fleet ∧ e.after time = after := by
  obtain ⟨actions, rfl⟩ := h
  refine ⟨.ofList fleet actions, actions.length, rfl, ?_⟩
  rw [after_ofList_eq_run (Nat.le_refl _), List.take_length]

end Run

namespace Pair

/-! Two nodes that know of each other alone.  One has a value. -/

def host (member : Bool) : Host := ⟨bif member then "b" else "a", {}⟩

def address (member : Bool) : Address := .localhost (bif member then 2 else 1)

def fleet : Fleet Bool MemoryStore where
  nodes member := {
    host := host member
    address := address member
    membership := { roster := ⟨[⟨(host !member).name, address !member, 1⟩], by simp⟩ }
    storage := Table.empty.insert [5] [6] }

theorem lawful (actions : List (Action Bool MemoryStore))
    (hviews : ∀ action ∈ actions, action.isView = false) (hlength : actions.length < 2 ^ 64) :
    (Execution.ofList fleet actions).Lawful :=
  Execution.lawful_ofList_pair ⟨fun _ => rfl, fun _ => rfl, rfl, rfl, rfl⟩ (by decide) (by decide)
    (by decide) hviews hlength

/-! The same nodes when both know both.  Only the second has a token. -/

def roster : Roster := ⟨[⟨"a", address false, 0⟩, ⟨"b", address true, 1⟩], by decide⟩

def shared (storage : Bool → MemoryStore) : Fleet Bool MemoryStore where
  nodes member := {
    host := host member
    address := address member
    membership := { roster }
    storage := storage member }

theorem shared_lawful (storage : Bool → MemoryStore) (actions : List (Action Bool MemoryStore))
    (hviews : ∀ action ∈ actions, action.isView = false) (hlength : actions.length < 2 ^ 64) :
    (Execution.ofList (shared storage) actions).Lawful := by
  have hknown : ∀ other, (roster.find? (host other).name).all (·.address = address other) = true := by
    decide
  exact Execution.lawful_ofList_pair ⟨fun _ => rfl, fun _ => rfl, rfl, rfl, rfl⟩ (by decide : "a" ≠ "b")
    (by decide : address false ≠ address true) (fun _ => hknown) hviews hlength

/-- A call of the first node that makes one request, and the way to its end. -/
def exchange (call : Call) (request reply : Message) : List (Action Bool MemoryStore) :=
  let written (message : Message) : Bytes := message.encode.toOption.getD []
  [.call false call, .resume 0, .advance false 0, .advance false 0, .transmit 0,
    .deliver true (written request), .deliver false (written reply),
    .advance false 0, .advance false 0, .advance false 0, .resume 0]

end Pair

end ReplicaRing.Fleet
