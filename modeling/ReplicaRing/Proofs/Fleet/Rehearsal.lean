import ReplicaRing.Proofs.Fleet.Finite

/-! Executions in which it is known who holds what, so that no ring has to be looked at. -/

namespace ReplicaRing

open Replication (Tally State)

namespace Replication

def planAmong (host : Host) (request : Request) (id : UInt64)
    (replicas : Except RingError (List Peer)) : Except ProtocolError (List Peer × Message) := do
  let targets ← replicas.mapError .ring
  let payload ← request.payload.mapError .envelope
  let message :=
    ((host.request request.topic request.verb).withRequestId id).withPayload payload
  let _ ← message.encode.mapError .wire
  return (targets, message)

private theorem plan_eq_planAmong (host : Host) (request : Request) (id : UInt64)
    (roster : Roster) :
    plan host request id roster =
      planAmong host request id (roster.replicas (.hash request.key) request.level) := rfl

/-- A replication that is told the replicas of its request. -/
def rehearsed (host : Host) (request : Request) (id : UInt64)
    (replicas : Except RingError (List Peer)) : Automaton Roster Tally State Input Effect :=
  { automaton host request id with
    react := fun roster tally state input =>
      match state, input with
      | .sending, .send =>
          match planAmong host request id replicas with
          | .ok (targets, message) => fanOut tally id targets message
          | .error _ => { memory := tally, state := .error }
      | _, _ => react host request id roster tally state input }

private theorem advance_rehearsed (host : Host) (request : Request) (id : UInt64) (roster : Roster)
    (now : Nat)
    (run : Run Tally State Input) :
    run.advance (rehearsed host request id
        (roster.replicas (.hash request.key) request.level)) roster now =
      run.advance (automaton host request id) roster now := by
  have hreact : (rehearsed host request id
      (roster.replicas (.hash request.key) request.level)).react roster =
        (automaton host request id).react roster := by
    funext tally state input
    simp only [rehearsed]
    split
    case h_1 =>
      rw [← plan_eq_planAmong]
      rfl
    case h_2 => rfl
  unfold Run.advance Run.feed
  rw [hreact]
  rfl

end Replication

namespace Fleet

variable {Member S : Type} [DecidableEq Member] [Storage S]

/-- What an action does when the replicas of all keys are known. -/
def rehearse (replicas : Bytes → Level → Except RingError (List Peer)) (fleet : Fleet Member S)
    (action : Action Member S) : Fleet Member S :=
  match action with
  | .advance member index =>
      let node := fleet.nodes member
      match node.operations[index]? with
      | some (.replication request id run) =>
          match run.advance (Replication.rehearsed node.host request id
              (replicas request.key request.level)) node.membership.roster fleet.now with
          | none => fleet
          | some (after, effects) =>
              let moved := node.modify index fun _ => .replication request id after
              { fleet.setNode member
                  (effects.foldl (fun node effect => node.apply index effect) moved) with
                outbox := fleet.outbox ++ effects.filterMap (Parcel.of? member index) }
      | _ => fleet.step action
  | _ => fleet.step action

private theorem rehearse_eq_step {replicas : Bytes → Level → Except RingError (List Peer)}
    {fleet : Fleet Member S} (h : ∀ member key level,
      (fleet.nodes member).membership.roster.replicas (.hash key) level = replicas key level)
    (action : Action Member S) : fleet.rehearse replicas action = fleet.step action := by
  cases action with
  | advance member index =>
      simp only [rehearse]
      split
      case h_1 request id run hoperation =>
        rw [← h member, Replication.advance_rehearsed, step,
          Node.advance_of_operation hoperation, Operation.advance]
        cases run.advance (Replication.automaton (fleet.nodes member).host request id)
            (fleet.nodes member).membership.roster fleet.now with
        | none => rfl
        | some moved => rfl
      case h_2 => rfl
  | _ => rfl

namespace Execution

theorem after_ofList_eq_rehearse {replicas : Bytes → Level → Except RingError (List Peer)}
    {start : Fleet Member S} {actions : List (Action Member S)} {time : Nat}
    (hviews : ∀ action ∈ actions, action.isView = false)
    (h : ∀ member key level,
      (start.nodes member).membership.roster.replicas (.hash key) level = replicas key level)
    (hle : time ≤ actions.length) :
    (ofList start actions).after time = (actions.take time).foldl (rehearse replicas) start := by
  induction time with
  | zero => rfl
  | succ time ih =>
      have hroster : ∀ member key level,
          (((ofList start actions).after time).nodes member).membership.roster.replicas (.hash key)
            level = replicas key level := by
        intro member key level
        rw [← h member]
        exact congrArg (fun roster : Roster => roster.replicas (.hash key) level)
          (roster_ofList hviews time member)
      rw [after, schedule_ofList_of_lt start hle, List.take_succ_eq_append_getElem hle, List.foldl_append,
        ← ih (Nat.le_of_succ_le hle)]
      exact (rehearse_eq_step hroster _).symm

end Execution

namespace Twins

/-! Two nodes that know both, each with a token.  Only the second has a value. -/

def host (member : Bool) : Host := ⟨bif member then "d" else "a", {}⟩

def address (member : Bool) : Address := .localhost (bif member then 2 else 1)

def roster : Roster := ⟨[⟨"a", address false, 1⟩, ⟨"d", address true, 1⟩], by decide⟩

def fleet : Fleet Bool MemoryStore where
  nodes member := {
    host := host member
    address := address member
    membership := { roster }
    storage := bif member then Table.empty.insert [1] [2] else Table.empty }

theorem lawful (actions : List (Action Bool MemoryStore))
    (hviews : ∀ action ∈ actions, action.isView = false) (hlength : actions.length < 2 ^ 64) :
    (Execution.ofList fleet actions).Lawful :=
  Execution.lawful_ofList_pair ⟨fun _ => rfl, fun _ => rfl, rfl, rfl, rfl⟩ (by decide) (by decide)
    (by decide) hviews hlength

theorem replicas_eq : roster.replicas (.hash [1]) .one = .ok roster.peers := by
  have hsorted : roster.tokens.Pairwise fun a b => a.position < b.position := by decide +kernel
  have hring : Ring.ofRoster roster = .ok ⟨roster.tokens.toArray, hsorted⟩ :=
    Ring.ofTokens_of_sorted hsorted
  have hchosen : ∀ hsorted, (⟨roster.tokens.toArray, hsorted⟩ : Ring).select (.hash [1]) 2 =
      .ok roster.peers := by
    decide +kernel
  rw [Roster.replicas, hring]
  exact hchosen hsorted

def replicas (key : Bytes) (level : Level) : Except RingError (List Peer) :=
  if key = [1] ∧ level = .one then .ok roster.peers else roster.replicas (.hash key) level

theorem replicas_roster (key : Bytes) (level : Level) :
    roster.replicas (.hash key) level = replicas key level := by
  unfold replicas
  split
  case isTrue h =>
    obtain ⟨rfl, rfl⟩ := h
    exact replicas_eq
  case isFalse => rfl

end Twins

end Fleet

end ReplicaRing
