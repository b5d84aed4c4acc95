import ReplicaRing.Proofs.Node.Histories

/-! What becomes of an operation follows from what it sees of the history of its node. -/

namespace ReplicaRing

/-- What an operation notices of the things that happen to its node. -/
inductive Sight
  | move (now : Nat)
  | reply (message : Message)
  | sendFailed (peer : String)
  | view (roster : Roster)

namespace Operation

def see (host : Host) : Roster × Operation → Sight → Roster × Operation
  | (roster, operation), .move now =>
      (roster, ((operation.advance host roster now).map Prod.fst).getD operation)
  | (roster, operation), .reply message =>
      (roster, if operation.isRouted then operation.reply message else operation)
  | (roster, operation), .sendFailed peer => (roster, operation.sendFailed peer)
  | (_, operation), .view roster => (roster, operation)

variable {host : Host} {roster : Roster} {operation moved : Operation} {effects : List Effect}
  {effect : Effect}

private theorem id_see (host : Host) (seen : Roster × Operation) (sight : Sight) :
    (see host seen sight).2.id = seen.2.id := by
  obtain ⟨roster, operation⟩ := seen
  cases sight with
  | move now =>
      rw [see]
      cases hadvance : operation.advance host roster now with
      | none => rfl
      | some moved => exact id_advance hadvance
  | reply message =>
      rw [see]
      split
      · exact id_reply message operation
      · rfl
  | sendFailed peer => exact id_sendFailed peer operation
  | view => rfl

theorem isRouted_see (host : Host) (seen : Roster × Operation) {sight : Sight}
    (h : ∀ now, sight ≠ .move now) : (see host seen sight).2.isRouted = seen.2.isRouted := by
  obtain ⟨roster, operation⟩ := seen
  cases sight with
  | move now => exact absurd rfl (h now)
  | reply message =>
      rw [see]
      split
      · exact isRouted_reply message operation
      · rfl
  | sendFailed peer => exact isRouted_sendFailed peer operation
  | view => rfl

theorem Stride.isRouted_iff (h : operation.Stride moved effects) :
    moved.isRouted = true ↔ operation.isRouted = true ∨ ∃ id, .route id ∈ effects := by
  cases h with
  | quiet hrouted => simp [hrouted]
  | sendOut sends _ _ hrouted =>
      rw [hrouted]
      exact ⟨fun _ => .inr ⟨_, List.mem_cons_self⟩, fun _ => rfl⟩
  | finish hrouted => cases hbefore : operation.isRouted <;> simp [hrouted, hbefore]

theorem Stride.isRouted_of_mem (h : operation.Stride moved effects) (heffect : effect ∈ effects)
    (hne : effect ≠ .abandon) : moved.isRouted = true := by
  cases h with
  | quiet => cases heffect
  | sendOut _ _ _ hrouted => exact hrouted
  | finish hrouted =>
      rcases List.mem_cons.mp heffect with rfl | hunroute
      · exact absurd rfl hne
      · split at hunroute
        case isTrue hbefore => exact hrouted.trans hbefore
        case isFalse => cases hunroute

structure IsStranded (operation : Operation) : Prop where
  looked : ¬operation.IsUnsent
  unrouted : operation.isRouted = false

private theorem IsStranded.see (h : operation.IsStranded) (host : Host) (roster : Roster)
    (sight : Sight) :
    (Operation.see host (roster, operation) sight).2.IsStranded := by
  cases sight with
  | move now =>
      rw [Operation.see]
      cases hadvance : operation.advance host roster now with
      | none => exact h
      | some turn =>
          obtain ⟨moved, effects⟩ := turn
          have hstride := stride_of_advance hadvance
          cases hstride with
          | quiet hrouted hunsent | finish hrouted hunsent =>
              exact ⟨fun hstill => h.looked (hunsent hstill), hrouted.trans h.unrouted⟩
          | sendOut _ hunsent => exact absurd hunsent h.looked
  | reply message =>
      rw [Operation.see, h.unrouted]
      exact h
  | sendFailed peer =>
      exact ⟨fun hstill => h.looked ((isUnsent_sendFailed peer operation).mp hstill),
        (isRouted_sendFailed peer operation).trans h.unrouted⟩
  | view => exact h

theorem IsStranded.foldl_see (host : Host) (sights : List Sight) {seen : Roster × Operation}
    (h : seen.2.IsStranded) : (sights.foldl (Operation.see host) seen).2.IsStranded := by
  induction sights generalizing seen with
  | nil => exact h
  | cons sight rest ih => exact ih (h.see host seen.1 sight)

end Operation

namespace Node

variable {S : Type} {node : Node S} {index : Nat} {operation : Operation} {first : UInt64}

/-- What of an event the operation with the index and the request number notices. -/
def Event.sight? (version : UInt8) (id : UInt64) (index : Nat) : Event S → Option Sight
  | .advance now moving => if moving = index then some (.move now) else none
  | .refuse refused peer => if refused = index then some (.sendFailed peer) else none
  | .deliver message => if message.requestId = id then some (.reply message) else none
  | .receive datagram =>
      match Message.decode datagram with
      | .ok message =>
          if message.version = version ∧ message.role.isReply = true ∧ message.requestId = id then
            some (.reply message)
          else none
      | .error _ => none
  | .view roster => some (.view roster)
  | .replicate .. | .ping .. | .rewrite .. => none

theorem Event.eq_advance_of_sight? {version : UInt8} {id : UInt64} {event : Event S} {now : Nat}
    (h : event.sight? version id index = some (.move now)) : event = .advance now index := by
  unfold sight? at h
  split at h
  case h_1 =>
    split at h
    case isTrue hsame =>
      cases h
      rw [hsame]
    case isFalse => cases h
  case h_4 =>
    split at h
    · split at h <;> cases h
    · cases h
  case h_2 | h_3 => split at h <;> cases h
  all_goals cases h

private theorem Tidy.getElem?_deliver (h : node.Tidy first) (hsize : node.operations.size < 2 ^ 64)
    (hoperation : node.operations[index]? = some operation) (message : Message) :
    (node.deliver message).2.operations[index]? =
      some (if message.requestId = operation.id ∧ operation.isRouted = true then
        operation.reply message else operation) := by
  have hown := h.find?_id hsize hoperation
  have hlate : message.requestId = operation.id → node.routes.owner? message ≠ some index →
      operation.isRouted = true → operation.reply message = operation := by
    intro hid hnot hrouted
    refine Operation.reply_of_isOver message ((Bool.not_eq_false _).mp fun hover => hnot ?_)
    rw [Routes.owner?, hid, hown, if_pos ⟨hrouted, hover⟩]
  unfold Node.deliver
  cases howner : node.routes.owner? message with
  | none =>
      rw [howner] at hlate
      refine hoperation.trans (congrArg some ?_)
      split
      case isTrue hmine => exact (hlate hmine.1 nofun hmine.2).symm
      case isFalse => rfl
  | some owner =>
      rw [howner] at hlate
      simp only [getElem?_modify, hoperation]
      split
      case isTrue hsame =>
        subst hsame
        obtain ⟨another, hanother, hid, hrouted, -⟩ := (h.routes _ _).mp howner
        rw [hoperation] at hanother
        cases hanother
        rw [if_pos ⟨hid.symm, hrouted⟩]
        rfl
      case isFalse hne =>
        refine congrArg some ?_
        split
        case isTrue hmine => exact (hlate hmine.1 (by simpa using hne) hmine.2).symm
        case isFalse => rfl

theorem getElem?_advance (hoperation : node.operations[index]? = some operation)
    (now moving : Nat) :
    (((node.advance now moving).map Prod.fst).getD node).operations[index]? =
      some (if moving = index then
        ((operation.advance node.host node.membership.roster now).map Prod.fst).getD operation
      else operation) := by
  cases hadvance : node.advance now moving with
  | none =>
      refine hoperation.trans (congrArg some ?_)
      split
      case isTrue hsame =>
        subst hsame
        rw [advance_of_operation hoperation, Option.map_eq_none_iff] at hadvance
        rw [hadvance]
        rfl
      case isFalse => rfl
  | some turn =>
      obtain ⟨after, effects⟩ := turn
      obtain ⟨mover, moved, hmover, hmoved, rfl⟩ := advance_eq_some hadvance
      obtain ⟨routes, hframe⟩ := (node.modify moving fun _ => moved).foldl_apply moving effects
      rw [Option.map_some, Option.getD_some, hframe]
      refine (getElem?_modify _ _ _).trans ?_
      split
      case isTrue hsame =>
        subst hsame
        rw [hoperation] at hmover ⊢
        cases hmover
        rw [hmoved]
        rfl
      case isFalse => exact hoperation

variable [Storage S]

private theorem frame_happen (node : Node S) (event : Event S) :
    (node.happen event).host = node.host ∧
      (node.happen event).membership.roster =
        match event with
        | .view roster => roster
        | _ => node.membership.roster := by
  cases event with
  | advance now index =>
      rw [happen]
      cases hadvance : node.advance now index with
      | none => exact ⟨rfl, rfl⟩
      | some turn =>
          obtain ⟨after, effects⟩ := turn
          obtain ⟨operations, routes, rfl, -⟩ := advance_frame hadvance
          exact ⟨rfl, rfl⟩
  | deliver message =>
      rw [happen, deliver]
      split <;> exact ⟨rfl, rfl⟩
  | receive datagram =>
      obtain ⟨operations, storage, hframe, -⟩ := node.receive_frame datagram
      rw [happen, hframe]
      exact ⟨rfl, rfl⟩
  | _ => exact ⟨rfl, rfl⟩

theorem host_live (node : Node S) (events : List (Event S)) :
    (node.live events).host = node.host := by
  induction events generalizing node with
  | nil => rfl
  | cons event rest ih => exact (ih (node.happen event)).trans (node.frame_happen event).1

private theorem Tidy.receive_see (h : node.Tidy first) (hsize : node.operations.size < 2 ^ 64)
    (hoperation : node.operations[index]? = some operation) (datagram : Bytes) :
    ∃ moved, (node.receive datagram).1.operations[index]? = some moved ∧
      (node.membership.roster, moved) =
        (((Event.receive datagram : Event S).sight? node.host.protocol.version operation.id
            index).elim (node.membership.roster, operation)
          (Operation.see node.host (node.membership.roster, operation))) := by
  have hwritten : Tidy first { node with storage := (node.response datagram).storage } :=
    ⟨h.next, h.ids, h.routes, h.unsent⟩
  have hreply := Server.reply_eq node.host node.membership.roster node.storage datagram
  rw [receive_eq_deliver, Event.sight?]
  rw [← response] at hreply
  cases hdecode : Message.decode datagram with
  | error error =>
      rw [hdecode] at hreply
      rw [hreply]
      exact ⟨operation, hoperation, rfl⟩
  | ok message =>
      rw [hdecode] at hreply
      rw [hreply]
      by_cases hmine : message.version = node.host.protocol.version ∧ message.role.isReply = true
      · refine ⟨if message.requestId = operation.id ∧ operation.isRouted = true then
          operation.reply message else operation, ?_, ?_⟩
        · simp only [if_pos hmine]
          exact hwritten.getElem?_deliver hsize hoperation message
        · by_cases hid : message.requestId = operation.id <;> simp [hmine, hid, Operation.see]
      · refine ⟨operation, ?_, ?_⟩
        · simp only [if_neg hmine]
          exact hoperation
        · simp only [← and_assoc, hmine, false_and, if_false, Option.elim_none]

theorem Tidy.happen_see (h : node.Tidy first) (hsize : node.operations.size < 2 ^ 64)
    (hoperation : node.operations[index]? = some operation) (event : Event S) :
    ∃ moved, (node.happen event).operations[index]? = some moved ∧
      ((node.happen event).membership.roster, moved) =
        ((event.sight? node.host.protocol.version operation.id index).elim
          (node.membership.roster, operation)
          (Operation.see node.host (node.membership.roster, operation))) := by
  have hroster := (node.frame_happen event).2
  have hindex : index ≠ node.operations.size := by
    obtain ⟨hlt, -⟩ := Array.getElem?_eq_some_iff.mp hoperation
    exact Nat.ne_of_lt hlt
  cases event with
  | replicate now request =>
      exact ⟨operation, (getElem?_start _ _).trans ((if_neg hindex).trans hoperation), rfl⟩
  | ping now target =>
      exact ⟨operation, (getElem?_start _ _).trans ((if_neg hindex).trans hoperation), rfl⟩
  | advance now moving =>
      refine ⟨_, getElem?_advance hoperation now moving, ?_⟩
      rw [hroster]
      by_cases hsame : moving = index <;> simp [Event.sight?, hsame, Operation.see]
  | refuse refused peer =>
      by_cases hsame : refused = index
      · subst hsame
        refine ⟨operation.sendFailed peer, getElem?_modify_self hoperation _, ?_⟩
        rw [hroster]
        simp [Event.sight?, Operation.see]
      · refine ⟨operation, (getElem?_modify_of_ne hsame _).trans hoperation, ?_⟩
        rw [hroster]
        simp [Event.sight?, hsame]
  | deliver message =>
      refine ⟨_, h.getElem?_deliver hsize hoperation message, ?_⟩
      rw [hroster]
      by_cases hid : message.requestId = operation.id <;>
        simp [Event.sight?, hid, Operation.see]
  | receive datagram =>
      rw [hroster]
      exact h.receive_see hsize hoperation datagram
  | view roster => exact ⟨operation, hoperation, rfl⟩
  | rewrite storage => exact ⟨operation, hoperation, rfl⟩

/-- A whole history makes of an operation what its own sights make of it, one after the other. -/
theorem Tidy.live_see (h : node.Tidy first) {events : List (Event S)}
    (hsize : (node.live events).operations.size < 2 ^ 64)
    (hoperation : node.operations[index]? = some operation) :
    ∃ moved, (node.live events).operations[index]? = some moved ∧
      ((node.live events).membership.roster, moved) =
        (events.filterMap
          (Event.sight? node.host.protocol.version operation.id index)).foldl
          (Operation.see node.host) (node.membership.roster, operation) := by
  induction events generalizing node operation with
  | nil => exact ⟨operation, hoperation, rfl⟩
  | cons event rest ih =>
      have hnode : node.operations.size < 2 ^ 64 :=
        Nat.lt_of_le_of_lt (node.size_live (event :: rest)) hsize
      obtain ⟨moved, hmoved, hsees⟩ := h.happen_see hnode hoperation event
      obtain ⟨final, hfinal, hrest⟩ := ih (h.happen hnode event) hsize hmoved
      have hid : moved.id = operation.id := by
        have hsame := congrArg (fun seen => seen.2.id) hsees
        cases hsight : event.sight? node.host.protocol.version operation.id index with
        | none =>
            rw [hsight] at hsame
            exact hsame
        | some sight =>
            rw [hsight] at hsame
            exact hsame.trans (Operation.id_see _ _ _)
      refine ⟨final, hfinal, hrest.trans ?_⟩
      rw [(node.frame_happen event).1, hid, hsees]
      cases hsight : event.sight? node.host.protocol.version operation.id index with
      | none =>
          rw [List.filterMap_cons_none hsight]
          rfl
      | some sight =>
          rw [List.filterMap_cons_some hsight]
          rfl

end Node

end ReplicaRing
