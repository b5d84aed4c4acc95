import ReplicaRing.Proofs.Node.Strides
import ReplicaRing.Proofs.Server.Willing

/-!
What can happen to a node, and whose its routes are: after any history, those of the operations that
have asked for replies and are not over.
-/

namespace ReplicaRing

namespace Node

variable {S : Type} {node : Node S} {index : Nat} {operation : Operation} {message : Message}
  {first : UInt64}

def deliver (node : Node S) (message : Message) : Bool × Node S :=
  match node.routes.owner? message with
  | some index => (true, node.modify index fun operation => operation.reply message)
  | none => (false, node)

theorem receive_eq_deliver [Storage S] (node : Node S) (datagram : Bytes) :
    (node.receive datagram).1 =
      match (node.response datagram).reply with
      | none => { node with storage := (node.response datagram).storage }
      | some message =>
          (deliver { node with storage := (node.response datagram).storage } message).2 := by
  simp only [receive, response, deliver]
  generalize Server.receive node.host node.membership.roster node.storage datagram = response
  cases response.reply with
  | none => rfl
  | some message =>
      simp only
      cases node.routes.owner? message <;> rfl

inductive Event (S : Type)
  | replicate (now : Nat) (request : Request)
  | ping (now : Nat) (target : String)
  | advance (now : Nat) (index : Nat)
  /-- An operation could not send to a peer. -/
  | refuse (index : Nat) (peer : String)
  | deliver (message : Message)
  | receive (datagram : Bytes)
  | view (roster : Roster)
  | rewrite (storage : S)

section Live

variable [Storage S]

def happen (node : Node S) : Event S → Node S
  | .replicate now request => (node.startReplication now request).2
  | .ping now target => (node.startPing now target).2
  | .advance now index => ((node.advance now index).map Prod.fst).getD node
  | .refuse index peer => node.modify index (Operation.sendFailed peer)
  | .deliver message => (node.deliver message).2
  | .receive datagram => (node.receive datagram).1
  | .view roster => { node with membership := node.membership.replace roster }
  | .rewrite storage => { node with storage }

def live (node : Node S) (events : List (Event S)) : Node S := events.foldl happen node

@[simp] theorem live_nil (node : Node S) : node.live [] = node := rfl

theorem live_append (node : Node S) (events more : List (Event S)) :
    node.live (events ++ more) = (node.live events).live more :=
  List.foldl_append

theorem live_concat (node : Node S) (events : List (Event S)) (event : Event S) :
    node.live (events ++ [event]) = (node.live events).happen event :=
  node.live_append events [event]

end Live

structure IsFresh (node : Node S) : Prop where
  noOperations : node.operations = #[]
  noRoutes : node.routes = {}

section Stride

variable {moved : Operation} {effects : List Effect}

private theorem find?_stride_self (h : operation.Stride moved effects)
    (hbefore : node.routes.find? operation.id =
      if operation.isRouted = true then some index else none) :
    (effects.foldl (fun node effect => node.apply index effect) node).routes.find? operation.id =
      if moved.isRouted = true ∧ moved.isOver = false then some index else none := by
  cases h with
  | quiet hrouted _ hover =>
      rw [List.foldl_nil, hbefore, hrouted, hover]
      simp only [and_true]
  | sendOut sends _ _ hrouted hover hsends =>
      have hrest : ∀ effect ∈ sends,
          effect ≠ .route operation.id ∧ effect ≠ .unroute operation.id := by
        intro effect heffect
        obtain ⟨peer, message, rfl⟩ := hsends effect heffect
        exact ⟨nofun, nofun⟩
      rw [List.foldl_cons, find?_foldl_apply_of_ne hrest, if_pos ⟨hrouted, hover⟩]
      exact (Table.find?_insert _ _ _ _).trans (if_pos rfl)
  | finish hrouted _ hover =>
      have hidle : ¬(moved.isRouted = true ∧ moved.isOver = false) := by simp [hover]
      rw [if_neg hidle]
      cases hroute : operation.isRouted with
      | false =>
          rw [hroute] at hbefore
          exact hbefore
      | true => exact (Table.find?_erase _ _ _).trans (if_pos rfl)

private theorem find?_stride_of_ne (h : operation.Stride moved effects) {id : UInt64}
    (hne : id ≠ operation.id) :
    (effects.foldl (fun node effect => node.apply index effect) node).routes.find? id =
      node.routes.find? id := by
  apply find?_foldl_apply_of_ne
  intro effect heffect
  cases h with
  | quiet => cases heffect
  | sendOut sends _ _ _ _ hsends =>
      rcases List.mem_cons.mp heffect with rfl | hsend
      · simpa using Ne.symm hne
      · obtain ⟨peer, message, rfl⟩ := hsends effect hsend
        exact ⟨nofun, nofun⟩
  | finish =>
      rcases List.mem_cons.mp heffect with rfl | hunroute
      · exact ⟨nofun, nofun⟩
      · split at hunroute
        · obtain rfl := List.mem_singleton.mp hunroute
          simpa using Ne.symm hne
        · cases hunroute

end Stride

/-- The operations are numbered one after the other, and the routes are those of the operations that
have asked for replies and are not over. -/
structure Tidy (first : UInt64) (node : Node S) : Prop where
  next : node.nextId = first + UInt64.ofNat node.operations.size
  ids : ∀ (index : Nat) (operation : Operation), node.operations[index]? = some operation →
    operation.id = first + UInt64.ofNat index
  routes : ∀ id index, node.routes.find? id = some index ↔
    ∃ operation, node.operations[index]? = some operation ∧ operation.id = id ∧
      operation.isRouted = true ∧ operation.isOver = false
  unsent : ∀ (index : Nat) (operation : Operation), node.operations[index]? = some operation →
    operation.IsUnsent → operation.isRouted = false

theorem IsFresh.tidy (h : node.IsFresh) : node.Tidy node.nextId where
  next := by
    rw [h.noOperations]
    exact (UInt64.add_zero _).symm
  ids index operation hoperation := by
    rw [h.noOperations] at hoperation
    cases hoperation
  routes id index := by
    rw [h.noRoutes, h.noOperations]
    constructor
    · intro hnone
      cases hnone
    · rintro ⟨_, hnone, -⟩
      cases hnone
  unsent index operation hoperation := by
    rw [h.noOperations] at hoperation
    cases hoperation

namespace Tidy

theorem id_injective (h : node.Tidy first) (hsize : node.operations.size < 2 ^ 64) {other : Nat}
    {another : Operation} (hoperation : node.operations[index]? = some operation)
    (hanother : node.operations[other]? = some another) (hid : operation.id = another.id) :
    index = other := by
  rw [h.ids _ _ hoperation, h.ids _ _ hanother] at hid
  obtain ⟨hindex, -⟩ := Array.getElem?_eq_some_iff.mp hoperation
  obtain ⟨hother, -⟩ := Array.getElem?_eq_some_iff.mp hanother
  exact number_injective (Nat.lt_trans hindex hsize) (Nat.lt_trans hother hsize) hid

theorem find?_id (h : node.Tidy first) (hsize : node.operations.size < 2 ^ 64)
    (hoperation : node.operations[index]? = some operation) :
    node.routes.find? operation.id =
      if operation.isRouted = true ∧ operation.isOver = false then some index else none := by
  split
  case isTrue hwaits => exact (h.routes _ _).mpr ⟨operation, hoperation, rfl, hwaits⟩
  case isFalse hidle =>
    refine Option.eq_none_iff_forall_not_mem.mpr fun other hother => hidle ?_
    obtain ⟨another, hanother, hid, hwaits⟩ := (h.routes _ _).mp hother
    obtain rfl := h.id_injective hsize hoperation hanother hid.symm
    rw [hoperation] at hanother
    cases hanother
    exact hwaits

private theorem settle (h : node.Tidy first) (hsize : node.operations.size < 2 ^ 64)
    (hoperation : node.operations[index]? = some operation) {moved : Operation}
    (hid : moved.id = operation.id) (hunsent : moved.IsUnsent → moved.isRouted = false)
    {routes : Routes Nat}
    (hown : routes.find? operation.id =
      if moved.isRouted = true ∧ moved.isOver = false then some index else none)
    (hothers : ∀ id, id ≠ operation.id → routes.find? id = node.routes.find? id) :
    Tidy first { node.modify index fun _ => moved with routes } := by
  have hhere := getElem?_modify_self hoperation fun _ => moved
  have hthere : ∀ other, index ≠ other →
      (node.modify index fun _ => moved).operations[other]? = node.operations[other]? :=
    fun other hne => getElem?_modify_of_ne hne _
  refine ⟨h.next.trans (congrArg (first + UInt64.ofNat ·) Array.size_modify.symm),
    fun other another hanother => ?_, fun id other => ?_, fun other another hanother => ?_⟩
  · by_cases hsame : index = other
    · subst hsame
      obtain rfl := Option.some.inj (hhere.symm.trans hanother)
      exact hid.trans (h.ids _ _ hoperation)
    · exact h.ids _ _ ((hthere other hsame).symm.trans hanother)
  · change routes.find? id = some other ↔ ∃ another,
      (node.modify index fun _ => moved).operations[other]? = some another ∧ _
    by_cases hsame : index = other
    · subst hsame
      simp only [hhere, Option.some.injEq, exists_eq_left', hid]
      by_cases hidentity : operation.id = id
      · rw [← hidentity, hown]
        simp
      · refine iff_of_false (fun hroute => hidentity ?_) fun hwaits => hidentity hwaits.1
        rw [hothers id (Ne.symm hidentity)] at hroute
        obtain ⟨another, hanother, hsame, -⟩ := (h.routes _ _).mp hroute
        rw [hoperation] at hanother
        cases hanother
        exact hsame
    · rw [hthere other hsame, ← h.routes]
      -- The route of the operation that moves leads to its own index, before and after.
      by_cases hidentity : id = operation.id
      · subst hidentity
        have hnever : ∀ {waits : Prop} [Decidable waits],
            (if waits then some index else none) ≠ some other := by
          intro waits _ hroute
          split at hroute
          · exact hsame (Option.some.inj hroute)
          · cases hroute
        rw [hown, h.find?_id hsize hoperation]
        exact iff_of_false hnever hnever
      · rw [hothers id hidentity]
  · by_cases hsame : index = other
    · subst hsame
      obtain rfl := Option.some.inj (hhere.symm.trans hanother)
      exact hunsent
    · exact h.unsent _ _ ((hthere other hsame).symm.trans hanother)

private theorem modify (h : node.Tidy first) (hsize : node.operations.size < 2 ^ 64) (index : Nat)
    {change : Operation → Operation} (hid : ∀ operation, (change operation).id = operation.id)
    (hrouted : ∀ operation, (change operation).isRouted = operation.isRouted)
    (hover : ∀ operation, (change operation).isOver = operation.isOver)
    (hunsent : ∀ operation, (change operation).IsUnsent → operation.IsUnsent) :
    (node.modify index change).Tidy first := by
  cases hoperation : node.operations[index]? with
  | none =>
      rw [modify_of_none change hoperation]
      exact h
  | some operation =>
      have hsame : node.modify index change = node.modify index fun _ => change operation := by
        refine modify_congr fun another hanother => ?_
        rw [hoperation] at hanother
        cases hanother
        rfl
      rw [hsame]
      refine h.settle hsize hoperation (hid operation) (fun hstill => ?_) ?_ fun _ _ => rfl
      · rw [hrouted]
        exact h.unsent _ _ hoperation (hunsent _ hstill)
      · rw [hrouted, hover]
        exact h.find?_id hsize hoperation

private theorem deliver (h : node.Tidy first) (hsize : node.operations.size < 2 ^ 64)
    (message : Message) :
    (node.deliver message).2.Tidy first := by
  unfold Node.deliver
  split
  · exact h.modify hsize _ (Operation.id_reply message) (Operation.isRouted_reply message)
      (Operation.isOver_reply message) fun operation =>
        (Operation.isUnsent_reply message operation).mp
  · exact h

private theorem start (h : node.Tidy first) {operation : UInt64 → Operation}
    (hid : ∀ id, (operation id).id = id) (hrouted : ∀ id, (operation id).isRouted = false) :
    (node.start operation).2.Tidy first where
  next := by
    change node.nextId + 1 = first + UInt64.ofNat (node.operations.push _).size
    rw [Array.size_push, h.next, UInt64.ofNat_add, UInt64.add_assoc]
    rfl
  ids index started hstarted := by
    rw [getElem?_start] at hstarted
    split at hstarted
    case isTrue hindex =>
      cases hstarted
      rw [hid, h.next, hindex]
    case isFalse => exact h.ids _ _ hstarted
  routes id index := by
    refine (h.routes id index).trans ?_
    constructor
    · rintro ⟨another, hanother, hrest⟩
      refine ⟨another, ?_, hrest⟩
      rw [getElem?_start, if_neg]
      · exact hanother
      · rintro rfl
        rw [Array.getElem?_size] at hanother
        cases hanother
    · rintro ⟨another, hanother, hsame, hwaits, hover⟩
      rw [getElem?_start] at hanother
      split at hanother
      case isTrue =>
        cases hanother
        rw [hrouted] at hwaits
        cases hwaits
      case isFalse => exact ⟨another, hanother, hsame, hwaits, hover⟩
  unsent index started hstarted := by
    rw [getElem?_start] at hstarted
    split at hstarted
    case isTrue =>
      cases hstarted
      exact fun _ => hrouted _
    case isFalse => exact h.unsent _ _ hstarted

private theorem advance (h : node.Tidy first) (hsize : node.operations.size < 2 ^ 64) {now : Nat}
    {after : Node S} {effects : List Effect}
    (hadvance : node.advance now index = some (after, effects)) : after.Tidy first := by
  obtain ⟨operation, moved, hoperation, hmoved, rfl⟩ := advance_eq_some hadvance
  have hstride := Operation.stride_of_advance hmoved
  have hbefore : (node.modify index fun _ => moved).routes.find? operation.id =
      if operation.isRouted = true then some index else none := by
    refine (h.find?_id hsize hoperation).trans ?_
    rw [Operation.isOver_of_advance hmoved]
    simp only [and_true]
  have hown := find?_stride_self hstride hbefore
  have hothers := fun id => @find?_stride_of_ne _ (node.modify index fun _ => moved) index _ _ _
    hstride id
  obtain ⟨routes, hframe⟩ := (node.modify index fun _ => moved).foldl_apply index effects
  rw [hframe] at hown hothers ⊢
  refine h.settle hsize hoperation (Operation.id_advance hmoved) (fun hunsent => ?_) hown hothers
  cases hstride with
  | quiet hrouted hstill | finish hrouted hstill =>
      exact hrouted.trans (h.unsent _ _ hoperation (hstill hunsent))
  | sendOut _ _ hsent => exact absurd hunsent hsent

variable [Storage S]

theorem happen (h : node.Tidy first) (hsize : node.operations.size < 2 ^ 64) (event : Event S) :
    (node.happen event).Tidy first := by
  cases event with
  | replicate now request => exact h.start (fun _ => rfl) fun _ => rfl
  | ping now target => exact h.start (fun _ => rfl) fun _ => rfl
  | advance now index =>
      cases hadvance : node.advance now index with
      | none =>
          rw [Node.happen, hadvance]
          exact h
      | some moved =>
          rw [Node.happen, hadvance]
          exact h.advance hsize hadvance
  | refuse index peer =>
      exact h.modify hsize _ (Operation.id_sendFailed peer) (Operation.isRouted_sendFailed peer)
        (Operation.isOver_sendFailed peer) fun operation =>
          (Operation.isUnsent_sendFailed peer operation).mp
  | deliver message => exact h.deliver hsize message
  | receive datagram =>
      rw [Node.happen, receive_eq_deliver]
      have hwritten : Tidy first { node with storage := (node.response datagram).storage } :=
        ⟨h.next, h.ids, h.routes, h.unsent⟩
      split
      · exact hwritten
      · exact hwritten.deliver hsize _
  | view roster => exact ⟨h.next, h.ids, h.routes, h.unsent⟩
  | rewrite storage => exact ⟨h.next, h.ids, h.routes, h.unsent⟩

end Tidy

section Live

variable [Storage S]

theorem starts_or_keeps (node : Node S) (event : Event S) :
    (∃ operation : UInt64 → Operation, (∀ id, (operation id).isRouted = false) ∧
      node.happen event = (node.start operation).2) ∨
    (node.happen event).operations.size = node.operations.size := by
  cases event with
  | replicate now request => exact .inl ⟨_, fun _ => rfl, rfl⟩
  | ping now target => exact .inl ⟨_, fun _ => rfl, rfl⟩
  | advance now index =>
      rw [happen]
      cases hadvance : node.advance now index with
      | none => exact .inr rfl
      | some turn =>
          obtain ⟨after, effects⟩ := turn
          obtain ⟨operations, routes, rfl, hsize⟩ := advance_frame hadvance
          exact .inr hsize
  | refuse => exact .inr Array.size_modify
  | deliver message =>
      rw [happen, deliver]
      split
      · exact .inr Array.size_modify
      · exact .inr rfl
  | receive datagram =>
      obtain ⟨operations, storage, hframe, hsize⟩ := node.receive_frame datagram
      rw [happen, hframe]
      exact .inr hsize
  | view | rewrite => exact .inr rfl

theorem size_happen (node : Node S) (event : Event S) :
    node.operations.size ≤ (node.happen event).operations.size := by
  rcases node.starts_or_keeps event with ⟨operation, -, h⟩ | h
  · rw [h]
    change _ ≤ (node.operations.push _).size
    rw [Array.size_push]
    exact Nat.le_succ _
  · exact Nat.le_of_eq h.symm

theorem size_live (node : Node S) (events : List (Event S)) :
    node.operations.size ≤ (node.live events).operations.size := by
  induction events generalizing node with
  | nil => exact Nat.le_refl _
  | cons event rest ih => exact Nat.le_trans (node.size_happen event) (ih (node.happen event))

theorem Tidy.live (h : node.Tidy first) {events : List (Event S)}
    (hsize : (node.live events).operations.size < 2 ^ 64) : (node.live events).Tidy first := by
  induction events generalizing node with
  | nil => exact h
  | cons event rest ih =>
      have hnode : node.operations.size < 2 ^ 64 :=
        Nat.lt_of_le_of_lt (node.size_live (event :: rest)) hsize
      exact ih (h.happen hnode event) hsize

end Live

end Node

end ReplicaRing
