import Mathlib.Algebra.Group.Nat.Defs
import ReplicaRing.Node

/-! What a node does to its operations and its routes. -/

namespace ReplicaRing

def Operation.id : Operation → UInt64
  | replication _ id _ | ping _ id _ => id

theorem Operation.id_reply (message : Message) (operation : Operation) :
    (operation.reply message).id = operation.id := by
  cases operation <;> rfl

theorem Operation.id_sendFailed (peer : String) (operation : Operation) :
    (operation.sendFailed peer).id = operation.id := by
  cases operation <;> rfl

theorem Operation.id_advance {host : Host} {roster : Roster} {now : Nat}
    {operation moved : Operation} {effects : List Effect}
    (h : operation.advance host roster now = some (moved, effects)) :
    moved.id = operation.id := by
  cases operation with
  | replication request id run =>
      simp only [advance, Option.map_eq_some_iff, Prod.mk.injEq] at h
      obtain ⟨_, -, rfl, -⟩ := h
      rfl
  | ping target id run =>
      simp only [advance, Option.map_eq_some_iff, Prod.mk.injEq] at h
      obtain ⟨_, -, rfl, -⟩ := h
      rfl

namespace Node

theorem number_injective {first : UInt64} {index other : Nat} (hindex : index < 2 ^ 64)
    (hother : other < 2 ^ 64) (h : first + UInt64.ofNat index = first + UInt64.ofNat other) :
    index = other := by
  have hcancel : UInt64.ofNat index = UInt64.ofNat other := by simpa using h
  have hnat := congrArg UInt64.toNat hcancel
  rw [UInt64.toNat_ofNat', UInt64.toNat_ofNat', Nat.mod_eq_of_lt hindex,
    Nat.mod_eq_of_lt hother] at hnat
  exact hnat

variable {S : Type} {node : Node S}

theorem getElem?_modify (index other : Nat) (change : Operation → Operation) :
    (node.modify index change).operations[other]? =
      if index = other then node.operations[other]?.map change else node.operations[other]? :=
  Array.getElem?_modify

theorem getElem?_modify_self {index : Nat} {operation : Operation}
    (h : node.operations[index]? = some operation) (change : Operation → Operation) :
    (node.modify index change).operations[index]? = some (change operation) := by
  rw [getElem?_modify, if_pos rfl, h, Option.map_some]

theorem getElem?_modify_of_ne {index other : Nat} (h : index ≠ other)
    (change : Operation → Operation) :
    (node.modify index change).operations[other]? = node.operations[other]? := by
  rw [getElem?_modify, if_neg h]

theorem modify_congr {index : Nat} {change other : Operation → Operation}
    (h : ∀ operation, node.operations[index]? = some operation →
      change operation = other operation) :
    node.modify index change = node.modify index other := by
  have hsame : node.operations.modify index change = node.operations.modify index other := by
    refine Array.ext_getElem? fun place => ?_
    rw [Array.getElem?_modify, Array.getElem?_modify]
    split
    case isTrue heq =>
      subst heq
      cases hoperation : node.operations[index]? with
      | none => rfl
      | some operation => exact congrArg some (h operation hoperation)
    case isFalse => rfl
  rw [modify, modify, hsame]

theorem modify_of_none {index : Nat} (change : Operation → Operation)
    (h : node.operations[index]? = none) : node.modify index change = node := by
  have hsame : node.operations.modify index change = node.operations := by
    refine Array.ext_getElem? fun place => ?_
    rw [Array.getElem?_modify]
    split
    case isTrue heq =>
      subst heq
      rw [h]
      rfl
    case isFalse => rfl
  rw [modify, hsame]

theorem getElem?_start (operation : UInt64 → Operation) (index : Nat) :
    (node.start operation).2.operations[index]? =
      if index = node.operations.size then some (operation node.nextId)
      else node.operations[index]? :=
  Array.getElem?_push

theorem foldl_apply (node : Node S) (index : Nat) (effects : List Effect) :
    ∃ routes, effects.foldl (fun node effect => node.apply index effect) node =
      { node with routes } := by
  induction effects generalizing node with
  | nil => exact ⟨node.routes, rfl⟩
  | cons effect rest ih =>
      obtain ⟨routes, hrest⟩ := ih (node.apply index effect)
      refine ⟨routes, ?_⟩
      rw [List.foldl_cons, hrest]
      cases effect <;> rfl

theorem find?_foldl_apply {index owner : Nat} {effects : List Effect} {id : UInt64}
    (h : (effects.foldl (fun node effect => node.apply index effect) node).routes.find? id =
      some owner) :
    node.routes.find? id = some owner ∨ owner = index ∧ .route id ∈ effects := by
  induction effects generalizing node with
  | nil => exact .inl h
  | cons effect rest ih =>
      rcases ih h with hbefore | ⟨howner, hroute⟩
      · cases effect with
        | route routed =>
            simp only [apply, Table.find?_insert] at hbefore
            split at hbefore
            case isTrue heq =>
              subst heq
              exact .inr ⟨(Option.some.inj hbefore).symm, List.mem_cons_self⟩
            case isFalse => exact .inl hbefore
        | unroute removed =>
            simp only [apply, Table.find?_erase] at hbefore
            split at hbefore
            · cases hbefore
            · exact .inl hbefore
        | send peer message => exact .inl hbefore
        | abandon => exact .inl hbefore
      · exact .inr ⟨howner, List.mem_cons_of_mem _ hroute⟩

theorem find?_foldl_apply_of_ne {index : Nat} {effects : List Effect} {id : UInt64}
    (h : ∀ effect ∈ effects, effect ≠ .route id ∧ effect ≠ .unroute id) :
    (effects.foldl (fun node effect => node.apply index effect) node).routes.find? id =
      node.routes.find? id := by
  induction effects generalizing node with
  | nil => rfl
  | cons effect rest ih =>
      rw [List.foldl_cons, ih fun other hother => h other (List.mem_cons_of_mem _ hother)]
      obtain ⟨hroute, hunroute⟩ := h effect List.mem_cons_self
      cases effect with
      | route routed =>
          refine (Table.find?_insert _ _ _ _).trans (if_neg ?_)
          rintro rfl
          exact hroute rfl
      | unroute removed =>
          refine (Table.find?_erase _ _ _).trans (if_neg ?_)
          rintro rfl
          exact hunroute rfl
      | send | abandon => rfl

theorem advance_of_operation {now index : Nat} {operation : Operation}
    (h : node.operations[index]? = some operation) :
    node.advance now index =
      (operation.advance node.host node.membership.roster now).map fun (moved, effects) =>
        (effects.foldl (fun node effect => node.apply index effect)
          (node.modify index fun _ => moved), effects) := by
  simp only [advance, h, Option.bind_eq_bind, Option.bind_some]
  cases operation.advance node.host node.membership.roster now <;> rfl

theorem advance_eq_some {now index : Nat} {after : Node S} {effects : List Effect}
    (h : node.advance now index = some (after, effects)) :
    ∃ operation moved, node.operations[index]? = some operation ∧
      operation.advance node.host node.membership.roster now = some (moved, effects) ∧
      after = effects.foldl (fun node effect => node.apply index effect)
        (node.modify index fun _ => moved) := by
  simp only [advance, Option.bind_eq_bind, Option.bind_eq_some_iff, Option.pure_def,
    Option.some.injEq, Prod.mk.injEq, Prod.exists] at h
  obtain ⟨operation, hoperation, moved, _, hmoved, rfl, rfl⟩ := h
  exact ⟨operation, moved, hoperation, hmoved, rfl⟩

theorem advance_frame {now index : Nat} {after : Node S} {effects : List Effect}
    (h : node.advance now index = some (after, effects)) :
    ∃ operations routes, after = { node with operations, routes } ∧
      operations.size = node.operations.size := by
  obtain ⟨operation, moved, -, -, rfl⟩ := advance_eq_some h
  obtain ⟨routes, hroutes⟩ := (node.modify index fun _ => moved).foldl_apply index effects
  exact ⟨_, routes, hroutes, Array.size_modify⟩

variable [Storage S] (node : Node S) (datagram : Bytes)

def response : Server.Response S :=
  Server.receive node.host node.membership.roster node.storage datagram

theorem receive_outgoing : (node.receive datagram).2.2 = (node.response datagram).outgoing := by
  simp only [receive, response]
  split
  · rfl
  · split <;> rfl

theorem receive_node :
    (node.receive datagram).1 = { node with storage := (node.response datagram).storage } ∨
      ∃ message index, (node.response datagram).reply = some message ∧
        node.routes.owner? message = some index ∧
        (node.receive datagram).1 =
          { node with storage := (node.response datagram).storage }.modify index
            fun operation => operation.reply message := by
  simp only [receive, response]
  split
  · exact .inl rfl
  case _ message hreply =>
    split
    · exact .inl rfl
    case _ index howner => exact .inr ⟨message, index, hreply, howner, rfl⟩

theorem storage_receive : (node.receive datagram).1.storage = (node.response datagram).storage := by
  rcases node.receive_node datagram with h | ⟨message, index, -, -, h⟩
  · rw [h]
  · rw [h]
    rfl

theorem receive_frame :
    ∃ operations storage, (node.receive datagram).1 = { node with operations, storage } ∧
      operations.size = node.operations.size := by
  rcases node.receive_node datagram with h | ⟨message, index, -, -, h⟩
  · exact ⟨node.operations, _, h, rfl⟩
  · exact ⟨_, _, h, Array.size_modify⟩

end Node

end ReplicaRing
