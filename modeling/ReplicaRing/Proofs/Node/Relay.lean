import Mathlib.Logic.Function.Basic
import Mathlib.Logic.Relation
import ReplicaRing.Proofs.Node.Answering

/-! Nodes that are left to themselves answer what is in flight, and then fall silent. -/

namespace ReplicaRing

/-- Nodes with what is in flight between them, while no operation sends anything. -/
structure Relay (Member S : Type) where
  nodes : Member → Node S
  inFlight : List (Address × Bytes)
  sent : List (Address × Bytes) := []

namespace Relay

variable {Member S : Type} [DecidableEq Member] [Storage S]

inductive Step : Relay Member S → Relay Member S → Prop
  | deliver (relay : Relay Member S) (member : Member) (datagram : Bytes)
      (earlier later : List (Address × Bytes))
      (hflight : relay.inFlight = earlier ++ ((relay.nodes member).address, datagram) :: later) :
      Step relay {
        nodes := Function.update relay.nodes member ((relay.nodes member).receive datagram).1
        inFlight := earlier ++ later ++ ((relay.nodes member).receive datagram).2.2.toList
        sent := relay.sent ++ ((relay.nodes member).receive datagram).2.2.toList }
  | lose (relay : Relay Member S) (parcel : Address × Bytes) (earlier later : List (Address × Bytes))
      (hflight : relay.inFlight = earlier ++ parcel :: later) :
      Step relay { relay with inFlight := earlier ++ later }
  /-- Whatever else happens to a node. -/
  | change (relay : Relay Member S) (member : Member) (node : Node S) :
      Step relay { relay with nodes := Function.update relay.nodes member node }

/-- What is in flight to its address is not an answer. -/
def asks (parcel : Address × Bytes) : Bool :=
  match Message.decode parcel.2 with
  | .ok message => !message.role.isReply
  | .error _ => true

/-- How many datagrams may yet be answered. -/
def pending (relay : Relay Member S) : Nat := relay.inFlight.countP asks

omit [DecidableEq Member] [Storage S] in
private theorem pending_le (relay : Relay Member S) : relay.pending ≤ relay.inFlight.length :=
  List.countP_le_length

private theorem asks_of_outgoing {node : Node S} (address : Address) {datagram : Bytes}
    {sent : Address × Bytes} (h : (node.receive datagram).2.2 = some sent) :
    asks (address, datagram) = true ∧ asks sent = false := by
  obtain ⟨target, written⟩ := sent
  constructor
  · unfold asks
    cases hdecode : Message.decode datagram with
    | error error => rfl
    | ok message =>
        cases hreply : message.role.isReply with
        | false => simp [hreply]
        | true =>
            rw [Node.outgoing_of_isReply hdecode hreply] at h
            cases h
  · obtain ⟨answer, hdecode, hreply⟩ := Node.isReply_of_outgoing h
    simp [asks, hdecode, hreply]

/-- Each answer uses up a datagram that was to be answered, and is none itself. -/
theorem Step.sent_add_pending {before after : Relay Member S} (h : Step before after) :
    after.sent.length + after.pending ≤ before.sent.length + before.pending := by
  cases h with
  | deliver member datagram earlier later hflight =>
      simp only [pending, hflight, List.countP_append, List.countP_cons, List.length_append]
      cases houtgoing : ((before.nodes member).receive datagram).2.2 with
      | none =>
          simp only [Option.toList_none, List.length_nil, List.countP_nil]
          omega
      | some sent =>
          obtain ⟨hasks, hanswer⟩ := asks_of_outgoing (before.nodes member).address houtgoing
          simp only [Option.toList_some, List.length_singleton, List.countP_singleton, hasks,
            hanswer]
          simp only [if_true, Bool.false_eq_true, if_false]
          omega
  | lose parcel earlier later hflight =>
      simp only [pending, hflight, List.countP_append, List.countP_cons]
      omega
  | change => exact Nat.le_refl _

private theorem sent_add_pending_le {before after : Relay Member S}
    (h : Relation.ReflTransGen Step before after) :
    after.sent.length + after.pending ≤ before.sent.length + before.pending := by
  induction h with
  | refl => exact Nat.le_refl _
  | tail _ hstep ih => exact Nat.le_trans hstep.sent_add_pending ih

end Relay

variable {Member S : Type} [DecidableEq Member] [Storage S]

/-- A node with a valid name sends one datagram for another one exactly where an answer is due, and
that is the answer, to the peer that the message names.  Answers are not answered, so nodes that are
left to themselves send no more datagrams than were in flight at first. -/
theorem Node.answers_once :
    (∀ (node : Node S) (datagram : Bytes), node.host.HasFitName →
      ((node.receive datagram).2.2.isSome = true ↔
        ∃ asked peer verb payload, node.Provokes datagram asked peer verb payload) ∧
      ∀ target written, (node.receive datagram).2.2 = some (target, written) →
        ∃ asked peer verb payload, node.Provokes datagram asked peer verb payload ∧
          target = peer.address ∧
          Message.decode written = .ok (node.answer asked verb payload)) ∧
    (∀ (node : Node S) (datagram : Bytes) (asked : Message),
      Message.decode datagram = .ok asked → asked.role.isReply = true →
        (node.receive datagram).2.2 = none) ∧
    ∀ before after : Relay Member S, Relation.ReflTransGen Relay.Step before after →
      after.sent.length ≤ before.sent.length + before.inFlight.length := by
  refine ⟨fun node datagram hname => ⟨⟨fun h => ?_, ?_⟩, fun _ _ => provokes_of_outgoing⟩,
    fun _ _ _ => outgoing_of_isReply, fun before after hsteps => ?_⟩
  · obtain ⟨⟨target, written⟩, hsent⟩ := Option.isSome_iff_exists.mp h
    obtain ⟨asked, peer, verb, payload, hprovokes, -⟩ := provokes_of_outgoing hsent
    exact ⟨asked, peer, verb, payload, hprovokes⟩
  · rintro ⟨asked, peer, verb, payload, hprovokes⟩
    exact hprovokes.isSome hname
  · calc after.sent.length
        ≤ after.sent.length + after.pending := Nat.le_add_right _ _
      _ ≤ before.sent.length + before.pending := Relay.sent_add_pending_le hsteps
      _ ≤ before.sent.length + before.inFlight.length :=
        Nat.add_le_add_left before.pending_le _

namespace Greeting

/-! Two nodes that know each other, and a ping on its way from the first to the second. -/

def settings (member : Bool) : Settings := { name := bif member then "b" else "a" }

def address (member : Bool) : Address := .localhost (bif member then 2 else 1)

def roster : Roster := ⟨[(settings false).peer (address false), (settings true).peer (address true)],
  by decide⟩

def node (member : Bool) : Node MemoryStore where
  host := (settings member).host
  address := address member
  membership := { roster }
  storage := Table.empty

def ping : Message := (node false).host.request .ping Verb.ping

def datagram : Bytes := ping.encode.toOption.getD []

def relay : Relay Bool MemoryStore := ⟨node, [(address true, datagram)], []⟩

private theorem validate_settings : (settings true).validate = .ok () := by
  simp only [Settings.validate]
  rw [if_neg (by decide), if_neg (by decide), if_neg (by decide), if_neg (by decide),
    if_neg (by decide)]

private theorem provokes :
    (node true).Provokes datagram ping ((settings false).peer (address false)) Verb.pong [] where
  decode := Message.decode_of_encode rfl
  version := rfl
  known := by decide +kernel
  due := .pong rfl rfl

theorem answers_ping_once :
    ((node true).receive datagram).2.2.isSome = true ∧
      (∀ written target, ((node true).receive datagram).2.2 = some (target, written) →
        ∀ member, ((node member).receive written).2.2 = none) ∧
      ∀ after, Relation.ReflTransGen Relay.Step relay after → after.sent.length ≤ 1 := by
  obtain ⟨honce, hnever, hbound⟩ := @Node.answers_once Bool MemoryStore _ _
  obtain ⟨hexactly, hhow⟩ := honce (node true) datagram (Settings.hasFitName validate_settings)
  refine ⟨hexactly.mpr ⟨_, _, _, _, provokes⟩, fun written target hsent member => ?_,
    fun after hsteps => hbound relay after hsteps⟩
  obtain ⟨asked, peer, verb, payload, hprovokes, -, hdecode⟩ := hhow target written hsent
  have hasked : asked = ping := by
    have hsame := hprovokes.decode.symm.trans provokes.decode
    exact Except.ok.inj hsame
  subst hasked
  cases hprovokes.due with
  | pong => exact hnever (node member) written _ hdecode rfl
  | stored _ _ htopic | found _ _ _ htopic | missing _ htopic => cases htopic

end Greeting

end ReplicaRing
