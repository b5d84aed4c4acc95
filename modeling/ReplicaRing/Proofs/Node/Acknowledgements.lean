import Mathlib.Data.List.Induction
import ReplicaRing.Proofs.Node.Isolation

/-!
What a replication counts as an acknowledgement, and where that has come from: from a datagram with the
number of its request and the name of a target that has not been heard yet.  Of what the reply is about,
only the verb counts.
-/

namespace ReplicaRing

namespace Request

def ackRole : Request → Role
  | store .. => .putAck
  | load .. => .getAck

def Finds (request : Request) (reply : Message) : Prop :=
  match request with
  | store .. => True
  | load .. => ∃ entry, Entry.decode reply.payload = .ok entry

/-- The replies that are counted as acknowledgements. -/
inductive Credits (request : Request) (reply : Message) : Prop
  | genuine (hrole : reply.role = request.ackRole) (hfinds : request.Finds reply)
  /-- The verbs of two topics can be the same number. -/
  | mistaken (hother : reply.topic ≠ request.topic)
      (hrole : reply.role = .pong ∨ reply.role = .putAck ∨ reply.role = .getAck)
      (hfinds : request.Finds reply)

end Request

private theorem Message.role_of_isReply {reply : Message} (h : reply.role.isReply = true) :
    reply.verb = 1 ↔ reply.role = .pong ∨ reply.role = .putAck ∨ reply.role = .getAck := by
  constructor
  · intro hverb
    cases hrole : reply.role with
    | pong => exact .inl rfl
    | putAck => exact .inr (.inl rfl)
    | getAck => exact .inr (.inr rfl)
    | getNack =>
        rw [((role_eq_iff rfl rfl).mp hrole).2] at hverb
        cases hverb
    | _ =>
        rw [hrole] at h
        cases h
  · rintro (hrole | hrole | hrole)
    · exact ((role_eq_iff rfl rfl).mp hrole).2
    · exact ((role_eq_iff rfl rfl).mp hrole).2
    · exact ((role_eq_iff rfl rfl).mp hrole).2

namespace Request

variable {request : Request} {reply : Message}

private theorem classify_eq_ack_iff :
    (∃ receipt, request.classify reply = some (.ack receipt)) ↔
      reply.verb = 1 ∧ request.Finds reply := by
  cases request with
  | store key value level =>
      by_cases hverb : reply.verb = 1 <;> simp [classify, Verb.putAck, Finds, hverb]
  | load key level =>
      by_cases hverb : reply.verb = 1
      · cases hentry : Entry.decode reply.payload <;> simp [classify, Verb.getAck, Finds, hverb, hentry]
      · by_cases hnack : reply.verb = 2 <;>
          simp [classify, Verb.getAck, Verb.getNack, hverb, hnack]

private theorem credits_iff (hreply : reply.role.isReply = true) :
    request.Credits reply ↔ ∃ receipt, request.classify reply = some (.ack receipt) := by
  rw [classify_eq_ack_iff, Message.role_of_isReply hreply]
  constructor
  · rintro (⟨hrole, hfinds⟩ | ⟨-, hrole, hfinds⟩)
    · refine ⟨?_, hfinds⟩
      cases request with
      | store => exact .inr (.inl hrole)
      | load => exact .inr (.inr hrole)
    · exact ⟨hrole, hfinds⟩
  · rintro ⟨hrole, hfinds⟩
    by_cases hown : reply.role = request.ackRole
    · exact .genuine hown hfinds
    · refine .mistaken (fun htopic => hown ?_) hrole hfinds
      rcases hrole with hrole | hrole | hrole
      · have hping : reply.topic = .ping := Message.topic_of_role (by rw [hrole]; rfl)
        cases request <;> cases hping.symm.trans htopic
      · have hstore : reply.topic = .store := Message.topic_of_role (by rw [hrole]; rfl)
        cases request with
        | store => exact hrole
        | load => cases hstore.symm.trans htopic
      · have hload : reply.topic = .load := Message.topic_of_role (by rw [hrole]; rfl)
        cases request with
        | store => cases hload.symm.trans htopic
        | load => exact hrole

end Request

structure Host.Takes (host : Host) (datagram : Bytes) (reply : Message) : Prop where
  decode : Message.decode datagram = .ok reply
  version : reply.version = host.protocol.version
  isReply : reply.role.isReply = true

namespace Node

open Replication (Tally State Input)

variable {S : Type} {node : Node S} {index : Nat} {operation moved : Operation} {event : Event S}
  {events : List (Event S)} {request : Request} {id : UInt64} {run : Run Tally State Input}
  {reply : Message}

inductive Comes (node : Node S) (event : Event S) (index : Nat) : Operation → Prop
  | startReplication (now : Nat) (request : Request) (hnew : node.operations[index]? = none) :
      Comes node event index (.startReplication node.host now request node.nextId)
  | startPing (now : Nat) (target : String) (hnew : node.operations[index]? = none) :
      Comes node event index (.startPing node.host now target node.nextId)
  | stay (operation : Operation) (hbefore : node.operations[index]? = some operation) :
      Comes node event index operation
  | move (operation moved : Operation) (now : Nat) (effects : List Effect)
      (hbefore : node.operations[index]? = some operation)
      (hmoved : operation.advance node.host node.membership.roster now = some (moved, effects)) :
      Comes node event index moved
  | refuse (operation : Operation) (peer : String)
      (hbefore : node.operations[index]? = some operation) :
      Comes node event index (operation.sendFailed peer)
  | reply (operation : Operation) (message : Message)
      (hbefore : node.operations[index]? = some operation)
      (howner : node.routes.find? message.requestId = some index)
      (hevent : event = .deliver message ∨
        ∃ datagram, event = .receive datagram ∧ node.host.Takes datagram message) :
      Comes node event index (operation.reply message)

private theorem comes_of_start {operation : UInt64 → Operation}
    (hstart : node.operations[index]? = none → node.Comes event index (operation node.nextId))
    (h : (node.start operation).2.operations[index]? = some moved) :
    node.Comes event index moved := by
  rw [getElem?_start] at h
  split at h
  case isTrue hindex =>
    cases h
    exact hstart (Array.getElem?_eq_none_iff.mpr (Nat.le_of_eq hindex.symm))
  case isFalse => exact .stay moved h

private theorem comes_of_modify {owner : Nat} {change : Operation → Operation}
    (hchange : ∀ operation, owner = index → node.operations[index]? = some operation →
      node.Comes event index (change operation))
    (h : (node.modify owner change).operations[index]? = some moved) :
    node.Comes event index moved := by
  rw [getElem?_modify] at h
  split at h
  case isTrue hsame =>
    obtain ⟨operation, hbefore, rfl⟩ := Option.map_eq_some_iff.mp h
    exact hchange operation hsame hbefore
  case isFalse => exact .stay moved h

private theorem Comes.id_eq (h : node.Comes event index moved)
    (hbefore : node.operations[index]? = some operation) : moved.id = operation.id := by
  cases h with
  | startReplication now request hnew | startPing now target hnew => cases hnew.symm.trans hbefore
  | stay _ hthere =>
      cases hthere.symm.trans hbefore
      rfl
  | move _ _ now effects hthere hmoved =>
      cases hthere.symm.trans hbefore
      exact Operation.id_advance hmoved
  | refuse _ peer hthere =>
      cases hthere.symm.trans hbefore
      exact Operation.id_sendFailed peer operation
  | reply _ message hthere =>
      cases hthere.symm.trans hbefore
      exact Operation.id_reply message operation

variable [Storage S]

private theorem takes_of_response {datagram : Bytes}
    (h : (node.response datagram).reply = some reply) :
    node.host.Takes datagram reply := by
  rw [response, Server.reply_eq] at h
  split at h
  case h_1 message hdecode =>
    split at h
    case isTrue htaken =>
      cases h
      exact ⟨hdecode, htaken.1, htaken.2⟩
    case isFalse => cases h
  case h_2 => cases h

private theorem happen_advance (node : Node S) (now moving : Nat) :
    node.happen (.advance now moving) = node ∨
      ∃ mover later effects, node.operations[moving]? = some mover ∧
        mover.advance node.host node.membership.roster now = some (later, effects) ∧
        node.happen (.advance now moving) =
          effects.foldl (fun node effect => node.apply moving effect)
            (node.modify moving fun _ => later) := by
  rw [happen]
  cases hadvance : node.advance now moving with
  | none => exact .inl rfl
  | some turn =>
      obtain ⟨after, effects⟩ := turn
      obtain ⟨mover, later, hmover, hlater, rfl⟩ := advance_eq_some hadvance
      exact .inr ⟨mover, later, effects, hmover, hlater, rfl⟩

private theorem comes (h : (node.happen event).operations[index]? = some moved) :
    node.Comes event index moved := by
  cases event with
  | replicate now request => exact comes_of_start (.startReplication now request) h
  | ping now target => exact comes_of_start (.startPing now target) h
  | advance now moving =>
      rcases node.happen_advance now moving with hnode | ⟨mover, later, effects, hmover, hlater, hnode⟩
      · rw [hnode] at h
        exact .stay moved h
      · obtain ⟨routes, hframe⟩ := (node.modify moving fun _ => later).foldl_apply moving effects
        rw [hnode, hframe] at h
        refine comes_of_modify (fun operation hsame _ => ?_) h
        subst hsame
        exact .move mover later now effects hmover hlater
  | refuse refused peer =>
      exact comes_of_modify (fun operation _ hbefore => .refuse operation peer hbefore) h
  | deliver message =>
      rw [happen, deliver] at h
      split at h
      case h_1 owner howner =>
        refine comes_of_modify (fun operation hsame hbefore => ?_) h
        subst hsame
        exact .reply operation message hbefore howner (.inl rfl)
      case h_2 => exact .stay moved h
  | receive datagram =>
      rw [happen] at h
      rcases node.receive_node datagram with hnode | ⟨message, owner, hreply, howner, hnode⟩
      · rw [hnode] at h
        exact .stay moved h
      · rw [hnode] at h
        refine comes_of_modify (fun operation hsame hbefore => ?_) h
        subst hsame
        exact .reply operation message hbefore howner
          (.inr ⟨datagram, rfl, takes_of_response hreply⟩)
  | view | rewrite => exact .stay moved h

private theorem exists_happen (hbefore : node.operations[index]? = some operation)
    (event : Event S) :
    ∃ moved, (node.happen event).operations[index]? = some moved ∧ moved.id = operation.id := by
  obtain ⟨hlt, -⟩ := Array.getElem?_eq_some_iff.mp hbefore
  have hstill := Nat.lt_of_lt_of_le hlt (node.size_happen event)
  have hthere := Array.getElem?_eq_getElem hstill
  exact ⟨_, hthere, (comes hthere).id_eq hbefore⟩

private theorem find?_routes_happen {owner : Nat}
    (h : (node.happen event).routes.find? id = some owner) :
    node.routes.find? id = some owner ∨
      ∃ moved, (node.happen event).operations[owner]? = some moved ∧ moved.id = id := by
  cases event with
  | advance now moving =>
      rcases node.happen_advance now moving with hnode | ⟨mover, later, effects, hmover, hlater, hnode⟩
      · rw [hnode] at h
        exact .inl h
      · rw [hnode] at h ⊢
        rcases find?_foldl_apply h with hold | ⟨rfl, hroute⟩
        · exact .inl hold
        · obtain ⟨routes, hframe⟩ := (node.modify owner fun _ => later).foldl_apply owner effects
          refine .inr ⟨later, ?_, ?_⟩
          · rw [hframe]
            exact getElem?_modify_self hmover fun _ => later
          · rcases Operation.advance_effects hlater hroute with ⟨_, _, h, -⟩ | h | h | h
            · cases h
            · cases h
              rfl
            · cases h
            · cases h
  | deliver message =>
      rw [happen, deliver] at h
      split at h <;> exact .inl h
  | receive datagram =>
      obtain ⟨operations, storage, hframe, -⟩ := node.receive_frame datagram
      rw [happen, hframe] at h
      exact .inl h
  | _ => exact .inl h

/-- The reply is in a datagram of the history, and for the request with the number. -/
def Hears (node : Node S) (events : List (Event S)) (id : UInt64) (reply : Message) : Prop :=
  reply.requestId = id ∧ ∃ datagram, .receive datagram ∈ events ∧ node.host.Takes datagram reply

/-- After a history in which all messages come as datagrams, every route leads to the operation with its
number, and the replies that a replication has yet to count have been heard. -/
structure Sourced (node : Node S) (events : List (Event S)) : Prop where
  routes : ∀ id index, (node.live events).routes.find? id = some index →
    ∃ operation, (node.live events).operations[index]? = some operation ∧ operation.id = id
  replies : ∀ (index : Nat) (request : Request) (id : UInt64) (run : Run Tally State Input)
      (reply : Message),
    (node.live events).operations[index]? = some (.replication request id run) →
      run.Offers (.reply reply) → node.Hears events id reply

private theorem IsFresh.sourced_nil (h : node.IsFresh) : node.Sourced [] where
  routes id index hroute := by
    rw [live_nil, h.noRoutes] at hroute
    cases hroute
  replies index request id run reply hoperation := by
    rw [live_nil, h.noOperations] at hoperation
    cases hoperation

private theorem Sourced.concat (h : node.Sourced events)
    (hevent : ∀ message, event ≠ .deliver message) :
    node.Sourced (events ++ [event]) where
  routes id index hroute := by
    rw [live_concat] at hroute ⊢
    rcases find?_routes_happen hroute with hold | hnew
    · obtain ⟨operation, hoperation, rfl⟩ := h.routes id index hold
      exact exists_happen hoperation event
    · exact hnew
  replies index request id run reply hoperation hoffers := by
    rw [live_concat] at hoperation
    have hearlier : ∀ {reply}, node.Hears events id reply → node.Hears (events ++ [event]) id reply := by
      rintro reply ⟨hid, datagram, hmem, htakes⟩
      exact ⟨hid, datagram, List.mem_append_left _ hmem, htakes⟩
    have hcomes := comes hoperation
    generalize hmoved : Operation.replication request id run = moved at hcomes
    cases hcomes with
    | startReplication now started =>
        cases hmoved
        rcases Run.offers_push hoffers with hold | hnew
        · rcases hold with hqueue | ⟨_, hdeadline⟩
          · cases hqueue
          · cases hdeadline
        · cases hnew
    | startPing => cases hmoved
    | stay _ hbefore =>
        subst hmoved
        exact hearlier (h.replies _ _ _ _ _ hbefore hoffers)
    | move operation _ now effects hbefore hadvance =>
        subst hmoved
        cases operation with
        | ping target number before =>
            obtain ⟨_, hping, -⟩ := Operation.advance_ping hadvance
            cases hping
        | replication asked number before =>
            obtain ⟨after, hafter, -, hmoves, -⟩ := Operation.advance_replication hadvance
            cases hafter
            exact hearlier (h.replies _ _ _ _ _ hbefore
              (Replication.offers_of_moves hmoves hoffers))
    | refuse operation peer hbefore =>
        cases operation with
        | ping => cases hmoved
        | replication asked number before =>
            cases hmoved
            rcases Run.offers_push hoffers with hold | hnew
            · exact hearlier (h.replies _ _ _ _ _ hbefore hold)
            · cases hnew
    | reply operation message hbefore howner hcame =>
        cases operation with
        | ping => cases hmoved
        | replication asked number before =>
            cases hmoved
            rcases Run.offers_push hoffers with hold | hnew
            · exact hearlier (h.replies _ _ _ _ _ hbefore hold)
            · cases hnew
              obtain ⟨owner, hthere, hid⟩ := h.routes _ _ howner
              cases hthere.symm.trans hbefore
              rcases hcame with hdelivered | ⟨datagram, hreceived, htakes⟩
              · exact absurd hdelivered (hevent _)
              · rw [host_live] at htakes
                exact ⟨hid.symm, datagram, hreceived ▸ List.mem_append_cons_self, htakes⟩

private theorem IsFresh.sourced (h : node.IsFresh)
    (hevents : ∀ message, .deliver message ∉ events) :
    node.Sourced events := by
  induction events using List.reverseRecOn with
  | nil => exact h.sourced_nil
  | append_singleton events event ih =>
      have hearlier : ∀ message, .deliver message ∉ events := fun message hmem =>
        hevents message (List.mem_append_left _ hmem)
      refine (ih hearlier).concat fun message hevent => hevents message ?_
      rw [hevent]
      exact List.mem_append_cons_self

/-- A replication that waits has come to a reply of a pending target that is counted as an
acknowledgement. -/
structure Earns (node : Node S) (events : List (Event S)) (request : Request) (id : UInt64)
    (run : Run Tally State Input) (reply : Message) : Prop where
  waiting : run.state = .waiting
  offered : run.Offers (.reply reply)
  heard : node.Hears events id reply
  pending : reply.replyTo ∈ run.memory.pending
  credits : request.Credits reply

/-- Whatever happens to a node that hears nothing but datagrams, a replication counts an acknowledgement
only for a reply that a pending target has sent to its request, and one at a time. -/
theorem acks_earned (node : Node S) (hfresh : node.IsFresh) (events : List (Event S))
    (hevents : ∀ message, .deliver message ∉ events) (event : Event S) (index : Nat)
    (request : Request) (id : UInt64) (run moved : Run Tally State Input)
    (hbefore : (node.live events).operations[index]? = some (.replication request id run))
    (hafter : (node.live (events ++ [event])).operations[index]? =
      some (.replication request id moved))
    (hacks : moved.memory.acks ≠ run.memory.acks) :
    moved.memory.acks = run.memory.acks + 1 ∧ ∃ reply, node.Earns events request id run reply := by
  rw [live_concat] at hafter
  have hcomes := comes hafter
  generalize hmoved : Operation.replication request id moved = after at hcomes
  cases hcomes with
  | startReplication now started hnew | startPing now target hnew =>
      cases hnew.symm.trans hbefore
  | stay _ hthere =>
      subst hmoved
      cases hthere.symm.trans hbefore
      exact absurd rfl hacks
  | refuse operation peer hthere =>
      cases hthere.symm.trans hbefore
      cases hmoved
      exact absurd (congrArg Tally.acks (Run.push_memory run _)) hacks
  | reply operation message hthere =>
      cases hthere.symm.trans hbefore
      cases hmoved
      exact absurd (congrArg Tally.acks (Run.push_memory run _)) hacks
  | move operation _ now effects hthere hadvance =>
      subst hmoved
      cases hthere.symm.trans hbefore
      obtain ⟨later, hlater, -, hmoves, -⟩ := Operation.advance_replication hadvance
      cases hlater
      cases hmoves with
      | stop => exact absurd rfl hacks
      | react ready input hoffered hmemory hstate =>
          change (Replication.react _ request id _ ready.memory ready.state input).memory.acks ≠ _
            at hacks
          rw [hmemory, hstate] at hacks
          obtain ⟨hwaiting, reply, receipt, rfl, hpending, hvote, hmore⟩ :=
            Replication.ack_of_react hacks
          have hheard := (hfresh.sourced hevents).replies _ _ _ _ _ hbefore hoffered
          obtain ⟨datagram, -, htakes⟩ := hheard.2
          refine ⟨?_, reply, hwaiting, hoffered, hheard, hpending,
            (Request.credits_iff htakes.isReply).mpr ⟨receipt, hvote⟩⟩
          change (Replication.react _ request id _ ready.memory ready.state _).memory.acks = _
          rw [hmemory, hstate]
          exact hmore

end Node

namespace Errands

/-! The node stores a value with the one peer that it knows, and hears a reply. -/

open Replication (Tally State Input)

def request : Request := .store [107] [118] .one

def waiting : Run Tally State Input where
  memory := { targets := 1, pending := ["b"], routed := true }
  state := .waiting
  senders := 1
  deadline := some (1000, .timeout)

def asking : Node MemoryStore :=
  { node with
    nextId := 1
    routes := Table.empty.insert 0 0
    operations := #[.replication request 0 waiting] }

private theorem replicas_request :
    node.membership.roster.replicas (.hash request.key) request.level =
      .ok node.membership.roster.peers := by
  have hsorted : node.membership.roster.tokens.Pairwise fun a b => a.position < b.position := by
    decide +kernel
  have hring : Ring.ofRoster node.membership.roster = .ok ⟨_, hsorted⟩ :=
    Ring.ofTokens_of_sorted hsorted
  have hchosen : ∀ hsorted, (⟨node.membership.roster.tokens.toArray, hsorted⟩ : Ring).select
      (.hash request.key) 1 = .ok node.membership.roster.peers := by
    decide +kernel
  rw [Roster.replicas, hring]
  exact hchosen hsorted

private theorem live_asking : node.live
    [.replicate 0 request, .advance 0 0, .advance 0 0] = asking := by
  let sending : Run Tally State Input :=
    { memory := {}, state := .sending, queue := [.input .send], senders := 1 }
  let before : Node MemoryStore :=
    { node with nextId := 1, operations := #[.replication request 0 sending] }
  have hbefore : node.live [.replicate 0 request, .advance 0 0] = before := rfl
  obtain ⟨message, hplan⟩ : ∃ message, Replication.plan node.host request 0
      node.membership.roster = .ok (node.membership.roster.peers, message) :=
    Replication.exists_plan replicas_request (show _ ≤ _ by decide) ⟨by decide, by decide⟩ 0
  have hreact : (Replication.automaton node.host request 0).react node.membership.roster {}
      .sending .send = Replication.fanOut {} 0 node.membership.roster.peers message := by
    simp only [Replication.automaton, Replication.react, hplan]
  let step := Replication.fanOut {} 0 node.membership.roster.peers message
  have hadvance : before.advance 0 0 = some (asking, step.effects) := by
    rw [show before.advance 0 0 = _ from Node.advance_of_operation rfl]
    simp only [Operation.advance, Run.advance]
    change Option.map _ (Option.map _ (some (Run.feed _ _ _ _ _))) = _
    simp only [Run.feed, before, sending, hreact]
    rfl
  change (node.live [.replicate 0 request, .advance 0 0]).happen (.advance 0 0) = asking
  rw [hbefore, Node.happen, hadvance]
  rfl

def reply (topic : Topic) : Message := ⟨1, topic, 1, .zero, "b", []⟩

def history (topic : Topic) : List (Node.Event MemoryStore) :=
  [.replicate 0 request, .advance 0 0, .advance 0 0,
    .receive ((reply topic).encode.toOption.getD [])]

def heard (topic : Topic) : Run Tally State Input :=
  { waiting with queue := [.input (.reply (reply topic))] }

def counted : Run Tally State Input where
  memory := { targets := 1, acks := 1, receipt := some .stored, routed := true }
  state := .fullAck
  queue := [.input .settle]
  senders := 1

private theorem decode_reply {topic : Topic} (h : topic = .store ∨ topic = .ping) :
    Message.decode ((reply topic).encode.toOption.getD []) = .ok (reply topic) := by
  rcases h with rfl | rfl <;> exact Message.decode_of_encode rfl

private theorem live_history {topic : Topic} (h : topic = .store ∨ topic = .ping) :
    node.live (history topic) =
      { asking with operations := #[.replication request 0 (heard topic)] } := by
  have hresponse : asking.response ((reply topic).encode.toOption.getD []) =
      { storage := asking.storage, reply := some (reply topic) } := by
    refine (Server.receive_of_version (decode_reply h) rfl).trans ?_
    rcases h with rfl | rfl <;> rfl
  change (node.live [.replicate 0 request, .advance 0 0, .advance 0 0]).happen (.receive _) = _
  rw [live_asking, Node.happen, Node.receive_eq_deliver, hresponse]
  rfl

private theorem live_counted {topic : Topic} (h : topic = .store ∨ topic = .ping) :
    (node.live (history topic ++ [.advance 0 0])).operations[0]? =
      some (.replication request 0 counted) := by
  rw [Node.live_concat, live_history h]
  rfl

theorem acks_earned_of_store_ack :
    node.IsFresh ∧ (∀ message, .deliver message ∉ history .store) ∧
      (node.live (history .store)).operations[0]? = some (.replication request 0 (heard .store)) ∧
      (node.live (history .store ++ [.advance 0 0])).operations[0]? =
        some (.replication request 0 counted) ∧
      counted.memory.acks = 1 ∧
      ∃ reply, node.Earns (history .store) request 0 (heard .store) reply := by
  have hfresh : node.IsFresh := ⟨rfl, rfl⟩
  have hdatagrams : ∀ message, .deliver message ∉ history .store := by simp [history]
  have hbefore : (node.live (history .store)).operations[0]? =
      some (.replication request 0 (heard .store)) := by
    rw [live_history (.inl rfl)]
    rfl
  have hafter : (node.live (history .store ++ [.advance 0 0])).operations[0]? =
      some (.replication request 0 counted) := live_counted (.inl rfl)
  obtain ⟨hacks, hearned⟩ := Node.acks_earned node hfresh (history .store) hdatagrams (.advance 0 0) 0
    request 0 (heard .store) counted hbefore hafter (by decide)
  exact ⟨hfresh, hdatagrams, hbefore, hafter, hacks, hearned⟩

/-- A pong with the number of a store is counted as an acknowledgement of it. -/
theorem pong_counts_for_store :
    Message.decode ((reply .ping).encode.toOption.getD []) = .ok (reply .ping) ∧
      (reply .ping).role = .pong ∧
      (node.live (history .ping)).operations[0]? = some (.replication request 0 (heard .ping)) ∧
      (heard .ping).state = .waiting ∧ (heard .ping).memory.acks = 0 ∧
      (node.live (history .ping ++ [.advance 0 0])).operations[0]? =
        some (.replication request 0 counted) ∧ counted.memory.acks = 1 := by
  refine ⟨decode_reply (.inr rfl), rfl, ?_, rfl, rfl, live_counted (.inr rfl), rfl⟩
  rw [live_history (.inr rfl)]
  rfl

end Errands

end ReplicaRing
