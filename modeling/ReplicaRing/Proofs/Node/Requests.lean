import ReplicaRing.Proofs.Automaton.Moves
import ReplicaRing.Proofs.Node.Moves
import ReplicaRing.Proofs.Replication.Sending
import ReplicaRing.Proofs.Server.Answers

/-! Which messages are requests of an operation. -/

namespace ReplicaRing

namespace Ping

private theorem mem_effects_react {host : Host} {target : String} {id : UInt64} {roster : Roster}
    {memory : Memory} {state : State} {input : Input} {effect : Effect}
    (h : effect ∈ (react host target id roster memory state input).effects) :
    effect = .route id ∨ ∃ peer, effect = .send peer (message host id) := by
  unfold react at h
  split at h
  case h_1 =>
    split at h
    case h_1 peer _ =>
      rcases List.mem_cons.mp h with rfl | h
      · exact .inl rfl
      · exact .inr ⟨peer, List.mem_singleton.mp h⟩
    case h_2 => cases h
  case h_3 => split at h <;> cases h
  all_goals cases h

private theorem mem_retire {host : Host} {target : String} {id : UInt64} {memory : Memory}
    {state : State} {effect : Effect}
    (h : effect ∈ (automaton host target id).retire memory state) :
    effect = .abandon ∨ effect = .unroute id := by
  rcases List.mem_cons.mp h with h | h
  · exact .inl h
  · split at h
    · exact .inr (List.mem_singleton.mp h)
    · cases h

end Ping

namespace Replication

private theorem eq_timeout {host : Host} {request : Request} {id : UInt64} {state : State}
    {duration : Nat} {input : Input}
    (h : (automaton host request id).timeout state = some (duration, input)) :
    input = .timeout := by
  cases state with
  | waiting =>
      cases h
      rfl
  | _ => cases h

theorem offers_of_moves {host : Host} {request : Request} {id : UInt64} {roster : Roster} {now : Nat}
    {run after : Run Tally State Input} {effects : List Effect} {message : Message}
    (h : run.Moves (automaton host request id) roster now after effects)
    (hoffers : after.Offers (.reply message)) : run.Offers (.reply message) := by
  cases h with
  | react ready input _ _ _ _ hready =>
      rcases Run.offers_feed hoffers with hold | hqueued | ⟨state, duration, htimeout⟩
      · exact hready _ hold
      · rcases react_queued hqueued with hsend | hsettle
        · cases hsend
        · cases hsettle
      · cases eq_timeout htimeout
  | stop =>
      rcases hoffers with hqueue | ⟨_, hdeadline⟩
      · cases hqueue
      · cases hdeadline

theorem mem_retire {host : Host} {request : Request} {id : UInt64} {tally : Tally}
    {state : State} {effect : Effect}
    (h : effect ∈ (automaton host request id).retire tally state) :
    effect = .abandon ∨ effect = .unroute id := by
  rcases List.mem_cons.mp h with h | h
  · exact .inl h
  · split at h
    · exact .inr (List.mem_singleton.mp h)
    · cases h

end Replication

namespace Operation

variable {host : Host} {roster : Roster} {now : Nat} {operation moved : Operation}
  {message : Message} {effects : List Effect}

def request? : Operation → Option Request
  | replication request _ _ => some request
  | ping .. => none

theorem request?_reply (message : Message) (operation : Operation) :
    (operation.reply message).request? = operation.request? := by
  cases operation <;> rfl

theorem request?_sendFailed (peer : String) (operation : Operation) :
    (operation.sendFailed peer).request? = operation.request? := by
  cases operation <;> rfl

structure Requests (host : Host) (operation : Operation) (message : Message) : Prop where
  replyTo : message.replyTo = host.name
  requestId : message.requestId = operation.id
  content : match operation with
    | .replication request _ run => run.state.IsSent ∧ message.role = request.role ∧
        Entry.decode message.payload = .ok request.entry
    | .ping .. => message.role = .ping

theorem Requests.reply (h : operation.Requests host message) (answer : Message) :
    (operation.reply answer).Requests host message where
  replyTo := h.replyTo
  requestId := h.requestId.trans (operation.id_reply answer).symm
  content := by
    have hcontent := h.content
    cases operation with
    | replication request id run => simpa [Operation.reply] using hcontent
    | ping target id run => exact hcontent

theorem Requests.sendFailed (h : operation.Requests host message) (peer : String) :
    (operation.sendFailed peer).Requests host message where
  replyTo := h.replyTo
  requestId := h.requestId.trans (operation.id_sendFailed peer).symm
  content := by
    have hcontent := h.content
    cases operation with
    | replication request id run => simpa [Operation.sendFailed] using hcontent
    | ping target id run => exact hcontent

theorem advance_replication {request : Request} {id : UInt64}
    {run : Run Replication.Tally Replication.State Replication.Input}
    (h : (replication request id run).advance host roster now = some (moved, effects)) :
    ∃ after, moved = .replication request id after ∧ run.isOver = false ∧
      run.Moves (Replication.automaton host request id) roster now after effects ∧
      run.advance (Replication.automaton host request id) roster now = some (after, effects) := by
  simp only [advance, Option.map_eq_some_iff, Prod.mk.injEq, Prod.exists] at h
  obtain ⟨after, _, hadvance, rfl, rfl⟩ := h
  obtain ⟨hover, hmoves⟩ := Run.advance_eq_some hadvance
  exact ⟨after, rfl, hover, hmoves, hadvance⟩

theorem advance_ping {target : String} {id : UInt64}
    {run : Run Ping.Memory Ping.State Ping.Input}
    (h : (ping target id run).advance host roster now = some (moved, effects)) :
    ∃ after, moved = .ping target id after ∧
      run.Moves (Ping.automaton host target id) roster now after effects := by
  simp only [advance, Option.map_eq_some_iff, Prod.mk.injEq, Prod.exists] at h
  obtain ⟨after, _, hadvance, rfl, rfl⟩ := h
  exact ⟨after, rfl, (Run.advance_eq_some hadvance).2⟩

theorem request?_advance (h : operation.advance host roster now = some (moved, effects)) :
    moved.request? = operation.request? := by
  cases operation with
  | replication request id run =>
      obtain ⟨after, rfl, -⟩ := advance_replication h
      rfl
  | ping target id run =>
      obtain ⟨after, rfl, -⟩ := advance_ping h
      rfl

theorem Requests.not_isReply (h : operation.Requests host message) :
    message.role.isReply = false := by
  have hcontent := h.content
  cases operation with
  | replication request id run =>
      rw [hcontent.2.1]
      cases request <;> rfl
  | ping target id run =>
      rw [hcontent]
      rfl

theorem Requests.advance (h : operation.Requests host message)
    (hadvance : operation.advance host roster now = some (moved, effects)) :
    moved.Requests host message where
  replyTo := h.replyTo
  requestId := h.requestId.trans (id_advance hadvance).symm
  content := by
    have hcontent := h.content
    cases operation with
    | replication request id run =>
        obtain ⟨after, rfl, -, hmoves, -⟩ := advance_replication hadvance
        obtain ⟨hsent, hrest⟩ := hcontent
        refine ⟨?_, hrest⟩
        cases hmoves with
        | react ready input _ hmemory hstate =>
            have hready : ready.state.IsSent := hstate ▸ hsent
            exact (Replication.react_isSent host request id roster ready.memory hready input).1
        | stop => exact hsent
    | ping target id run =>
        obtain ⟨after, rfl, -⟩ := advance_ping hadvance
        exact hcontent

theorem advance_effects {effect : Effect}
    (h : operation.advance host roster now = some (moved, effects)) (heffect : effect ∈ effects) :
    (∃ peer message, effect = .send peer message ∧ moved.Requests host message) ∨
      effect = .route moved.id ∨ effect = .unroute moved.id ∨ effect = .abandon := by
  cases operation with
  | replication request id run =>
      obtain ⟨after, rfl, -, hmoves, -⟩ := advance_replication h
      cases hmoves with
      | react ready input _ hmemory hstate =>
          obtain ⟨-, targets, message, hplan, hreact, rfl | ⟨peer, rfl⟩⟩ :=
            Replication.react_eq_fanOut_of_mem heffect
          · exact .inr (.inl rfl)
          · have hplans := Replication.plan_eq_ok hplan
            rw [← hmemory, ← hstate] at hreact
            have hwaiting : (ready.feed (Replication.automaton host request id) roster now
                input).1.state = .waiting := congrArg Reaction.state hreact
            refine .inl ⟨peer, message, rfl, hplans.replyTo, hplans.requestId, ?_⟩
            exact ⟨hwaiting ▸ .waiting, hplans.role, hplans.entry⟩
      | stop =>
          rcases Replication.mem_retire heffect with rfl | rfl
          · exact .inr (.inr (.inr rfl))
          · exact .inr (.inr (.inl rfl))
  | ping target id run =>
      obtain ⟨after, rfl, hmoves⟩ := advance_ping h
      cases hmoves with
      | react ready input =>
          rcases Ping.mem_effects_react heffect with rfl | ⟨peer, rfl⟩
          · exact .inr (.inl rfl)
          · exact .inl ⟨peer, Ping.message host id, rfl, rfl, Args.requestId_withRequestId _ _, rfl⟩
      | stop =>
          rcases Ping.mem_retire heffect with rfl | rfl
          · exact .inr (.inr (.inr rfl))
          · exact .inr (.inr (.inl rfl))

end Operation

end ReplicaRing
