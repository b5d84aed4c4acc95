import ReplicaRing.Proofs.Automaton.Order
import ReplicaRing.Proofs.Replication.Reactions
import ReplicaRing.Proofs.Replication.Sending
import ReplicaRing.Proofs.Replication.Waiting

/-!
What is in the queue of a replication in each of its states, and which deadline is armed.  What a
replication queues for itself comes once and in its turn; all else is reports from outside.
-/

namespace ReplicaRing.Replication

def Input.isReport : Input → Bool
  | .reply _ | .sendFailed _ => true
  | _ => false

theorem Input.isExternal_of_isReport {input : Input} (h : input.isReport = true) :
    input.isExternal = true := by
  cases input with
  | reply | sendFailed => rfl
  | _ => cases h

def Reports (queue : List (Command Input)) : Prop :=
  ∀ command ∈ queue, ∃ input, command = .input input ∧ input.isReport = true

namespace Reports

variable {queue more : List (Command Input)} {input : Input}

private theorem nil : Reports [] := nofun

private theorem append (h : Reports queue) (hmore : Reports more) : Reports (queue ++ more) := by
  intro command hcommand
  rcases List.mem_append.mp hcommand with hmem | hmem
  · exact h command hmem
  · exact hmore command hmem

private theorem singleton (h : input.isReport = true) : Reports [.input input] := by
  intro command hcommand
  cases List.mem_singleton.mp hcommand
  exact ⟨input, rfl, h⟩

theorem head (h : Reports (.input input :: queue)) : input.isReport = true := by
  obtain ⟨other, hother, hreport⟩ := h _ List.mem_cons_self
  cases hother
  exact hreport

theorem tail {command : Command Input} (h : Reports (command :: queue)) : Reports queue :=
  fun other hother => h other (List.mem_cons_of_mem _ hother)

end Reports

namespace State

/-- The wait is over, and the result comes with the next settling. -/
def isDecided : State → Bool
  | .fullAck | .partialAck | .noAck => true
  | _ => false

theorem IsSent.of_isDecided {state : State} (h : state.isDecided = true) : state.IsSent := by
  cases state with
  | fullAck | partialAck | noAck => exact ⟨nofun, nofun⟩
  | _ => cases h

def expects : State → Input → Bool
  | .start, .start | .sending, .send => true
  | .waiting, input => input.isExternal
  | .fullAck, input | .partialAck, input | .noAck, input => input.isExternal || input == .settle
  | _, _ => false

end State

theorem react_of_unexpected {host : Host} {request : Request} {id : UInt64} {roster : Roster}
    {tally : Tally} {state : State} {input : Input} (h : state.expects input = false) :
    react host request id roster tally state input = { memory := tally, state := .error } := by
  unfold react
  split
  case h_18 => rfl
  all_goals cases h

namespace Tally

structure Counts (tally : Tally) : Prop where
  targets : 0 < tally.targets
  receipt : tally.receipt = none → tally.acks = 0

private theorem Counts.count {tally : Tally} (h : tally.Counts) (vote : Option Vote) :
    (tally.count vote).Counts := by
  rcases vote with _ | ⟨receipt⟩ | _
  · exact ⟨h.targets, h.receipt⟩
  · refine ⟨h.targets, fun hnone => ?_⟩
    cases (Option.or_eq_none_iff.mp hnone).2
  · exact ⟨h.targets, h.receipt⟩

theorem Counts.hear {tally : Tally} (h : tally.Counts) (request : Request) (input : Input) :
    (tally.hear request input).Counts := by
  unfold Tally.hear
  split
  case h_1 message =>
    split
    · have hsettled : (tally.settleTarget message.replyTo).Counts := ⟨h.targets, h.receipt⟩
      exact hsettled.count _
    · exact h
  case h_2 peer =>
    split
    · exact ⟨h.targets, h.receipt⟩
    · exact h
  case h_3 => exact h

private theorem Counts.receipt_ne_none {tally : Tally} (h : tally.Counts) (hacks : 0 < tally.acks) :
    tally.receipt ≠ none := by
  intro hnone
  rw [h.receipt hnone] at hacks
  exact Nat.lt_irrefl 0 hacks

end Tally

/-- A state with the count, the queue and the deadline that a replication has in it. -/
inductive Phase (memory : Tally) : State → List (Command Input) → Option (Nat × Input) → Prop
  | start (htally : memory = {}) : Phase memory .start [.input .start] none
  | sending (htally : memory = {}) : Phase memory .sending [.input .send] none
  | waiting (queue : List (Command Input)) (time : Nat) (hreports : Reports queue)
      (hcounts : memory.Counts) (hpending : memory.pending ≠ []) :
      Phase memory .waiting queue (some (time, .timeout))
  | decided (state : State) (before after : List (Command Input))
      (hstate : state.isDecided = true) (hbefore : Reports before) (hafter : Reports after)
      (hreceipt : state ≠ .noAck → memory.receipt ≠ none) :
      Phase memory state (before ++ .input .settle :: after) none
  | final (state : State) (queue : List (Command Input)) (hstate : state.isTerminal = true)
      (hreports : Reports queue) : Phase memory state queue none

variable {host : Host} {request : Request} {id : UInt64} {roster : Roster} {now : Nat}
  {tally : Tally} {queue : List (Command Input)} {input : Input} {targets : List Peer}
  {message : Message}

inductive Proceeds (host : Host) (request : Request) (id : UInt64) (roster : Roster)
    (tally : Tally) : State → Input → Step → Prop
  | ready : Proceeds host request id roster tally .start .start
      { memory := tally, state := .sending, queued := [.send] }
  | fail (error : ProtocolError) (hplan : plan host request id roster = .error error) :
      Proceeds host request id roster tally .sending .send { memory := tally, state := .error }
  | fanOut (targets : List Peer) (message : Message)
      (hplan : plan host request id roster = .ok (targets, message)) :
      Proceeds host request id roster tally .sending .send (fanOut tally id targets message)
  | hear (input : Input) (hinput : input.isReport = true)
      (hpending : (tally.hear request input).pending ≠ []) :
      Proceeds host request id roster tally .waiting input
        { memory := tally.hear request input, state := .waiting }
  | conclude (input : Input) (hinput : input.isExternal = true)
      (hpending : input = .timeout ∨ (tally.hear request input).pending = []) :
      Proceeds host request id roster tally .waiting input (tally.hear request input).conclude
  | success (receipt : Receipt) (hreceipt : tally.receipt = some receipt) :
      Proceeds host request id roster tally .fullAck .settle
        { memory := tally, state := .success receipt }
  | partialSuccess (receipt : Receipt) (hreceipt : tally.receipt = some receipt) :
      Proceeds host request id roster tally .partialAck .settle
        { memory := tally, state := .partialSuccess receipt }
  | failure : Proceeds host request id roster tally .noAck .settle
      { memory := tally, state := .failure tally.nacks tally.targets }
  | late (state : State) (input : Input) (hstate : state.isDecided = true)
      (hinput : input.isReport = true) :
      Proceeds host request id roster tally state input { memory := tally, state }

namespace Phase

private theorem push {state : State} {deadline : Option (Nat × Input)}
    (h : Phase tally state queue deadline) (hsent : state.IsSent)
    (hinput : input.isReport = true) :
    Phase tally state (queue ++ [.input input]) deadline := by
  have hnew := Reports.singleton hinput
  cases h with
  | start htally => exact absurd rfl hsent.1
  | sending htally => exact absurd rfl hsent.2
  | waiting queue time hreports hcounts hpending =>
      exact .waiting _ time (hreports.append hnew) hcounts hpending
  | decided state before after hstate hbefore hafter hreceipt =>
      rw [List.append_assoc, List.cons_append]
      exact .decided state before _ hstate hbefore (hafter.append hnew) hreceipt
  | final state queue hstate hreports => exact .final state _ hstate (hreports.append hnew)

theorem tally_eq {state : State} {deadline : Option (Nat × Input)}
    (h : Phase tally state queue deadline) (hunsent : ¬state.IsSent) : tally = {} := by
  cases h with
  | start htally | sending htally => exact htally
  | waiting => exact absurd .waiting hunsent
  | decided _ _ _ hstate => exact absurd (.of_isDecided hstate) hunsent
  | final _ _ hstate => exact absurd (.of_isTerminal hstate) hunsent

theorem input_of_mem {state : State} {deadline : Option (Nat × Input)}
    (h : Phase tally state queue deadline) {command : Command Input} (hmem : command ∈ queue) :
    ∃ input, command = .input input ∧ input ≠ .timeout := by
  have hreports : ∀ {reports : List (Command Input)}, Reports reports → command ∈ reports →
      ∃ input, command = .input input ∧ input ≠ .timeout := by
    intro reports hreports hmem
    obtain ⟨input, rfl, hreport⟩ := hreports _ hmem
    exact ⟨input, rfl, fun heq => by cases heq ▸ hreport⟩
  cases h with
  | start htally => exact ⟨.start, List.mem_singleton.mp hmem, nofun⟩
  | sending htally => exact ⟨.send, List.mem_singleton.mp hmem, nofun⟩
  | waiting _ _ hwaiting => exact hreports hwaiting hmem
  | decided _ before after _ hbefore hafter =>
      rcases List.mem_append.mp hmem with hmem | hmem
      · exact hreports hbefore hmem
      · rcases List.mem_cons.mp hmem with hsettle | hmem
        · exact ⟨.settle, hsettle, nofun⟩
        · exact hreports hafter hmem
  | final _ _ _ hfinal => exact hreports hfinal hmem

private theorem ne_terminate {state : State} {deadline : Option (Nat × Input)}
    (h : Phase tally state queue deadline) : Command.terminate ∉ queue := by
  intro hmem
  obtain ⟨input, hinput, -⟩ := h.input_of_mem hmem
  cases hinput

private theorem conclude (hcounts : tally.Counts) (hreports : Reports queue) :
    Phase tally tally.conclude.state (queue ++ tally.conclude.queued.map .input) none := by
  unfold Tally.conclude
  split
  case isTrue =>
    rw [List.map_nil, List.append_nil]
    exact .final .error queue rfl hreports
  case isFalse =>
    simp only
    split
    case isTrue hacks =>
      exact .decided _ queue [] rfl hreports .nil fun _ =>
        hcounts.receipt_ne_none (hacks ▸ hcounts.targets)
    case isFalse =>
      split
      case isTrue hacks =>
        exact .decided _ queue [] rfl hreports .nil fun _ => hcounts.receipt_ne_none hacks
      case isFalse => exact .decided _ queue [] rfl hreports .nil fun hne => absurd rfl hne

theorem conclude_ne_waiting (tally : Tally) : tally.conclude.state ≠ .waiting := by
  unfold Tally.conclude
  split
  · exact nofun
  · simp only
    split
    · exact nofun
    · split <;> exact nofun

private theorem arm_of_ne_waiting {state : State} (h : state ≠ .waiting) :
    Run.arm (automaton host request id) now state = none := by
  cases state with
  | waiting => exact absurd rfl h
  | _ => rfl

/-- A report is heard, and the wait goes on while somebody is pending. -/
theorem hear (hcounts : tally.Counts) (hpending : tally.pending ≠ [])
    (hreports : Reports (.input input :: queue)) (time : Nat) :
    Proceeds host request id roster tally .waiting input
        (react host request id roster tally .waiting input) ∧
      Phase (react host request id roster tally .waiting input).memory
        (react host request id roster tally .waiting input).state
        (queue ++ (react host request id roster tally .waiting input).queued.map .input)
        (if (react host request id roster tally .waiting input).state = .waiting
          then some (time, .timeout)
          else Run.arm (automaton host request id) now
            (react host request id roster tally .waiting input).state) := by
  have hreport := hreports.head
  have hinput := Input.isExternal_of_isReport hreport
  have htimeout : input ≠ .timeout := by
    rintro rfl
    cases hreport
  have hheard := hcounts.hear request input
  rw [react_waiting hinput hpending, if_neg htimeout, Tally.awaitRest_memory]
  unfold Tally.awaitRest
  split
  case isTrue hnone =>
    have hstate := conclude_ne_waiting (tally.hear request input)
    rw [if_neg hstate, arm_of_ne_waiting hstate]
    exact ⟨.conclude input hinput (.inr (List.isEmpty_iff.mp hnone)),
      conclude hheard hreports.tail⟩
  case isFalse hsome =>
    have hsome : (tally.hear request input).pending ≠ [] := by simpa using hsome
    rw [if_pos rfl, List.map_nil, List.append_nil]
    exact ⟨.hear input hreport hsome, .waiting queue time hreports.tail hheard hsome⟩

private theorem fanOut (hplan : plan host request id roster = .ok (targets, message)) :
    Phase (fanOut {} id targets message).memory .waiting []
      (some (now + host.protocol.ackTimeout, .timeout)) := by
  have hplans := plan_eq_ok hplan
  have hrecords := fanOut_records id message (Roster.replicas_names hplans.replicas)
  have htargets : targets ≠ [] := Roster.replicas_ne_nil hplans.replicas
  refine .waiting [] _ .nil ⟨List.length_pos_of_ne_nil htargets, fun _ => rfl⟩ ?_
  rw [hrecords.pending]
  simpa using htargets

private theorem settled (state : State) {terminal : State} (hterminal : terminal.isTerminal = true)
    (hreports : Reports queue) :
    Phase tally terminal (queue ++ ([] : List Input).map .input)
      (if terminal = state then none
        else Run.arm (automaton host request id) now terminal) := by
  have hne : terminal ≠ .waiting := by
    rintro rfl
    cases hterminal
  rw [List.map_nil, List.append_nil, arm_of_ne_waiting hne, ite_self]
  exact .final _ queue hterminal hreports

theorem take (now : Nat) {state : State} {deadline : Option (Nat × Input)}
    (h : Phase tally state (.input input :: queue) deadline)
    (hterminal : state.isTerminal = false) :
    Proceeds host request id roster tally state input
        (react host request id roster tally state input) ∧
      Phase (react host request id roster tally state input).memory
        (react host request id roster tally state input).state
        (queue ++ (react host request id roster tally state input).queued.map .input)
        (if (react host request id roster tally state input).state = state then deadline
          else Run.arm (automaton host request id) now
            (react host request id roster tally state input).state) := by
  generalize hqueue : Command.input input :: queue = whole at h
  cases h with
  | start htally =>
      cases hqueue
      exact ⟨.ready, .sending htally⟩
  | sending htally =>
      cases hqueue
      rw [react, htally]
      cases hplan : plan host request id roster with
      | error error => exact ⟨.fail error hplan, .final .error [] rfl .nil⟩
      | ok planned =>
          obtain ⟨targets, message⟩ := planned
          exact ⟨.fanOut targets message hplan, fanOut hplan⟩
  | waiting _ time hreports hcounts hpending =>
      subst hqueue
      exact hear hcounts hpending hreports time
  | decided _ before after hstate hbefore hafter hreceipt =>
      cases before with
      | nil =>
          cases hqueue
          cases state with
          | fullAck =>
              obtain ⟨receipt, hsome⟩ := Option.ne_none_iff_exists'.mp (hreceipt (by decide))
              rw [react, Tally.settleWith, hsome]
              exact ⟨.success receipt hsome, settled .fullAck rfl hafter⟩
          | partialAck =>
              obtain ⟨receipt, hsome⟩ := Option.ne_none_iff_exists'.mp (hreceipt (by decide))
              rw [react, Tally.settleWith, hsome]
              exact ⟨.partialSuccess receipt hsome, settled .partialAck rfl hafter⟩
          | noAck => exact ⟨.failure, settled .noAck rfl hafter⟩
          | _ => cases hstate
      | cons first rest =>
          cases hqueue
          have hreport := hbefore.head
          have hlate : react host request id roster tally state input =
              { memory := tally, state } := by
            refine react_late (Input.isExternal_of_isReport hreport) ?_
            cases state with
            | fullAck => exact .inl rfl
            | partialAck => exact .inr (.inl rfl)
            | noAck => exact .inr (.inr (.inl rfl))
            | _ => cases hstate
          rw [hlate, if_pos rfl, List.map_nil, List.append_nil]
          exact ⟨.late state input hstate hreport,
            .decided state rest after hstate hbefore.tail hafter hreceipt⟩
  | final _ _ hstate hreports =>
      rw [hstate] at hterminal
      cases hterminal

theorem expire (now : Nat) {state : State} {time : Nat}
    (h : Phase tally state [] (some (time, input))) :
    Proceeds host request id roster tally state input
        (react host request id roster tally state input) ∧
      Phase (react host request id roster tally state input).memory
        (react host request id roster tally state input).state
        ((react host request id roster tally state input).queued.map .input)
        (if (react host request id roster tally state input).state = state then none
          else Run.arm (automaton host request id) now
            (react host request id roster tally state input).state) := by
  generalize hqueue : ([] : List (Command Input)) = queue at h
  generalize hdeadline : some (time, input) = deadline at h
  cases h with
  | waiting _ _ hreports hcounts hpending =>
      cases hdeadline
      have hstate := conclude_ne_waiting tally
      refine ⟨.conclude .timeout rfl (.inl rfl), ?_⟩
      rw [react, if_neg hstate, arm_of_ne_waiting hstate, Tally.conclude_memory]
      exact conclude hcounts .nil
  | _ => cases hdeadline

theorem eq_waiting {state : State} {time : Nat}
    (h : Phase tally state queue (some (time, input))) : state = .waiting ∧ input = .timeout := by
  generalize hdeadline : some (time, input) = deadline at h
  cases h with
  | waiting =>
      cases hdeadline
      exact ⟨rfl, rfl⟩
  | _ => cases hdeadline

end Phase

/-- A replication is where its own inputs and reports from outside can bring it. -/
structure Orderly (run : Run Tally State Input) : Prop where
  phase : Phase run.memory run.state run.queue run.deadline
  senders : run.senders ≠ 0
  final : run.isOver = true → run.state.isTerminal = true

namespace Orderly

variable {run after : Run Tally State Input} {effects : List Effect}

theorem start (host : Host) (request : Request) (id : UInt64) (now : Nat) :
    Orderly ((Run.start (automaton host request id) now {} .start 1).push (.input .start)) :=
  ⟨.start rfl, Nat.one_ne_zero, nofun⟩

theorem push (h : Orderly run) (hsent : run.state.IsSent) (hinput : input.isReport = true) :
    Orderly (run.push (.input input)) := by
  unfold Run.push
  split
  case isTrue => exact h
  case isFalse => exact ⟨h.phase.push hsent hinput, h.senders, h.final⟩

theorem isTerminal_of_ends (h : Orderly run) (hends : run.Ends (automaton host request id)) :
    run.state.isTerminal = true := by
  cases hends with
  | terminal hterminal => exact hterminal
  | terminated rest hqueue =>
      exact absurd (hqueue ▸ List.mem_cons_self) h.phase.ne_terminate
  | deserted hqueue hdeadline hsenders => exact absurd hsenders h.senders

theorem advance (h : Orderly run)
    (hadvance : run.advance (automaton host request id) roster now = some (after, effects)) :
    Orderly after := by
  obtain ⟨memory, state, queue, senders, deadline, isOver⟩ := run
  cases Run.advance_cases hadvance with
  | take input rest hover hterminal hqueue =>
      cases hqueue
      cases hover
      exact ⟨(h.phase.take now hterminal).2, h.senders, nofun⟩
  | expire time input hover hterminal hqueue hdeadline hdue =>
      cases hqueue
      cases hdeadline
      cases hover
      exact ⟨(h.phase.expire now).2, h.senders, nofun⟩
  | stop hover hends =>
      have hterminal : state.isTerminal = true := h.isTerminal_of_ends hends
      exact ⟨.final state [] hterminal .nil, h.senders, fun _ => hterminal⟩

end Orderly

end ReplicaRing.Replication
