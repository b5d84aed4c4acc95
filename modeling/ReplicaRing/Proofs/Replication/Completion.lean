import ReplicaRing.Proofs.Replication.Orderly

/-!
Replications that hear of all their targets in time: what is in their queues settles whom they wait
for, and the count in the end is complete.
-/

namespace ReplicaRing.Replication

variable {host : Host} {request : Request} {id : UInt64} {roster : Roster} {now : Nat}
  {tally : Tally} {input : Input} {run after : Run Tally State Input} {effects : List Effect}
  {name : String}

namespace Tally

private theorem mem_pending_hear (h : name ∈ (tally.hear request input).pending) :
    name ∈ tally.pending ∧ input.subject? ≠ some name := by
  cases input with
  | reply message =>
      rw [hear] at h
      split at h
      case isTrue =>
        have hrest : name ∈ tally.pending.filter (· ≠ message.replyTo) := by
          cases hvote : request.classify message with
          | none => simpa [hvote, count, settleTarget] using h
          | some vote =>
              cases vote <;> simpa [hvote, count, settleTarget] using h
        simp only [List.mem_filter, decide_eq_true_eq] at hrest
        exact ⟨hrest.1, fun heq => hrest.2 (Option.some.inj heq).symm⟩
      case isFalse hsettled =>
        exact ⟨h, fun heq => hsettled (Option.some.inj heq ▸ h)⟩
  | sendFailed peer =>
      rw [hear] at h
      split at h
      case isTrue =>
        simp only [settleTarget, List.mem_filter, decide_eq_true_eq] at h
        exact ⟨h.1, fun heq => h.2 (Option.some.inj heq).symm⟩
      case isFalse hsettled =>
        exact ⟨h, fun heq => hsettled (Option.some.inj heq ▸ h)⟩
  | _ => exact ⟨h, (Option.some_ne_none name).symm⟩

private theorem failed_hear (h : ∀ peer, input ≠ .sendFailed peer) :
    (tally.hear request input).failed = tally.failed := by
  cases input with
  | reply message =>
      rw [hear]
      split
      · rcases request.classify message with _ | ⟨receipt⟩ | _ <;> rfl
      · rfl
  | sendFailed peer => exact absurd rfl (h peer)
  | _ => rfl

end Tally

/-- While the wait lasts, one of the first inputs in the queue settles this target, if it is still
pending. -/
def Noted (first : Nat) (run : Run Tally State Input) (name : String) : Prop :=
  run.state = .waiting → name ∈ run.memory.pending →
    ∃ message, .input (.reply message) ∈ run.queue.take first ∧ message.replyTo = name

namespace Noted

variable {first : Nat}

theorem mono {more : Nat} (h : Noted first run name) (hle : first ≤ more) :
    Noted more run name := by
  intro hstate hpending
  obtain ⟨message, hmessage, hname⟩ := h hstate hpending
  exact ⟨message, (List.take_subset_take_left _ hle) hmessage, hname⟩

theorem append (h : Noted first run name) (more : List (Command Input)) :
    Noted first { run with queue := run.queue ++ more } name := by
  intro hstate hpending
  obtain ⟨message, hmessage, hname⟩ := h hstate hpending
  refine ⟨message, ?_, hname⟩
  rw [List.take_append]
  exact List.mem_append_left _ hmessage

private theorem eq_hear_of_waiting {state : State} {step : Step}
    (h : Proceeds host request id roster tally state input step) (hsent : state.IsSent)
    (hwaiting : step.state = .waiting) :
    state = .waiting ∧ step.memory = tally.hear request input := by
  cases h with
  | ready => cases hwaiting
  | fail => cases hwaiting
  | fanOut => exact absurd rfl hsent.2
  | hear => exact ⟨rfl, rfl⟩
  | conclude => exact absurd hwaiting (Phase.conclude_ne_waiting _)
  | success => cases hwaiting
  | partialSuccess => cases hwaiting
  | failure => cases hwaiting
  | late _ _ hstate =>
      rw [show state = .waiting from hwaiting] at hstate
      cases hstate

theorem advance (h : Noted first run name) (horderly : Orderly run) (hsent : run.state.IsSent)
    (hadvance : run.advance (automaton host request id) roster now = some (after, effects)) :
    Noted (first - 1) after name := by
  obtain ⟨memory, state, queue, senders, deadline, isOver⟩ := run
  intro hwaiting hpending
  cases Run.advance_cases hadvance with
  | take input rest hover hterminal hqueue =>
      cases hqueue
      obtain ⟨hstate, hmemory⟩ :=
        eq_hear_of_waiting (horderly.phase.take now hterminal).1 hsent hwaiting
      have hpending : name ∈ (react host request id roster memory state input).memory.pending :=
        hpending
      rw [hmemory] at hpending
      obtain ⟨hbefore, hothers⟩ := Tally.mem_pending_hear hpending
      obtain ⟨message, hmessage, hname⟩ := h hstate hbefore
      refine ⟨message, ?_, hname⟩
      cases first with
      | zero => cases hmessage
      | succ first =>
          rcases List.mem_cons.mp hmessage with heq | hrest
          · cases heq
            exact absurd (congrArg some hname) hothers
          · rw [Nat.add_sub_cancel]
            change _ ∈ (rest ++ _).take first
            rw [List.take_append]
            exact List.mem_append_left _ hrest
  | expire due input hover hterminal hqueue hdeadline hdue =>
      cases hqueue
      cases hdeadline
      obtain ⟨hstate, hmemory⟩ :=
        eq_hear_of_waiting (horderly.phase.expire now).1 hsent hwaiting
      have hpending : name ∈ (react host request id roster memory state input).memory.pending :=
        hpending
      rw [hmemory] at hpending
      obtain ⟨message, hmessage, -⟩ := h hstate (Tally.mem_pending_hear hpending).1
      simp at hmessage
  | stop hover hends =>
      have hterminal := horderly.isTerminal_of_ends hends
      rw [show state = .waiting from hwaiting] at hterminal
      cases hterminal

theorem ne_waiting (horderly : Orderly run) (h : ∀ name, Noted 0 run name) :
    run.state ≠ .waiting := by
  intro hwaiting
  obtain ⟨memory, state, queue, senders, deadline, isOver⟩ := run
  cases horderly.phase with
  | start => cases hwaiting
  | sending => cases hwaiting
  | waiting _ _ _ _ hpending =>
      obtain ⟨name, hname⟩ := List.exists_mem_of_ne_nil memory.pending hpending
      obtain ⟨message, hmessage, -⟩ := h name rfl hname
      cases hmessage
  | decided _ _ _ hstate =>
      rw [show state = .waiting from hwaiting] at hstate
      cases hstate
  | final _ _ hstate =>
      rw [show state = .waiting from hwaiting] at hstate
      cases hstate

end Noted

theorem State.IsSent.advance (h : run.state.IsSent)
    (hadvance : run.advance (automaton host request id) roster now = some (after, effects)) :
    after.state.IsSent := by
  cases Run.advance_cases hadvance with
  | take input => exact (react_isSent _ _ _ _ _ h input).1
  | expire _ input => exact (react_isSent _ _ _ _ _ h input).1
  | stop => exact h

private theorem State.isTerminal_of_isDecided {state : State} (h : state.isDecided = true) :
    state.isTerminal = false := by
  cases state <;> first | rfl | cases h

namespace Orderly

theorem advance_unsent (h : Orderly run) (hunsent : ¬run.state.IsSent)
    (hplan : ∃ targets message, plan host request id roster = .ok (targets, message))
    (hadvance : run.advance (automaton host request id) roster now = some (after, effects)) :
    run.state = .start ∧ after.state = .sending ∨ run.state = .sending ∧ after.state = .waiting := by
  obtain ⟨memory, state, queue, senders, deadline, isOver⟩ := run
  cases Run.advance_cases hadvance with
  | take input rest hover hterminal hqueue =>
      cases hqueue
      have hproceeds := (h.phase.take now hterminal : Proceeds host request id roster _ _ _ _ ∧ _).1
      change state = .start ∧ (react host request id roster memory state input).state = .sending ∨
        state = .sending ∧ (react host request id roster memory state input).state = .waiting
      generalize react host request id roster memory state input = step at hproceeds
      cases hproceeds with
      | ready => exact .inl ⟨rfl, rfl⟩
      | fail error herror =>
          obtain ⟨targets, message, hplan⟩ := hplan
          rw [hplan] at herror
          cases herror
      | fanOut => exact .inr ⟨rfl, rfl⟩
      | late _ _ hstate => exact absurd (.of_isDecided hstate) hunsent
      | hear | conclude => exact absurd .waiting hunsent
      | success | partialSuccess | failure => exact absurd (.of_isDecided rfl) hunsent
  | expire due input hover hterminal hqueue hdeadline =>
      have hphase := h.phase
      rw [show deadline = some (due, input) from hdeadline] at hphase
      have hwaiting : state = .waiting := hphase.eq_waiting.1
      subst hwaiting
      exact absurd .waiting hunsent
  | stop hover hends =>
      exact absurd (.of_isTerminal (h.isTerminal_of_ends hends)) hunsent

theorem advance_decided (h : Orderly run) (hdecided : run.state.isDecided = true)
    {before rest : List (Command Input)} (hqueue : run.queue = before ++ .input .settle :: rest)
    (hreports : Reports before)
    (hadvance : run.advance (automaton host request id) roster now = some (after, effects)) :
    before = [] ∧ after.state.isTerminal = true ∨
      ∃ first others, before = first :: others ∧ after.state = run.state ∧
        after.queue = others ++ .input .settle :: rest := by
  obtain ⟨memory, state, queue, senders, deadline, isOver⟩ := run
  cases hqueue
  cases Run.advance_cases hadvance with
  | expire _ _ _ _ hempty => simp at hempty
  | stop _ hends =>
      have hterminal : state.isTerminal = true := h.isTerminal_of_ends hends
      exact absurd hterminal (Bool.eq_false_iff.mp (State.isTerminal_of_isDecided hdecided))
  | take input remaining _ hterminal hhead =>
      have hphase := h.phase
      rw [hhead] at hphase
      have hproceeds := (hphase.take now hterminal : Proceeds host request id roster _ _ _ _ ∧ _).1
      have hstate : state.isDecided = true := hdecided
      cases before with
      | nil =>
          cases hhead
          refine .inl ⟨rfl, ?_⟩
          change (react host request id roster memory state .settle).state.isTerminal = true
          generalize hinput : Input.settle = input at hproceeds
          generalize react host request id roster memory state input = step at hproceeds
          cases hproceeds with
          | success | partialSuccess | failure => rfl
          | late _ _ _ hreport =>
              subst hinput
              cases hreport
          | _ => cases hstate
      | cons first others =>
          cases hhead
          have hreport := hreports.head
          refine .inr ⟨_, others, rfl, ?_⟩
          change (react host request id roster memory state input).state = state ∧
            others ++ Command.input .settle :: rest ++
              (react host request id roster memory state input).queued.map .input = _
          generalize react host request id roster memory state input = step at hproceeds
          cases hproceeds with
          | late => exact ⟨rfl, List.append_nil _⟩
          | success | partialSuccess | failure => cases hreport
          | _ => cases hstate

end Orderly

/-- What the count says in each state when all targets have replied. -/
def State.Tells (tally : Tally) : State → Prop
  | .start | .sending | .waiting => True
  | .fullAck => tally.pending = [] ∧ tally.acks = tally.targets
  | .partialAck => tally.pending = [] ∧ tally.acks ≠ tally.targets ∧ 0 < tally.acks
  | .noAck => tally.pending = [] ∧ tally.acks = 0
  | .success receipt =>
      tally.pending = [] ∧ tally.acks = tally.targets ∧ tally.receipt = some receipt
  | .partialSuccess receipt =>
      tally.pending = [] ∧ tally.acks ≠ tally.targets ∧ 0 < tally.acks ∧
        tally.receipt = some receipt
  | .failure nacks targets =>
      tally.pending = [] ∧ tally.acks = 0 ∧ nacks = tally.nacks ∧ targets = tally.targets
  | .error => False

theorem State.Tells.pending {state : State} (h : state.Tells tally)
    (hterminal : state.isTerminal = true) : tally.pending = [] := by
  cases state with
  | success | partialSuccess | failure => exact h.1
  | error => cases h
  | _ => cases hterminal

theorem State.Tells.terminal {state : State} (h : state.Tells tally)
    (hterminal : state.isTerminal = true) :
    tally.acks = 0 ∧ state = .failure tally.nacks tally.targets ∨
      tally.acks = tally.targets ∧
        (∃ receipt, tally.receipt = some receipt ∧ state = .success receipt) ∨
      tally.acks ≠ tally.targets ∧ 0 < tally.acks ∧
        ∃ receipt, tally.receipt = some receipt ∧ state = .partialSuccess receipt := by
  cases state with
  | success receipt => exact .inr (.inl ⟨h.2.1, receipt, h.2.2, rfl⟩)
  | partialSuccess receipt => exact .inr (.inr ⟨h.2.1, h.2.2.1, receipt, h.2.2.2, rfl⟩)
  | failure nacks targets =>
      obtain ⟨-, hacks, rfl, rfl⟩ := h
      exact .inl ⟨hacks, rfl⟩
  | error => cases h
  | _ => cases hterminal

/-- Nobody could not be sent to, and the wait has not been cut short. -/
structure Unhindered (run : Run Tally State Input) : Prop where
  failed : run.memory.failed = 0
  sends : ∀ peer, .input (.sendFailed peer) ∉ run.queue
  tells : run.state.Tells run.memory

namespace Unhindered

theorem start (host : Host) (request : Request) (id : UInt64) (now : Nat) :
    Unhindered ((Run.start (automaton host request id) now {} .start 1).push (.input .start)) :=
  ⟨rfl, by simp [Run.push, Run.start], trivial⟩

theorem reply (h : Unhindered run) (message : Message) :
    Unhindered (run.push (.input (.reply message))) := by
  unfold Run.push
  split
  · exact h
  · exact ⟨h.failed, by simpa using h.sends, h.tells⟩

private theorem conclude {tally : Tally} (hcounts : tally.Counts) (hfailed : tally.failed = 0)
    (hpending : tally.pending = []) : tally.conclude.state.Tells tally := by
  have htargets := hcounts.targets
  unfold Tally.conclude
  rw [if_neg (by omega)]
  simp only
  split
  case isTrue hacks => exact ⟨hpending, hacks⟩
  case isFalse hacks =>
    split
    case isTrue hsome => exact ⟨hpending, hacks, hsome⟩
    case isFalse hnone => exact ⟨hpending, Nat.eq_zero_of_not_pos hnone⟩

private theorem proceed {state : State} {step : Step} (horderly : state = .waiting → tally.Counts)
    (hproceeds : Proceeds host request id roster tally state input step)
    (hplan : ∃ targets message, plan host request id roster = .ok (targets, message))
    (hfailed : tally.failed = 0) (htells : state.Tells tally)
    (hsends : ∀ peer, input ≠ .sendFailed peer) (htimeout : input ≠ .timeout) :
    step.memory.failed = 0 ∧ step.state.Tells step.memory := by
  cases hproceeds with
  | ready => exact ⟨hfailed, trivial⟩
  | fail error herror =>
      obtain ⟨targets, message, hplan⟩ := hplan
      rw [hplan] at herror
      cases herror
  | fanOut targets message _ => exact ⟨hfailed, trivial⟩
  | hear => exact ⟨(Tally.failed_hear hsends).trans hfailed, trivial⟩
  | conclude _ _ hpending =>
      have hnone : (tally.hear request input).failed = 0 :=
        (Tally.failed_hear hsends).trans hfailed
      rw [Tally.conclude_memory]
      exact ⟨hnone, conclude ((horderly rfl).hear request input) hnone
        (hpending.resolve_left htimeout)⟩
  | success receipt hreceipt => exact ⟨hfailed, htells.1, htells.2, hreceipt⟩
  | partialSuccess receipt hreceipt =>
      exact ⟨hfailed, htells.1, htells.2.1, htells.2.2, hreceipt⟩
  | failure => exact ⟨hfailed, htells.1, htells.2, rfl, rfl⟩
  | late => exact ⟨hfailed, htells⟩

theorem advance (h : Unhindered run) (horderly : Orderly run)
    (hplan : ∃ targets message, plan host request id roster = .ok (targets, message))
    (hadvance : run.advance (automaton host request id) roster now = some (after, effects))
    (hintime : ∀ input, run.next (automaton host request id) now ≠ .expire input) :
    Unhindered after := by
  obtain ⟨memory, state, queue, senders, deadline, isOver⟩ := run
  have hcounts : state = .waiting → memory.Counts := by
    rintro rfl
    cases horderly.phase with
    | waiting _ _ _ hcounts => exact hcounts
    | decided _ _ _ hstate => cases hstate
    | final _ _ hstate => cases hstate
  cases Run.advance_cases hadvance with
  | take input rest hover hterminal hqueue =>
      cases hqueue
      have hsends : ∀ peer, input ≠ .sendFailed peer := by
        rintro peer rfl
        exact h.sends peer List.mem_cons_self
      obtain ⟨other, hother, htimeout⟩ := horderly.phase.input_of_mem List.mem_cons_self
      cases hother
      obtain ⟨hfailed, htells⟩ := proceed hcounts (horderly.phase.take now hterminal).1 hplan
        h.failed h.tells hsends htimeout
      refine ⟨hfailed, fun peer hmem => ?_, htells⟩
      rcases List.mem_append.mp hmem with hold | hnew
      · exact h.sends peer (List.mem_cons_of_mem _ hold)
      · obtain ⟨queued, hqueued, heq⟩ := List.mem_map.mp hnew
        cases heq
        rcases react_queued hqueued with hsend | hsettle
        · cases hsend
        · cases hsettle
  | expire due input hover hterminal hqueue hdeadline hdue =>
      exact absurd (Run.next_expire hover hterminal hqueue hdeadline hdue) (hintime input)
  | stop => exact ⟨h.failed, fun _ => List.not_mem_nil, h.tells⟩

end Unhindered

end ReplicaRing.Replication
