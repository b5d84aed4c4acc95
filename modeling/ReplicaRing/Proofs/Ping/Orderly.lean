import ReplicaRing.Ping
import ReplicaRing.Proofs.Automaton.Order

/-!
What is in the queue of a ping in each of its states, and which deadline is armed.  While the answer
waits to be settled only more replies can be before it: a send that fails gets no answer.
-/

namespace ReplicaRing.Ping

def IsAnswer (target : String) (reply : Message) : Prop :=
  reply.verb = Verb.pong ∧ reply.replyTo = target

def Input.isReport : Input → Bool
  | .pong _ | .sendFailed => true
  | _ => false

def State.expects : State → Input → Bool
  | .start, .start | .sent, .settle => true
  | .waiting, .pong _ | .waiting, .sendFailed | .waiting, .timeout => true
  | .received, .settle | .received, .pong _ => true
  | _, _ => false

variable {host : Host} {target : String} {id : UInt64} {roster : Roster} {memory : Memory}
  {state : State} {input : Input} {now : Nat}

/-- Whatever a state is not prepared for is an error. -/
theorem react_of_unexpected (h : state.expects input = false) :
    react host target id roster memory state input = { memory, state := .error } := by
  unfold react
  split
  case h_8 => rfl
  all_goals cases h

theorem react_ne_start : (react host target id roster memory state input).state ≠ .start := by
  unfold react
  split
  case h_1 => split <;> exact nofun
  case h_3 => split <;> exact nofun
  all_goals exact nofun

theorem react_queued {queued : Input}
    (h : queued ∈ (react host target id roster memory state input).queued) : queued = .settle := by
  unfold react at h
  split at h
  case h_1 =>
    split at h
    · exact List.mem_singleton.mp h
    · cases h
  case h_3 =>
    split at h
    · exact List.mem_singleton.mp h
    · cases h
  all_goals cases h

inductive Proceeds (host : Host) (target : String) (id : UInt64) (roster : Roster)
    (memory : Memory) : State → Input → Step → Prop
  | depart (peer : Peer) (hpeer : roster.find? target = some peer) :
      Proceeds host target id roster memory .start .start
        { memory := { memory with routed := true }, state := .sent, queued := [.settle],
          effects := [.route id, .send peer (message host id)] }
  | miss (hnone : roster.find? target = none) :
      Proceeds host target id roster memory .start .start { memory, state := .error }
  | listen : Proceeds host target id roster memory .sent .settle { memory, state := .waiting }
  | answer (reply : Message) (hanswer : IsAnswer target reply) :
      Proceeds host target id roster memory .waiting (.pong reply)
        { memory, state := .received, queued := [.settle] }
  | stray (reply : Message) (hstray : ¬IsAnswer target reply) :
      Proceeds host target id roster memory .waiting (.pong reply) { memory, state := .waiting }
  | fail : Proceeds host target id roster memory .waiting .sendFailed { memory, state := .error }
  | expire : Proceeds host target id roster memory .waiting .timeout { memory, state := .timeout }
  | again (reply : Message) :
      Proceeds host target id roster memory .received (.pong reply) { memory, state := .received }
  | settle : Proceeds host target id roster memory .received .settle { memory, state := .success }

theorem proceeds (h : state.expects input = true) :
    Proceeds host target id roster memory state input
      (react host target id roster memory state input) := by
  unfold State.expects at h
  split at h
  case h_1 =>
    rw [react]
    split
    case h_1 peer hpeer => exact .depart peer hpeer
    case h_2 hnone => exact .miss hnone
  case h_2 => exact .listen
  case h_3 reply =>
    rw [react]
    split
    case isTrue hanswer => exact .answer reply hanswer
    case isFalse hstray => exact .stray reply hstray
  case h_4 => exact .fail
  case h_5 => exact .expire
  case h_6 => exact .settle
  case h_7 reply => exact .again reply
  case h_8 => cases h

/-- A state with the inputs and the deadline that a ping has in it. -/
inductive Phase : State → List Input → Option (Nat × Input) → Prop
  | start : Phase .start [.start] none
  | sent (reports : List Input) (hreports : ∀ input ∈ reports, input.isReport = true) :
      Phase .sent (.settle :: reports) none
  | waiting (reports : List Input) (time : Nat)
      (hreports : ∀ input ∈ reports, input.isReport = true) :
      Phase .waiting reports (some (time, .timeout))
  | received (replies reports : List Input)
      (hreplies : ∀ input ∈ replies, ∃ reply, input = .pong reply)
      (hreports : ∀ input ∈ reports, input.isReport = true) :
      Phase .received (replies ++ .settle :: reports) none
  | final (state : State) (inputs : List Input) (hstate : state.isTerminal = true) :
      Phase state inputs none

namespace Phase

variable {inputs : List Input} {deadline : Option (Nat × Input)}

theorem push (h : Phase state inputs deadline) (hstarted : state ≠ .start)
    (hinput : input.isReport = true) : Phase state (inputs ++ [input]) deadline := by
  have hmore : ∀ {reports : List Input}, (∀ input ∈ reports, input.isReport = true) →
      ∀ other ∈ reports ++ [input], other.isReport = true := by
    intro reports hreports other hother
    rcases List.mem_append.mp hother with hold | hnew
    · exact hreports other hold
    · exact List.mem_singleton.mp hnew ▸ hinput
  cases h with
  | start => exact absurd rfl hstarted
  | sent reports hreports => exact .sent _ (hmore hreports)
  | waiting reports time hreports => exact .waiting _ time (hmore hreports)
  | received replies reports hreplies hreports =>
      rw [List.append_assoc, List.cons_append]
      exact .received replies _ hreplies (hmore hreports)
  | final state inputs hstate => exact .final state _ hstate

theorem expects (h : Phase state (input :: inputs) deadline) (hterminal : state.isTerminal = false) :
    state.expects input = true ∧ input ≠ .timeout := by
  generalize hqueue : input :: inputs = queue at h
  cases h with
  | start | sent =>
      cases hqueue
      exact ⟨rfl, nofun⟩
  | waiting _ _ hreports =>
      subst hqueue
      have hreport := hreports input List.mem_cons_self
      cases input with
      | pong | sendFailed => exact ⟨rfl, nofun⟩
      | _ => cases hreport
  | received replies reports hreplies hreports =>
      cases replies with
      | nil =>
          cases hqueue
          exact ⟨rfl, nofun⟩
      | cons first rest =>
          cases hqueue
          obtain ⟨reply, rfl⟩ := hreplies _ List.mem_cons_self
          exact ⟨rfl, nofun⟩
  | final _ _ hstate =>
      rw [hstate] at hterminal
      cases hterminal

theorem eq_waiting {time : Nat} (h : Phase state inputs (some (time, input))) :
    state = .waiting ∧ input = .timeout := by
  generalize hdeadline : some (time, input) = deadline at h
  cases h with
  | waiting =>
      cases hdeadline
      exact ⟨rfl, rfl⟩
  | _ => cases hdeadline

theorem deadline_eq_none (h : Phase state inputs deadline) (hstate : state ≠ .waiting) :
    deadline = none := by
  cases h with
  | waiting => exact absurd rfl hstate
  | _ => rfl

/-- The phase after an input that came in its turn.  An answer must not have the failure of its send
behind it. -/
theorem take {step : Step} (h : Phase state (input :: inputs) deadline)
    (hproceeds : Proceeds host target id roster memory state input step)
    (hquiet : ∀ reply, input = .pong reply → IsAnswer target reply → .sendFailed ∉ inputs) :
    Phase step.state (inputs ++ step.queued)
      (if step.state = state then deadline
        else Run.arm (automaton host target id) now step.state) := by
  generalize hqueue : input :: inputs = queue at h
  cases hproceeds with
  | depart =>
      cases h with
      | start =>
          cases hqueue
          exact .sent [] nofun
      | final _ _ hstate => cases hstate
  | miss | fail | expire | settle => exact .final _ _ rfl
  | listen =>
      cases h with
      | sent reports hreports =>
          cases hqueue
          rw [List.append_nil]
          exact .waiting _ _ hreports
      | final _ _ hstate => cases hstate
  | answer reply hanswer =>
      cases h with
      | waiting _ time hreports =>
          subst hqueue
          -- Behind an answer there are reports, and none of them is a failed send.
          refine .received inputs [] (fun other hother => ?_) nofun
          have hreport := hreports other (List.mem_cons_of_mem _ hother)
          cases other with
          | pong reply => exact ⟨reply, rfl⟩
          | sendFailed => exact absurd hother (hquiet reply rfl hanswer)
          | _ => cases hreport
      | final _ _ hstate => cases hstate
  | stray =>
      cases h with
      | waiting _ time hreports =>
          subst hqueue
          rw [List.append_nil]
          exact .waiting _ time fun other hother => hreports other (List.mem_cons_of_mem _ hother)
      | final _ _ hstate => cases hstate
  | again reply =>
      cases h with
      | received replies reports hreplies hreports =>
          cases replies with
          | nil => cases hqueue
          | cons first rest =>
              cases hqueue
              rw [List.append_nil]
              exact .received rest reports
                (fun other hother => hreplies other (List.mem_cons_of_mem _ hother)) hreports
      | final _ _ hstate => cases hstate

end Phase

end ReplicaRing.Ping
