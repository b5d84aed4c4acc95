import ReplicaRing.Proofs.Automaton.Order

/-!
What an automaton is fed, as a history that is extended at its end, and what may come next in such a
history.  Nothing here knows of queues or deadlines: both are read off the history.
-/

namespace ReplicaRing

structure Feeding (View Input : Type) where
  time : Nat
  view : View
  input : Input
  /-- The input came from the deadline and not from the queue. -/
  isTimeout : Bool
  queued : List Input

inductive Signal (Input : Type)
  | send (command : Command Input)
  | drop

inductive Episode (View State Input Effect : Type)
  | sent (time : Nat) (command : Command Input)
  | refused (time : Nat) (command : Command Input)
  | dropped (time : Nat)
  | fed (feeding : Feeding View Input)
  | ended (time : Nat) (result : State) (effects : List Effect)

namespace Episode

variable {View State Input Effect : Type}

def signal? : Episode View State Input Effect → Option (Nat × Signal Input)
  | sent time command => some (time, .send command)
  | refused time command => some (time, .send command)
  | dropped time => some (time, .drop)
  | _ => none

def commands : Episode View State Input Effect → List (Command Input)
  | sent _ command => [command]
  | fed feeding => feeding.queued.map .input
  | _ => []

def taken : Episode View State Input Effect → List Input
  | fed feeding => if feeding.isTimeout then [] else [feeding.input]
  | _ => []

def isDropped : Episode View State Input Effect → Bool
  | dropped _ => true
  | _ => false

def isTimeout : Episode View State Input Effect → Bool
  | fed feeding => feeding.isTimeout
  | _ => false

def isEnded : Episode View State Input Effect → Bool
  | ended _ _ _ => true
  | _ => false

end Episode

abbrev History (View State Input Effect : Type) := List (Episode View State Input Effect)

namespace History

variable {View Memory State Input Effect : Type}

def signals (history : History View State Input Effect) : List (Nat × Signal Input) :=
  history.filterMap Episode.signal?

/-- Everything that was put into the queue, in that order. -/
def commands (history : History View State Input Effect) : List (Command Input) :=
  history.flatMap Episode.commands

def taken (history : History View State Input Effect) : List Input :=
  history.flatMap Episode.taken

def waiting (history : History View State Input Effect) : List (Command Input) :=
  (commands history).drop (taken history).length

def drops (history : History View State Input Effect) : Nat :=
  history.countP Episode.isDropped

def endings (history : History View State Input Effect) : Nat :=
  history.countP Episode.isEnded

variable (automaton : Automaton View Memory State Input Effect)

def transition (before : Memory × State) : Episode View State Input Effect → Memory × State
  | .fed feeding =>
      let reaction := automaton.react feeding.view before.1 before.2 feeding.input
      (reaction.memory, reaction.state)
  | _ => before

/-- The fold of all transitions from what there was at the start. -/
def outcome (start : Memory × State) (history : History View State Input Effect) : Memory × State :=
  history.foldl (transition automaton) start

/-- After the history the automaton is in a state that it entered at the given time, and the later
episodes are what happened since. -/
inductive Stay (time : Nat) (start : Memory × State) :
    History View State Input Effect → Nat → History View State Input Effect → Prop
  | start : Stay time start [] time []
  | enter (history : History View State Input Effect) (feeding : Feeding View Input)
      (hchange : (outcome automaton start (history ++ [.fed feeding])).2
        ≠ (outcome automaton start history).2) :
      Stay time start (history ++ [.fed feeding]) feeding.time []
  | remain (history : History View State Input Effect) (entered : Nat)
      (later : History View State Input Effect) (episode : Episode View State Input Effect)
      (hstay : Stay time start history entered later)
      (hsame : (outcome automaton start (history ++ [episode])).2
        = (outcome automaton start history).2) :
      Stay time start (history ++ [episode]) entered (later ++ [episode])

/-- The deadline is the one of the state that the automaton is in, counted from when it was entered,
until it was used. -/
def Deadline (time : Nat) (start : Memory × State) (history : History View State Input Effect)
    (deadline : Option (Nat × Input)) : Prop :=
  ∃ entered later, Stay automaton time start history entered later ∧
    deadline = if later.any Episode.isTimeout then none
      else (automaton.timeout (outcome automaton start history).2).map fun (after, input) =>
        (entered + after, input)

inductive Ends (time : Nat) (start : Memory × State) (senders : Nat)
    (history : History View State Input Effect) : Prop
  | terminal (hterminal : automaton.isTerminal (outcome automaton start history).2 = true)
  | terminated (hwaiting : (waiting history).head? = some .terminate)
  | deserted (hwaiting : waiting history = []) (hsenders : senders ≤ drops history)
      (hdeadline : Deadline automaton time start history none)

inductive Follows (time : Nat) (start : Memory × State) (senders : Nat)
    (history : History View State Input Effect) : Episode View State Input Effect → Prop
  | sent (now : Nat) (command : Command Input) (hopen : endings history = 0) :
      Follows time start senders history (.sent now command)
  | refused (now : Nat) (command : Command Input) (hclosed : endings history ≠ 0) :
      Follows time start senders history (.refused now command)
  | dropped (now : Nat) : Follows time start senders history (.dropped now)
  | take (feeding : Feeding View Input) (hopen : endings history = 0)
      (hterminal : automaton.isTerminal (outcome automaton start history).2 = false)
      (hwaiting : (waiting history).head? = some (.input feeding.input))
      (hdeadline : ∃ deadline, Deadline automaton time start history deadline ∧
        ∀ due timeout, deadline = some (due, timeout) → feeding.time ≤ due)
      (htimeout : feeding.isTimeout = false)
      (hqueued : feeding.queued = (automaton.react feeding.view (outcome automaton start history).1
        (outcome automaton start history).2 feeding.input).queued) :
      Follows time start senders history (.fed feeding)
  | expire (feeding : Feeding View Input) (hopen : endings history = 0)
      (hterminal : automaton.isTerminal (outcome automaton start history).2 = false)
      (hwaiting : waiting history = [])
      (hdeadline : Deadline automaton time start history (some (feeding.time, feeding.input)))
      (htimeout : feeding.isTimeout = true)
      (hqueued : feeding.queued = (automaton.react feeding.view (outcome automaton start history).1
        (outcome automaton start history).2 feeding.input).queued) :
      Follows time start senders history (.fed feeding)
  | ended (now : Nat) (hopen : endings history = 0)
      (hends : Ends automaton time start senders history) :
      Follows time start senders history
        (.ended now (outcome automaton start history).2
          (automaton.retire (outcome automaton start history).1
            (outcome automaton start history).2))

/-- Every episode may come where it stands. -/
def Conforms (time : Nat) (start : Memory × State) (senders : Nat)
    (history : History View State Input Effect) : Prop :=
  ∀ before episode after, history = before ++ episode :: after →
    Follows automaton time start senders before episode

section Small

variable (history : History View State Input Effect) (episode : Episode View State Input Effect)

@[simp] theorem signals_snoc :
    signals (history ++ [episode]) = signals history ++ episode.signal?.toList := by
  cases hepisode : episode.signal? <;> simp [signals, hepisode]

@[simp] theorem commands_snoc :
    commands (history ++ [episode]) = commands history ++ episode.commands := by
  simp [commands]

@[simp] theorem taken_snoc : taken (history ++ [episode]) = taken history ++ episode.taken := by
  simp [taken]

@[simp] theorem drops_snoc :
    drops (history ++ [episode]) = drops history + if episode.isDropped then 1 else 0 := by
  simp [drops, List.countP_append, List.countP_singleton]

@[simp] theorem endings_snoc :
    endings (history ++ [episode]) = endings history + if episode.isEnded then 1 else 0 := by
  simp [endings, List.countP_append, List.countP_singleton]

@[simp] theorem outcome_snoc (start : Memory × State) :
    outcome automaton start (history ++ [episode])
      = transition automaton (outcome automaton start history) episode := by
  simp [outcome]

end Small

variable {automaton} {time senders : Nat} {start : Memory × State}
  {history before after : History View State Input Effect} {episode : Episode View State Input Effect}

private theorem eq_or_of_snoc_eq {last : Episode View State Input Effect}
    (h : history ++ [last] = before ++ episode :: after) :
    (history = before ∧ last = episode) ∨ ∃ rest, history = before ++ episode :: rest := by
  rcases List.eq_nil_or_concat after with rfl | ⟨rest, final, rfl⟩
  · obtain ⟨hhistory, hlast⟩ := List.append_inj' h rfl
    exact .inl ⟨hhistory, List.singleton_inj.mp hlast⟩
  · have h : history ++ [last] = (before ++ episode :: rest) ++ [final] := by simpa using h
    exact .inr ⟨rest, (List.append_inj' h rfl).1⟩

theorem Conforms.nil : Conforms automaton time start senders [] := by
  intro before episode after h
  simp at h

theorem Conforms.snoc (h : Conforms automaton time start senders history)
    (hnext : Follows automaton time start senders history episode) :
    Conforms automaton time start senders (history ++ [episode]) := by
  intro before last after heq
  rcases eq_or_of_snoc_eq heq with ⟨rfl, rfl⟩ | ⟨rest, hold⟩
  · exact hnext
  · exact h before last rest hold

section Deadlines

theorem Deadline.init (automaton : Automaton View Memory State Input Effect) (time : Nat)
    (start : Memory × State) :
    Deadline automaton time start [] (Run.arm automaton time start.2) :=
  ⟨time, [], .start, rfl⟩

theorem Deadline.enter {deadline : Option (Nat × Input)} (feeding : Feeding View Input)
    (hchange : (outcome automaton start (history ++ [.fed feeding])).2
      ≠ (outcome automaton start history).2)
    (hdeadline : deadline = Run.arm automaton feeding.time
      (outcome automaton start (history ++ [.fed feeding])).2) :
    Deadline automaton time start (history ++ [.fed feeding]) deadline :=
  ⟨feeding.time, [], .enter history feeding hchange, hdeadline⟩

theorem Deadline.remain {deadline : Option (Nat × Input)}
    (h : Deadline automaton time start history deadline)
    (hsame : (outcome automaton start (history ++ [episode])).2
      = (outcome automaton start history).2) :
    Deadline automaton time start (history ++ [episode])
      (if episode.isTimeout then none else deadline) := by
  obtain ⟨entered, later, hstay, rfl⟩ := h
  refine ⟨entered, later ++ [episode], .remain history entered later episode hstay hsame, ?_⟩
  rw [hsame]
  cases hepisode : episode.isTimeout <;> cases hlater : later.any Episode.isTimeout <;>
    simp [hepisode, hlater]

theorem Deadline.due {due : Nat} {input : Input}
    (h : Deadline automaton time start history (some (due, input))) :
    ∃ entered later duration, Stay automaton time start history entered later ∧
      (∀ episode ∈ later, episode.isTimeout = false) ∧
      automaton.timeout (outcome automaton start history).2 = some (duration, input) ∧
      due = entered + duration := by
  obtain ⟨entered, later, hstay, hsome⟩ := h
  split at hsome
  · cases hsome
  case isFalse hunused =>
    obtain ⟨⟨duration, timeout⟩, htimeout, heq⟩ := Option.map_eq_some_iff.mp hsome.symm
    cases heq
    refine ⟨entered, later, duration, hstay, ?_, htimeout, rfl⟩
    intro episode hepisode
    simp only [List.any_eq_true, not_exists, not_and] at hunused
    simpa using hunused episode hepisode

private theorem Stay.unique {entered other : Nat} {later rest : History View State Input Effect}
    (h : Stay automaton time start history entered later)
    (hother : Stay automaton time start history other rest) : entered = other ∧ later = rest := by
  induction h generalizing other rest with
  | start =>
      generalize hempty : ([] : History View State Input Effect) = empty at hother
      cases hother with
      | start => exact ⟨rfl, rfl⟩
      | enter => simp at hempty
      | remain => simp at hempty
  | enter history feeding hchange =>
      generalize hfull : history ++ [.fed feeding] = full at hother
      cases hother with
      | start => simp at hfull
      | enter history' feeding' =>
          obtain ⟨-, hlast⟩ := List.append_inj' hfull rfl
          cases hlast
          exact ⟨rfl, rfl⟩
      | remain history' _ _ episode' _ hsame =>
          obtain ⟨rfl, hlast⟩ := List.append_inj' hfull rfl
          cases hlast
          exact absurd hsame hchange
  | remain history entered later episode _ hsame ih =>
      generalize hfull : history ++ [episode] = full at hother
      cases hother with
      | start => simp at hfull
      | enter history' feeding' hchange =>
          obtain ⟨rfl, hlast⟩ := List.append_inj' hfull rfl
          cases hlast
          exact absurd hsame hchange
      | remain history' _ later' episode' hstay =>
          obtain ⟨rfl, hlast⟩ := List.append_inj' hfull rfl
          cases hlast
          obtain ⟨rfl, rfl⟩ := ih hstay
          exact ⟨rfl, rfl⟩

theorem Deadline.unique {deadline other : Option (Nat × Input)}
    (h : Deadline automaton time start history deadline)
    (hother : Deadline automaton time start history other) : deadline = other := by
  obtain ⟨entered, later, hstay, rfl⟩ := h
  obtain ⟨entered', later', hstay', rfl⟩ := hother
  obtain ⟨rfl, rfl⟩ := hstay.unique hstay'
  rfl

end Deadlines

end History

end ReplicaRing
