import ReplicaRing.Proofs.Automaton.Moves

/-! The order in which a run takes what it is given: the queue from its front, then the deadline. -/

namespace ReplicaRing.Run

variable {View Memory State Input Effect : Type} [DecidableEq State]
  {automaton : Automaton View Memory State Input Effect} {view : View} {now : Nat}
  {run : Run Memory State Input}

inductive Ends (automaton : Automaton View Memory State Input Effect)
    (run : Run Memory State Input) : Prop
  | terminal (hterminal : automaton.isTerminal run.state = true)
  | terminated (queue : List (Command Input)) (hqueue : run.queue = .terminate :: queue)
  | deserted (hqueue : run.queue = []) (hdeadline : run.deadline = none) (hsenders : run.senders = 0)

/-- What a run does next, and why. -/
inductive Chooses (automaton : Automaton View Memory State Input Effect) (now : Nat)
    (run : Run Memory State Input) : Move Input → Prop
  | take (input : Input) (queue : List (Command Input)) (hover : run.isOver = false)
      (hterminal : automaton.isTerminal run.state = false)
      (hqueue : run.queue = .input input :: queue) : Chooses automaton now run (.take input queue)
  | expire (time : Nat) (input : Input) (hover : run.isOver = false)
      (hterminal : automaton.isTerminal run.state = false) (hqueue : run.queue = [])
      (hdeadline : run.deadline = some (time, input)) (hdue : time ≤ now) :
      Chooses automaton now run (.expire input)
  | stop (hover : run.isOver = false) (hends : run.Ends automaton) :
      Chooses automaton now run .stop
  | rest (hover : run.isOver = true) : Chooses automaton now run .wait
  | wait (hover : run.isOver = false) (hterminal : automaton.isTerminal run.state = false)
      (hqueue : run.queue = [])
      (hdeadline : ∀ time input, run.deadline = some (time, input) → now < time)
      (hsenders : run.deadline = none → run.senders ≠ 0) : Chooses automaton now run .wait

omit [DecidableEq State] in
theorem next_cases (automaton : Automaton View Memory State Input Effect) (now : Nat)
    (run : Run Memory State Input) : Chooses automaton now run (run.next automaton now) := by
  unfold next
  split
  case isTrue hover => exact .rest hover
  case isFalse hover =>
    have hover : run.isOver = false := by simpa using hover
    split
    case isTrue hterminal => exact .stop hover (.terminal hterminal)
    case isFalse hterminal =>
      have hterminal : automaton.isTerminal run.state = false := by simpa using hterminal
      split
      case h_1 input queue hqueue => exact .take input queue hover hterminal hqueue
      case h_2 queue hqueue => exact .stop hover (.terminated queue hqueue)
      case h_3 hqueue =>
        split
        case h_1 time input hdeadline =>
          split
          case isTrue hdue => exact .expire time input hover hterminal hqueue hdeadline hdue
          case isFalse hlater =>
            refine .wait hover hterminal hqueue (fun other timeout hother => ?_) fun hnone => ?_
            · rw [hdeadline] at hother
              cases hother
              exact Nat.lt_of_not_le hlater
            · rw [hdeadline] at hnone
              cases hnone
        case h_2 hdeadline =>
          split
          case isTrue hsenders => exact .stop hover (.deserted hqueue hdeadline hsenders)
          case isFalse hsenders =>
            refine .wait hover hterminal hqueue (fun time input hsome => ?_) fun _ => hsenders
            rw [hdeadline] at hsome
            cases hsome

omit [DecidableEq State] in
theorem next_take {input : Input} {queue : List (Command Input)} (hover : run.isOver = false)
    (hterminal : automaton.isTerminal run.state = false)
    (hqueue : run.queue = .input input :: queue) :
    run.next automaton now = .take input queue := by
  simp [next, hover, hterminal, hqueue]

omit [DecidableEq State] in
theorem next_expire {time : Nat} {input : Input} (hover : run.isOver = false)
    (hterminal : automaton.isTerminal run.state = false) (hqueue : run.queue = [])
    (hdeadline : run.deadline = some (time, input)) (hdue : time ≤ now) :
    run.next automaton now = .expire input := by
  simp [next, hover, hterminal, hqueue, hdeadline, hdue]

omit [DecidableEq State] in
theorem next_stop (hover : run.isOver = false) (hends : run.Ends automaton) :
    run.next automaton now = .stop := by
  cases hends with
  | terminal hterminal => simp [next, hover, hterminal]
  | terminated queue hqueue => simp [next, hover, hqueue]
  | deserted hqueue hdeadline hsenders => simp [next, hover, hqueue, hdeadline, hsenders]

omit [DecidableEq State] in
theorem next_wait (hterminal : automaton.isTerminal run.state = false) (hqueue : run.queue = [])
    (hdeadline : ∀ time input, run.deadline = some (time, input) → now < time)
    (hsenders : run.deadline = none → run.senders ≠ 0) : run.next automaton now = .wait := by
  cases hover : run.isOver with
  | true => simp [next, hover]
  | false =>
      cases hsome : run.deadline with
      | none => simp [next, hover, hterminal, hqueue, hsome, hsenders hsome]
      | some deadline =>
          have hlater := hdeadline deadline.1 deadline.2 hsome
          simp [next, hover, hterminal, hqueue, hsome, Nat.not_le_of_lt hlater]

inductive Advances (automaton : Automaton View Memory State Input Effect) (view : View) (now : Nat)
    (run : Run Memory State Input) : Run Memory State Input → List Effect → Prop
  | take (input : Input) (queue : List (Command Input)) (hover : run.isOver = false)
      (hterminal : automaton.isTerminal run.state = false)
      (hqueue : run.queue = .input input :: queue) :
      Advances automaton view now run (({ run with queue }).feed automaton view now input).1
        (automaton.react view run.memory run.state input).effects
  | expire (time : Nat) (input : Input) (hover : run.isOver = false)
      (hterminal : automaton.isTerminal run.state = false) (hqueue : run.queue = [])
      (hdeadline : run.deadline = some (time, input)) (hdue : time ≤ now) :
      Advances automaton view now run
        (({ run with deadline := none }).feed automaton view now input).1
        (automaton.react view run.memory run.state input).effects
  | stop (hover : run.isOver = false) (hends : run.Ends automaton) :
      Advances automaton view now run { run with queue := [], deadline := none, isOver := true }
        (automaton.retire run.memory run.state)

theorem deadline_feed (automaton : Automaton View Memory State Input Effect) (view : View) (now : Nat)
    (run : Run Memory State Input) (input : Input) :
    (run.feed automaton view now input).1.deadline
      = if (automaton.react view run.memory run.state input).state = run.state then run.deadline
        else arm automaton now (automaton.react view run.memory run.state input).state := rfl

theorem advance_cases {after : Run Memory State Input} {effects : List Effect}
    (h : run.advance automaton view now = some (after, effects)) :
    Advances automaton view now run after effects := by
  unfold advance at h
  have hchooses := run.next_cases automaton now
  generalize run.next automaton now = move at hchooses h
  cases hchooses with
  | take input queue hover hterminal hqueue =>
      cases h
      exact .take input queue hover hterminal hqueue
  | expire time input hover hterminal hqueue hdeadline hdue =>
      cases h
      exact .expire time input hover hterminal hqueue hdeadline hdue
  | stop hover hends =>
      cases h
      exact .stop hover hends
  | rest => cases h
  | wait => cases h

end ReplicaRing.Run
