import ReplicaRing.Automaton

/-! What one move of a run can be. -/

namespace ReplicaRing.Run

variable {View Memory State Input Effect : Type} [DecidableEq State]
  {automaton : Automaton View Memory State Input Effect} {view : View} {now : Nat}
  {run : Run Memory State Input}

/-- The run may take this input next or later. -/
def Offers (run : Run Memory State Input) (input : Input) : Prop :=
  .input input ∈ run.queue ∨ ∃ time, run.deadline = some (time, input)

omit [DecidableEq State] in
@[simp] theorem push_memory (run : Run Memory State Input) (command : Command Input) :
    (run.push command).memory = run.memory := by
  unfold push
  split <;> rfl

omit [DecidableEq State] in
@[simp] theorem push_state (run : Run Memory State Input) (command : Command Input) :
    (run.push command).state = run.state := by
  unfold push
  split <;> rfl

omit [DecidableEq State] in
@[simp] theorem push_isOver (run : Run Memory State Input) (command : Command Input) :
    (run.push command).isOver = run.isOver := by
  unfold push
  split <;> rfl

omit [DecidableEq State] in
theorem push_of_isOver (command : Command Input) (h : run.isOver = true) :
    run.push command = run := if_pos h

omit [DecidableEq State] in
theorem offers_push {pushed input : Input} (h : (run.push (.input pushed)).Offers input) :
    run.Offers input ∨ input = pushed := by
  unfold push at h
  split at h
  · exact .inl h
  · rcases h with hqueue | hdeadline
    · rcases List.mem_append.mp hqueue with hold | hnew
      · exact .inl (.inl hold)
      · exact .inr (Command.input.inj (List.mem_singleton.mp hnew))
    · exact .inl (.inr hdeadline)

theorem offers_feed {fed input : Input}
    (h : (run.feed automaton view now fed).1.Offers input) :
    run.Offers input ∨ input ∈ (automaton.react view run.memory run.state fed).queued ∨
      ∃ state time, automaton.timeout state = some (time, input) := by
  rcases h with hqueue | ⟨time, hdeadline⟩
  · rcases List.mem_append.mp hqueue with hold | hnew
    · exact .inl (.inl hold)
    · obtain ⟨queued, hqueued, heq⟩ := List.mem_map.mp hnew
      cases heq
      exact .inr (.inl hqueued)
  · simp only [feed] at hdeadline
    split at hdeadline
    · exact .inl (.inr ⟨time, hdeadline⟩)
    · simp only [arm, Option.map_eq_some_iff, Prod.mk.injEq] at hdeadline
      obtain ⟨⟨after, timeout⟩, htimeout, -, rfl⟩ := hdeadline
      exact .inr (.inr ⟨_, after, htimeout⟩)

/-- A run that moves reacts to an input that it was offered, or ends where it is. -/
inductive Moves (automaton : Automaton View Memory State Input Effect) (view : View) (now : Nat)
    (run : Run Memory State Input) : Run Memory State Input → List Effect → Prop
  | react (ready : Run Memory State Input) (input : Input) (hoffered : run.Offers input)
      (hmemory : ready.memory = run.memory) (hstate : ready.state = run.state)
      (hover : ready.isOver = false) (hoffers : ∀ other, ready.Offers other → run.Offers other)
      (hterminal : automaton.isTerminal run.state = false) :
      Moves automaton view now run (ready.feed automaton view now input).1
        (automaton.react view run.memory run.state input).effects
  | stop :
      Moves automaton view now run { run with queue := [], deadline := none, isOver := true }
        (automaton.retire run.memory run.state)

omit [DecidableEq State] in
private theorem next_eq_take {input : Input} {queue : List (Command Input)}
    (h : run.next automaton now = .take input queue) :
    run.isOver = false ∧ automaton.isTerminal run.state = false ∧
      run.queue = .input input :: queue := by
  unfold next at h
  split at h
  · cases h
  case isFalse hover =>
    split at h
    · cases h
    case isFalse hterminal =>
      split at h
      case h_1 first rest hqueue =>
        cases h
        exact ⟨by simpa using hover, by simpa using hterminal, hqueue⟩
      case h_2 => cases h
      case h_3 =>
        split at h
        · split at h <;> cases h
        · split at h <;> cases h

omit [DecidableEq State] in
private theorem next_eq_expire {input : Input} (h : run.next automaton now = .expire input) :
    run.isOver = false ∧ automaton.isTerminal run.state = false ∧
      ∃ time, run.deadline = some (time, input) := by
  unfold next at h
  split at h
  · cases h
  case isFalse hover =>
    split at h
    · cases h
    case isFalse hterminal =>
      split at h
      case h_1 => cases h
      case h_2 => cases h
      case h_3 =>
        split at h
        case h_1 time armed hdeadline =>
          split at h
          · cases h
            exact ⟨by simpa using hover, by simpa using hterminal, time, hdeadline⟩
          · cases h
        case h_2 => split at h <;> cases h

omit [DecidableEq State] in
private theorem isOver_of_next_stop (h : run.next automaton now = .stop) : run.isOver = false := by
  unfold next at h
  split at h
  · cases h
  case isFalse hover => simpa using hover

theorem advance_eq_some {after : Run Memory State Input} {effects : List Effect}
    (h : run.advance automaton view now = some (after, effects)) :
    run.isOver = false ∧ Moves automaton view now run after effects := by
  unfold advance at h
  cases hnext : run.next automaton now with
  | wait =>
      rw [hnext] at h
      cases h
  | take input queue =>
      rw [hnext] at h
      cases h
      obtain ⟨hover, hterminal, hqueue⟩ := next_eq_take hnext
      refine ⟨hover, .react { run with queue } input ?_ rfl rfl hover ?_ hterminal⟩
      · exact .inl (hqueue ▸ List.mem_cons_self)
      · rintro other (hrest | hdeadline)
        · exact .inl (hqueue ▸ List.mem_cons_of_mem _ hrest)
        · exact .inr hdeadline
  | expire input =>
      rw [hnext] at h
      cases h
      obtain ⟨hover, hterminal, hdeadline⟩ := next_eq_expire hnext
      refine ⟨hover, .react { run with deadline := none } input (.inr hdeadline) rfl rfl hover ?_
        hterminal⟩
      rintro other (hqueue | ⟨time, hnone⟩)
      · exact .inl hqueue
      · cases hnone
  | stop =>
      rw [hnext] at h
      cases h
      exact ⟨isOver_of_next_stop hnext, .stop⟩

end ReplicaRing.Run
