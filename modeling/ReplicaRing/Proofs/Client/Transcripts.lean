import ReplicaRing.Program

/-! What a program has asked and been told, whatever the answers are. -/

namespace ReplicaRing.Program

variable {Command : Type} {Answer : Command → Type} {Result Next : Type}

abbrev Event (Command : Type) (Answer : Command → Type) : Type :=
  (command : Command) × Answer command

/-- The program asks and is told the events, in this order, and then has the result. -/
inductive Yields : Program Command Answer Result → List (Event Command Answer) → Result → Prop
  | done (result : Result) : Yields (.done result) [] result
  | ask {command : Command} {next : Answer command → Program Command Answer Result}
      {events : List (Event Command Answer)} {result : Result} (answer : Answer command)
      (hrest : Yields (next answer) events result) :
      Yields (.ask command next) (⟨command, answer⟩ :: events) result

/-- Whatever it is told, the program asks only for what is allowed. -/
inductive Confined (allowed : Command → Prop) : Program Command Answer Result → Prop
  | done (result : Result) : Confined allowed (.done result)
  | ask {command : Command} {next : Answer command → Program Command Answer Result}
      (hallowed : allowed command) (hrest : ∀ answer, Confined allowed (next answer)) :
      Confined allowed (.ask command next)

theorem Confined.bind {allowed : Command → Prop} {program : Program Command Answer Result}
    {next : Result → Program Command Answer Next} (h : program.Confined allowed)
    (hnext : ∀ result, (next result).Confined allowed) :
    (program.bind next).Confined allowed := by
  induction h with
  | done result => exact hnext result
  | ask hallowed _ ih => exact .ask hallowed ih

/-- Answers come from somebody who knows all that has been asked and told, and are written down. -/
def recorded (reply : List (Event Command Answer) → (command : Command) → Answer command)
    (command : Command) : StateM (List (Event Command Answer)) (Answer command) := do
  let events ← get
  let answer := reply events command
  set (events ++ [⟨command, answer⟩])
  return answer

theorem run_recorded
    (reply : List (Event Command Answer) → (command : Command) → Answer command)
    (program : Program Command Answer Result) (events : List (Event Command Answer)) :
    ∃ more result, (program.run (recorded reply)).run events = (result, events ++ more) ∧
      program.Yields more result := by
  induction program generalizing events with
  | done result => exact ⟨[], result, by rw [List.append_nil]; rfl, .done result⟩
  | ask command next ih =>
      obtain ⟨more, result, hrun, hyields⟩ :=
        ih (reply events command) (events ++ [⟨command, reply events command⟩])
      refine ⟨⟨command, reply events command⟩ :: more, result, ?_, .ask _ hyields⟩
      rw [List.append_assoc] at hrun
      exact hrun

end ReplicaRing.Program
