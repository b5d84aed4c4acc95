import ReplicaRing.Simulation.Call

/-! What the calls of clients make of the exchanges that they ask for. -/

namespace ReplicaRing

namespace Program

variable {Command : Type} {Answer : Command → Type} {Result : Type}
  {came later : (command : Command) → Answer command → Prop}
  {before middle after : Program Command Answer Result}

/-- Carrying the program out leaves the rest, when only answers of the given kind come. -/
inductive Leads (came : (command : Command) → Answer command → Prop) :
    Program Command Answer Result → Program Command Answer Result → Prop
  | refl (program : Program Command Answer Result) : Leads came program program
  | ask {after : Program Command Answer Result} (command : Command)
      (next : Answer command → Program Command Answer Result) (answer : Answer command)
      (hcame : came command answer) (hrest : Leads came (next answer) after) :
      Leads came (.ask command next) after

private theorem Leads.trans (h : Leads came before middle) (hrest : Leads came middle after) :
    Leads came before after := by
  induction h with
  | refl program => exact hrest
  | ask command next answer hcame _ ih => exact .ask command next answer hcame (ih hrest)

theorem Leads.mono (h : Leads came before after)
    (hlater : ∀ command answer, came command answer → later command answer) :
    Leads later before after := by
  induction h with
  | refl program => exact .refl program
  | ask command next answer hcame _ ih =>
      exact .ask command next answer (hlater command answer hcame) ih

theorem Leads.answer {command : Command} {next : Answer command → Program Command Answer Result}
    (h : Leads came before (.ask command next)) {answer : Answer command}
    (hcame : came command answer) : Leads came before (next answer) :=
  h.trans (.ask command next answer hcame (.refl _))

private theorem Leads.eq_of_done {result other : Result}
    (h : Leads came (.done result) (.done other)) :
    result = other := by
  cases h with
  | refl => rfl

end Program

open Simulation (Answer Call)

variable {came : (exchange : Exchange) → exchange.Result → Prop} {host : Host} {roster : Roster}
  {key value : Bytes} {level : Level} {answer : Answer}

namespace Simulation.Call

/-- What a call of a load tells of the state that the load has ended in. -/
def report (call : Call) (state : Replication.State) : Answer :=
  match call with
  | .load .. => .loaded state.value? state.outcome
  | _ => .state state

/-- What is left of a load when its targets have been heard. -/
def mend (call : Call) (host : Host) (key : Bytes) (level : Level) :
    Replication.State → Exchanges Answer
  | .partialSuccess (.found value) =>
      if host.protocol.maxValueSize < value.length then
        .done (call.report (.partialSuccess (.found value)))
      else .ask (.replicate (.store key value level)) fun _ =>
        .done (call.report (.partialSuccess (.found value)))
  | state => .done (call.report state)

theorem program_load {call : Call} (hcall : call = .load key level ∨ call = .loadState key level) :
    call.program host roster =
      .ask (.replicate (.load key level)) (call.mend host key level) := by
  rcases hcall with rfl | rfl
  · change Program.ask _ _ = Program.ask _ _
    congr 1
    funext state
    cases state with
    | partialSuccess receipt =>
        cases receipt with
        | stored => rfl
        | found value =>
            change (((Client.store host key value level).bind fun _ =>
              .done (.partialSuccess (.found value))).bind fun state : Replication.State =>
                .done (state.value?, state.outcome)).bind (fun loaded =>
                  .done (Answer.loaded loaded.1 loaded.2)) = _
            simp only [mend, Client.store]
            split <;> rfl
    | _ => rfl
  · change Program.ask _ _ = Program.ask _ _
    congr 1
    funext state
    cases state with
    | partialSuccess receipt =>
        cases receipt with
        | stored => rfl
        | found value =>
            change ((Client.store host key value level).bind fun _ =>
              .done (.partialSuccess (.found value))).bind (fun state : Replication.State =>
                .done (Answer.state state)) = _
            simp only [mend, Client.store]
            split <;> rfl
    | _ => rfl

theorem leads_store
    (h : ((Call.store key value level).program host roster).Leads came (.done answer)) :
    answer = .outcome .error ∨ ∃ state : Replication.State,
      came (.replicate (.store key value level)) state ∧ answer = .outcome state.outcome := by
  simp only [program, Client.store] at h
  split at h
  case isTrue => exact .inl h.eq_of_done.symm
  case isFalse =>
    cases h with
    | ask _ _ state hcame hrest => exact .inr ⟨state, hcame, hrest.eq_of_done.symm⟩

private theorem eq_report_of_mend {call : Call} {state : Replication.State}
    (h : (call.mend host key level state).Leads came (.done answer)) :
    answer = call.report state := by
  unfold mend at h
  split at h
  case h_1 value =>
    split at h
    case isTrue => exact h.eq_of_done.symm
    case isFalse =>
      cases h with
      | ask _ _ _ _ hrest => exact hrest.eq_of_done.symm
  case h_2 => exact h.eq_of_done.symm

theorem leads_load {call : Call} (hcall : call = .load key level ∨ call = .loadState key level)
    (h : (call.program host roster).Leads came (.done answer)) :
    ∃ state : Replication.State, came (.replicate (.load key level)) state ∧
      answer = call.report state := by
  rw [program_load hcall] at h
  cases h with
  | ask _ _ state hcame hrest => exact ⟨state, hcame, eq_report_of_mend hrest⟩

end Simulation.Call

end ReplicaRing
