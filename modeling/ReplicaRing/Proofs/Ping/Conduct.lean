import ReplicaRing.Proofs.Ping.Orderly

/-!
A ping with what is around it: the route that brings replies, the send that is under way, and the
clock.  A course is any order of its own moves and of what comes from outside.
-/

namespace ReplicaRing.Ping

structure Conduct where
  run : Run Memory State Input
  /-- Replies to the ping are brought to the queue. -/
  routed : Bool := false
  sends : Nat := 0
  now : Nat

namespace Conduct

inductive Event
  | move (roster : Roster)
  | deliver (message : Message)
  | sent
  | fail
  | elapse (time : Nat)

def apply (conduct : Conduct) : Effect → Conduct
  | .route _ => { conduct with routed := true }
  | .unroute _ => { conduct with routed := false }
  | .send .. => { conduct with sends := conduct.sends + 1 }
  | .abandon => { conduct with sends := 0 }

def step (host : Host) (target : String) (id : UInt64) (conduct : Conduct) : Event → Conduct
  | .move roster =>
      match conduct.run.advance (automaton host target id) roster conduct.now with
      | none => conduct
      | some (run, effects) => effects.foldl apply { conduct with run }
  | .deliver message =>
      if conduct.routed ∧ message.requestId = id then
        { conduct with run := conduct.run.push (.input (.pong message)) }
      else conduct
  | .sent => { conduct with sends := conduct.sends - 1 }
  | .fail =>
      if conduct.sends = 0 then conduct
      else
        { conduct with
          run := conduct.run.push (.input .sendFailed)
          sends := conduct.sends - 1 }
  | .elapse time => { conduct with now := conduct.now + time }

theorem foldl_apply (conduct : Conduct) (effects : List Effect) :
    ∃ routed sends, effects.foldl apply conduct = { conduct with routed, sends } := by
  induction effects generalizing conduct with
  | nil => exact ⟨conduct.routed, conduct.sends, rfl⟩
  | cons effect rest ih =>
      obtain ⟨routed, sends, hrest⟩ := ih (conduct.apply effect)
      refine ⟨routed, sends, ?_⟩
      rw [List.foldl_cons, hrest]
      cases effect <;> rfl

private theorem foldl_retire {conduct : Conduct} (host : Host) (target : String) (id : UInt64)
    {memory : Memory} {state : State} (h : conduct.routed = false) :
    (((automaton host target id).retire memory state).foldl apply conduct).routed = false ∧
      (((automaton host target id).retire memory state).foldl apply conduct).sends = 0 := by
  simp only [automaton, List.foldl_cons]
  split
  · exact ⟨rfl, rfl⟩
  · exact ⟨h, rfl⟩

def Unsent (conduct : Conduct) : Prop :=
  conduct.run.state = .start → conduct.routed = false ∧ conduct.sends = 0

private theorem Unsent.step {conduct : Conduct} {host : Host} {target : String} {id : UInt64}
    (h : conduct.Unsent) (event : Event) : (conduct.step host target id event).Unsent := by
  unfold Conduct.step
  cases event with
  | move roster =>
      simp only
      split
      case h_1 => exact h
      case h_2 run effects hadvance =>
        intro hstart
        obtain ⟨routed, sends, happly⟩ := { conduct with run }.foldl_apply effects
        -- Every reaction leads out of the start, so only an end can have come before.
        cases Run.advance_cases hadvance with
        | take | expire =>
            rw [happly] at hstart
            exact absurd hstart react_ne_start
        | stop =>
            rw [happly] at hstart
            refine foldl_retire host target id ?_
            exact (h hstart).1
  | deliver message =>
      simp only
      split
      case isTrue hrouted =>
        intro hstart
        rw [Run.push_state] at hstart
        rw [(h hstart).1] at hrouted
        cases hrouted.1
      case isFalse => exact h
  | fail =>
      simp only
      split
      case isTrue => exact h
      case isFalse hsends =>
        intro hstart
        rw [Run.push_state] at hstart
        exact absurd (h hstart).2 hsends
  | sent =>
      intro hstart
      obtain ⟨hrouted, hsends⟩ := h hstart
      exact ⟨hrouted, by simp [hsends]⟩
  | elapse passed => exact h

end Conduct

/-- A ping of a host from its start on, with all that happens to it. -/
structure Course where
  host : Host
  target : String
  id : UInt64
  start : Nat
  events : Nat → Conduct.Event

namespace Course

variable (course : Course)

abbrev automaton : Automaton Roster Memory State Input Effect :=
  Ping.automaton course.host course.target course.id

def after : Nat → Conduct
  | 0 =>
      { run := (Run.start course.automaton course.start {} .start 1).push (.input .start)
        now := course.start }
  | time + 1 => (after time).step course.host course.target course.id (course.events time)

def run (time : Nat) : Run Memory State Input := (course.after time).run

def now (time : Nat) : Nat := (course.after time).now

def Takes (time : Nat) (roster : Roster) (input : Input) : Prop :=
  course.events time = .move roster ∧
    ∃ queue, (course.run time).next course.automaton (course.now time) = .take input queue

def Fires (time : Nat) (roster : Roster) (input : Input) : Prop :=
  course.events time = .move roster ∧
    (course.run time).next course.automaton (course.now time) = .expire input

def Delivers (time : Nat) (message : Message) : Prop :=
  course.events time = .deliver message ∧ (course.after time).routed = true ∧
    message.requestId = course.id

def Fails (time : Nat) : Prop :=
  course.events time = .fail ∧ (course.after time).sends ≠ 0

/-- A target that could not be sent to does not answer. -/
def Faithful : Prop :=
  ∀ failed, course.Fails failed → ∀ time message, course.Delivers time message →
    ¬IsAnswer course.target message

inductive Brings (time : Nat) : Input → Prop
  | reply (message : Message) (hdelivers : course.Delivers time message) :
      Brings time (.pong message)
  | failure (hfails : course.Fails time) : Brings time .sendFailed

inductive Becomes (time : Nat) : Run Memory State Input → Prop
  | same (hquiet : ∀ roster, course.events time = .move roster →
      (course.run time).advance course.automaton roster (course.now time) = none) :
      Becomes time (course.run time)
  | report (input : Input) (hbrings : course.Brings time input) :
      Becomes time ((course.run time).push (.input input))
  | advance (roster : Roster) (after : Run Memory State Input) (effects : List Effect)
      (hmove : course.events time = .move roster)
      (hadvance : (course.run time).advance course.automaton roster (course.now time) =
        some (after, effects)) : Becomes time after

variable {course} {time : Nat}

theorem run_succ (course : Course) (time : Nat) : course.Becomes time (course.run (time + 1)) := by
  unfold run after
  cases hevent : course.events time with
  | move roster =>
      rw [Conduct.step]
      split
      case h_1 hnone =>
        refine .same fun other hother => ?_
        cases hevent.symm.trans hother
        exact hnone
      case h_2 after effects hadvance =>
        obtain ⟨routed, sends, happly⟩ := { course.after time with run := after }.foldl_apply effects
        rw [happly]
        exact .advance roster after effects hevent hadvance
  | deliver message =>
      rw [Conduct.step]
      split
      case isTrue hrouted => exact .report _ (.reply message ⟨hevent, hrouted⟩)
      case isFalse =>
        refine .same fun other hother => ?_
        cases hevent.symm.trans hother
  | fail =>
      rw [Conduct.step]
      split
      case isTrue =>
        refine .same fun other hother => ?_
        cases hevent.symm.trans hother
      case isFalse hsends => exact .report _ (.failure ⟨hevent, hsends⟩)
  | sent | elapse =>
      refine .same fun other hother => ?_
      cases hevent.symm.trans hother

private theorem unsent (course : Course) (time : Nat) : (course.after time).Unsent := by
  induction time with
  | zero => exact fun _ => ⟨rfl, rfl⟩
  | succ time ih => exact ih.step _

private theorem Brings.isReport {input : Input} (h : course.Brings time input) :
    input.isReport = true := by
  cases h <;> rfl

private theorem Brings.ne_start {input : Input} (h : course.Brings time input) :
    (course.run time).state ≠ .start := by
  intro hstart
  obtain ⟨hrouted, hsends⟩ := course.unsent time hstart
  cases h with
  | reply message hdelivers =>
      rw [hdelivers.2.1] at hrouted
      cases hrouted
  | failure hfails => exact hfails.2 hsends

private theorem brought {input : Input} (h : .input input ∈ (course.run time).queue)
    (hreport : input.isReport = true) : ∃ earlier, course.Brings earlier input := by
  induction time with
  | zero =>
      cases List.mem_singleton.mp h
      cases hreport
  | succ time ih =>
      have hbecomes := course.run_succ time
      generalize course.run (time + 1) = run at hbecomes h
      cases hbecomes with
      | same => exact ih h
      | report other hbrings =>
          unfold Run.push at h
          split at h
          · exact ih h
          · rcases List.mem_append.mp h with hold | hnew
            · exact ih hold
            · cases List.mem_singleton.mp hnew
              exact ⟨time, hbrings⟩
      | advance roster after effects hmove hadvance =>
          -- A ping queues nothing for itself that is a report.
          have howned : ∀ {taken : Input} {rest : List (Command Input)},
              .input input ∈ rest ++ (react course.host course.target course.id roster
                (course.run time).memory (course.run time).state taken).queued.map .input →
              .input input ∈ rest := by
            intro taken rest hmem
            rcases List.mem_append.mp hmem with hrest | hown
            · exact hrest
            · obtain ⟨own, hown, heq⟩ := List.mem_map.mp hown
              cases heq
              rw [react_queued hown] at hreport
              cases hreport
          cases Run.advance_cases hadvance with
          | take taken rest hover hterminal hqueue =>
              exact ih (hqueue ▸ List.mem_cons_of_mem _ (howned h))
          | expire => exact ih (howned h)
          | stop => cases h

end Course

/-- A ping is where its own inputs and reports from outside can bring it. -/
structure Orderly (run : Run Memory State Input) : Prop where
  phase : ∃ inputs, run.queue = inputs.map .input ∧ Phase run.state inputs run.deadline
  senders : run.senders ≠ 0
  final : run.isOver = true → run.state.isTerminal = true

namespace Orderly

variable {host : Host} {target : String} {id : UInt64} {roster : Roster} {now : Nat}
  {run after : Run Memory State Input} {effects : List Effect}

private theorem push (h : Orderly run) {input : Input} (hstarted : run.state ≠ .start)
    (hreport : input.isReport = true) : Orderly (run.push (.input input)) := by
  unfold Run.push
  split
  case isTrue => exact h
  case isFalse =>
    obtain ⟨inputs, hqueue, hphase⟩ := h.phase
    refine ⟨⟨inputs ++ [input], ?_, hphase.push hstarted hreport⟩, h.senders, h.final⟩
    simp [hqueue]

theorem isTerminal_of_ends (h : Orderly run) (hends : run.Ends (automaton host target id)) :
    run.state.isTerminal = true := by
  obtain ⟨inputs, hinputs, hphase⟩ := h.phase
  cases hends with
  | terminal hterminal => exact hterminal
  | terminated rest hqueue =>
      rw [hqueue] at hinputs
      cases inputs <;> cases hinputs
  | deserted hqueue hdeadline hsenders => exact absurd hsenders h.senders

private theorem advance (h : Orderly run)
    (hquiet : ∀ reply, .input (.pong reply) ∈ run.queue → IsAnswer target reply →
      .input .sendFailed ∉ run.queue)
    (hadvance : run.advance (automaton host target id) roster now = some (after, effects)) :
    Orderly after := by
  obtain ⟨inputs, hinputs, hphase⟩ := h.phase
  cases Run.advance_cases hadvance with
  | take input rest hover hterminal hqueue =>
      rw [hqueue] at hinputs hquiet
      cases inputs with
      | nil => cases hinputs
      | cons first inputs =>
          cases hinputs
          have hproceeds := @proceeds host target id roster run.memory run.state input
            (hphase.expects hterminal).1
          refine ⟨⟨_, (List.map_append ..).symm, hphase.take hproceeds fun reply hreply hanswer hmem =>
            ?_⟩, h.senders, fun hafter => ?_⟩
          · subst hreply
            exact hquiet reply List.mem_cons_self hanswer
              (List.mem_cons_of_mem _ (List.mem_map_of_mem hmem))
          · cases hover.symm.trans hafter
  | expire time input hover hterminal hqueue hdeadline hdue =>
      rw [hdeadline] at hphase
      obtain ⟨hstate, rfl⟩ := hphase.eq_waiting
      refine ⟨⟨[], ?_, ?_⟩, h.senders, fun hafter => ?_⟩
      · simp [Run.feed, hqueue, automaton, hstate, react]
      · simp only [Run.feed, automaton, hstate, react]
        exact .final _ _ rfl
      · cases hover.symm.trans hafter
  | stop hover hends =>
      have hterminal := h.isTerminal_of_ends hends
      exact ⟨⟨[], rfl, .final _ _ hterminal⟩, h.senders, fun _ => hterminal⟩

end Orderly

namespace Course

variable {course : Course}

theorem Faithful.orderly (h : course.Faithful) (time : Nat) : Orderly (course.run time) := by
  induction time with
  | zero => exact ⟨⟨[.start], rfl, .start⟩, Nat.one_ne_zero, nofun⟩
  | succ time ih =>
      have hbecomes := course.run_succ time
      generalize course.run (time + 1) = run at hbecomes
      cases hbecomes with
      | same => exact ih
      | report input hbrings => exact ih.push hbrings.ne_start hbrings.isReport
      | advance roster after effects hmove hadvance =>
          refine ih.advance (fun reply hreply hanswer hfailed => ?_) hadvance
          obtain ⟨heard, hbrings⟩ := brought hreply rfl
          obtain ⟨failed, hfails⟩ := brought hfailed rfl
          cases hbrings with
          | reply message hdelivers =>
              cases hfails with
              | failure hfails => exact h failed hfails heard reply hdelivers hanswer

end Course

end ReplicaRing.Ping
