import ReplicaRing.Proofs.Replication.Orderly

/-!
A replication with what is around it: the route that brings replies, the sends that are under way,
and the clock.  A course is any order of its own moves and of what comes from outside.
-/

namespace ReplicaRing.Replication

structure Conduct where
  run : Run Tally State Input
  /-- Replies to the request are brought to the queue. -/
  routed : Bool := false
  sends : List Peer := []
  now : Nat

namespace Conduct

inductive Event
  | move (roster : Roster)
  | deliver (message : Message)
  | sent (place : Nat)
  | fail (place : Nat)
  | elapse (time : Nat)

def apply (conduct : Conduct) : Effect → Conduct
  | .route _ => { conduct with routed := true }
  | .unroute _ => { conduct with routed := false }
  | .send peer _ => { conduct with sends := conduct.sends ++ [peer] }
  | .abandon => { conduct with sends := [] }

def step (host : Host) (request : Request) (id : UInt64) (conduct : Conduct) : Event → Conduct
  | .move roster =>
      match conduct.run.advance (automaton host request id) roster conduct.now with
      | none => conduct
      | some (run, effects) => effects.foldl apply { conduct with run }
  | .deliver message =>
      if conduct.routed ∧ message.requestId = id then
        { conduct with run := conduct.run.push (.input (.reply message)) }
      else conduct
  | .sent place => { conduct with sends := conduct.sends.eraseIdx place }
  | .fail place =>
      match conduct.sends[place]? with
      | none => conduct
      | some peer =>
          { conduct with
            run := conduct.run.push (.input (.sendFailed peer.name))
            sends := conduct.sends.eraseIdx place }
  | .elapse time => { conduct with now := conduct.now + time }

private theorem foldl_apply (conduct : Conduct) (effects : List Effect) :
    ∃ routed sends, effects.foldl apply conduct = { conduct with routed, sends } := by
  induction effects generalizing conduct with
  | nil => exact ⟨conduct.routed, conduct.sends, rfl⟩
  | cons effect rest ih =>
      obtain ⟨routed, sends, hrest⟩ := ih (conduct.apply effect)
      refine ⟨routed, sends, ?_⟩
      rw [List.foldl_cons, hrest]
      cases effect <;> rfl

end Conduct

/-- A request of a host from its start on, with all that happens to it. -/
structure Course where
  host : Host
  request : Request
  id : UInt64
  start : Nat
  events : Nat → Conduct.Event

namespace Course

open Conduct (Event)

variable (course : Course)

abbrev automaton : Automaton Roster Tally State Input Effect :=
  Replication.automaton course.host course.request course.id

def after : Nat → Conduct
  | 0 =>
      { run := (Run.start course.automaton course.start {} .start 1).push (.input .start)
        now := course.start }
  | time + 1 => (after time).step course.host course.request course.id (course.events time)

def run (time : Nat) : Run Tally State Input := (course.after time).run

def now (time : Nat) : Nat := (course.after time).now

def Feeds (time : Nat) (roster : Roster) (input : Input) : Prop :=
  course.events time = .move roster ∧
    ((∃ queue, (course.run time).next course.automaton (course.now time) = .take input queue) ∨
      (course.run time).next course.automaton (course.now time) = .expire input)

def reaction (time : Nat) (roster : Roster) (input : Input) : Step :=
  react course.host course.request course.id roster (course.run time).memory
    (course.run time).state input

def Fails (time : Nat) (name : String) : Prop :=
  ∃ place peer, course.events time = .fail place ∧
    (course.after time).sends[place]? = some peer ∧ peer.name = name

def FansOut (time : Nat) (targets : List Peer) : Prop :=
  ∃ roster message, course.Feeds time roster .send ∧ (course.run time).state = .sending ∧
    plan course.host course.request course.id roster = .ok (targets, message)

inductive Becomes (time : Nat) : Run Tally State Input → Prop
  | same : Becomes time (course.run time)
  | report (input : Input) (hreport : input.isReport = true)
      (hsent : (course.run time).state.IsSent)
      (hfails : ∀ name, input = .sendFailed name → course.Fails time name) :
      Becomes time ((course.run time).push (.input input))
  | feed (roster : Roster) (input : Input) (rest : List (Command Input))
      (after : Run Tally State Input) (hfeeds : course.Feeds time roster input)
      (hrest : ∀ command ∈ rest, command ∈ (course.run time).queue)
      (hoffered : .input input ∈ (course.run time).queue ∨ input = .timeout)
      (hmemory : after.memory = (course.reaction time roster input).memory)
      (hstate : after.state = (course.reaction time roster input).state)
      (hqueue : after.queue = rest ++ (course.reaction time roster input).queued.map .input)
      (hdeadline : after.deadline =
        if (course.reaction time roster input).state = (course.run time).state then
          (course.run time).deadline
        else Run.arm course.automaton (course.now time)
          (course.reaction time roster input).state) : Becomes time after
  | stop (hterminal : (course.run time).state.isTerminal = true) :
      Becomes time { course.run time with queue := [], deadline := none, isOver := true }

structure Sound (conduct : Conduct) : Prop where
  orderly : Orderly conduct.run
  unsent : ¬conduct.run.state.IsSent → conduct.routed = false ∧ conduct.sends = []

variable {course} {time : Nat}

namespace Sound

variable {conduct : Conduct}

private theorem isSent_of_routed (h : Sound conduct) (hrouted : conduct.routed = true) :
    conduct.run.state.IsSent := by
  by_contra hunsent
  rw [(h.unsent hunsent).1] at hrouted
  cases hrouted

private theorem isSent_of_send (h : Sound conduct) {place : Nat} {peer : Peer}
    (hpeer : conduct.sends[place]? = some peer) : conduct.run.state.IsSent := by
  by_contra hunsent
  rw [(h.unsent hunsent).2] at hpeer
  cases hpeer

end Sound

private theorem becomes (hsound : Sound (course.after time)) :
    course.Becomes time (course.run (time + 1)) := by
  unfold run after
  cases hevent : course.events time with
  | move roster =>
      rw [Conduct.step]
      split
      case h_1 => exact .same
      case h_2 after effects hadvance =>
        obtain ⟨routed, sends, happly⟩ := { course.after time with run := after }.foldl_apply effects
        rw [happly]
        cases Run.advance_cases hadvance with
        | take input queue hover hterminal hqueue =>
            refine .feed roster input queue _ ⟨hevent, .inl ⟨queue, ?_⟩⟩ ?_ ?_ rfl rfl rfl rfl
            · exact Run.next_take hover hterminal hqueue
            · intro command hcommand
              exact hqueue ▸ List.mem_cons_of_mem _ hcommand
            · exact .inl (hqueue ▸ List.mem_cons_self)
        | expire due input hover hterminal hqueue hdeadline hdue =>
            have hphase := hsound.orderly.phase
            rw [hdeadline] at hphase
            obtain ⟨hwaiting, rfl⟩ := hphase.eq_waiting
            have hne : (course.reaction time roster .timeout).state ≠ (course.run time).state := by
              rw [reaction, run, hwaiting]
              exact Phase.conclude_ne_waiting _
            refine .feed roster .timeout [] _ ⟨hevent, .inr ?_⟩ nofun (.inr rfl) rfl rfl ?_ ?_
            · exact Run.next_expire hover hterminal hqueue hdeadline hdue
            · exact congrArg (· ++ _) hqueue
            · exact (if_neg hne).trans (if_neg hne).symm
        | stop hover hends => exact .stop (hsound.orderly.isTerminal_of_ends hends)
  | deliver message =>
      rw [Conduct.step]
      split
      case isTrue hrouted => exact .report _ rfl (hsound.isSent_of_routed hrouted.1) nofun
      case isFalse => exact .same
  | sent place => exact .same
  | fail place =>
      rw [Conduct.step]
      split
      case h_1 => exact .same
      case h_2 peer hpeer =>
        refine .report _ rfl (hsound.isSent_of_send hpeer) fun name hname => ?_
        cases hname
        exact ⟨place, peer, hevent, hpeer, rfl⟩
  | elapse passed => exact .same

private theorem unsent_of_advance {run after : Run Tally State Input} {roster : Roster} {now : Nat}
    {effects : List Effect} (horderly : Orderly run)
    (hadvance : run.advance course.automaton roster now = some (after, effects))
    (hafter : ¬after.state.IsSent) : ¬run.state.IsSent ∧ effects = [] := by
  have hreact : ∀ input, ¬(react course.host course.request course.id roster run.memory run.state
      input).state.IsSent → ¬run.state.IsSent ∧
        (react course.host course.request course.id roster run.memory run.state
          input).effects = [] := by
    intro input hunsent
    by_cases hsent : run.state.IsSent
    · exact absurd (react_isSent _ _ _ _ _ hsent input).1 hunsent
    · have hdeparts := react_departs course.host course.request course.id roster run.memory hsent
        input
      generalize react course.host course.request course.id roster run.memory run.state input =
        step at hdeparts hunsent
      cases hdeparts with
      | ready => exact ⟨hsent, rfl⟩
      | error => exact absurd (.of_isTerminal rfl) hunsent
      | fanOut => exact absurd .waiting hunsent
  cases Run.advance_cases hadvance with
  | take input queue => exact hreact input hafter
  | expire due input => exact hreact input hafter
  | stop hover hends =>
      exact absurd (.of_isTerminal (horderly.isTerminal_of_ends hends)) hafter

private theorem Sound.succ (h : Sound (course.after time)) : Sound (course.after (time + 1)) := by
  rw [after]
  cases course.events time with
  | move roster =>
      rw [Conduct.step]
      split
      case h_1 => exact h
      case h_2 after effects hadvance =>
        constructor
        · obtain ⟨routed, sends, happly⟩ :=
            { course.after time with run := after }.foldl_apply effects
          rw [happly]
          exact h.orderly.advance hadvance
        · intro hunsent
          obtain ⟨routed, sends, happly⟩ :=
            { course.after time with run := after }.foldl_apply effects
          rw [happly] at hunsent
          obtain ⟨hbefore, hnone⟩ := unsent_of_advance h.orderly hadvance hunsent
          rw [hnone]
          exact h.unsent hbefore
  | deliver message =>
      rw [Conduct.step]
      split
      case isTrue hrouted =>
        have hsent := h.isSent_of_routed hrouted.1
        refine ⟨h.orderly.push hsent rfl, fun hunsent => absurd ?_ hunsent⟩
        rwa [Run.push_state]
      case isFalse => exact h
  | sent place =>
      refine ⟨h.orderly, fun hunsent => ?_⟩
      obtain ⟨hrouted, hsends⟩ := h.unsent hunsent
      refine ⟨hrouted, ?_⟩
      rw [Conduct.step, hsends]
      rfl
  | fail place =>
      rw [Conduct.step]
      split
      case h_1 => exact h
      case h_2 peer hpeer =>
        have hsent := h.isSent_of_send hpeer
        refine ⟨h.orderly.push hsent rfl, fun hunsent => absurd ?_ hunsent⟩
        rwa [Run.push_state]
  | elapse passed => exact ⟨h.orderly, h.unsent⟩

theorem sound (course : Course) (time : Nat) : Sound (course.after time) := by
  induction time with
  | zero =>
      exact ⟨Orderly.start course.host course.request course.id course.start,
        fun _ => ⟨rfl, rfl⟩⟩
  | succ time ih => exact ih.succ

theorem orderly (course : Course) (time : Nat) : Orderly (course.run time) :=
  (course.sound time).orderly

theorem run_succ (course : Course) (time : Nat) : course.Becomes time (course.run (time + 1)) :=
  becomes (course.sound time)

namespace Feeds

variable {roster : Roster} {input : Input}

theorem proceeds (h : course.Feeds time roster input) :
    Proceeds course.host course.request course.id roster (course.run time).memory
      (course.run time).state input (course.reaction time roster input) := by
  have hphase := (course.orderly time).phase
  have hchooses := (course.run time).next_cases course.automaton (course.now time)
  rcases h.2 with ⟨queue, hnext⟩ | hnext
  · rw [hnext] at hchooses
    cases hchooses with
    | take _ _ hover hterminal hqueue =>
        rw [hqueue] at hphase
        exact (hphase.take (course.now time) hterminal).1
  · rw [hnext] at hchooses
    cases hchooses with
    | expire due _ hover hterminal hqueue hdeadline hdue =>
        rw [hqueue, hdeadline] at hphase
        exact (hphase.expire (course.now time)).1

theorem state_eq (h : course.Feeds time roster input) :
    (course.run (time + 1)).state = (course.reaction time roster input).state := by
  have hadvance : ∃ after effects, (course.run time).advance course.automaton roster
      (course.now time) = some (after, effects) ∧
        after.state = (course.reaction time roster input).state := by
    unfold Run.advance
    rcases h.2 with ⟨queue, hnext⟩ | hnext
    · rw [hnext]
      exact ⟨_, _, rfl, rfl⟩
    · rw [hnext]
      exact ⟨_, _, rfl, rfl⟩
  obtain ⟨after, effects, hadvance, hstate⟩ := hadvance
  obtain ⟨routed, sends, happly⟩ := { course.after time with run := after }.foldl_apply effects
  rw [run, Course.after, h.1, Conduct.step]
  simp only [run, now] at hadvance
  rw [hadvance]
  simp only [happly, hstate]

end Feeds

end Course

end ReplicaRing.Replication
