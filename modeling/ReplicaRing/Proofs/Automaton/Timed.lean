import ReplicaRing.Proofs.Automaton.History

/-!
A run together with the time, and with a schedule of what its senders do.  Reacting takes no time:
the clock stands still as long as the run can move or a part of the schedule is due.
-/

namespace ReplicaRing

structure Timed (View Memory State Input Effect : Type) where
  run : Run Memory State Input
  schedule : List (Nat × Signal Input)
  now : Nat
  history : History View State Input Effect := []

/-- What happens next, where several things may. -/
inductive Deed (View : Type)
  | signal
  | move (view : View)
  /-- Time passes up to the next thing that is due, if nothing is yet. -/
  | pass

namespace Timed

open History

variable {View Memory State Input Effect : Type}

def start (automaton : Automaton View Memory State Input Effect) (time : Nat)
    (initial : Memory × State) (senders : Nat) (schedule : List (Nat × Signal Input)) :
    Timed View Memory State Input Effect :=
  { run := Run.start automaton time initial.1 initial.2 senders, schedule, now := time }

def signal (timed : Timed View Memory State Input Effect) :
    Timed View Memory State Input Effect :=
  match timed.schedule with
  | [] => timed
  | (time, signal) :: schedule =>
      if timed.now < time then timed
      else
        match signal with
        | .send command =>
            { timed with
              run := timed.run.push command
              schedule
              history := timed.history ++
                [if timed.run.isOver then .refused timed.now command
                  else .sent timed.now command] }
        | .drop =>
            { timed with
              run := timed.run.release
              schedule
              history := timed.history ++ [.dropped timed.now] }

def horizon (timed : Timed View Memory State Input Effect) : Option Nat :=
  match timed.run.deadline, timed.schedule with
  | none, [] => none
  | some (due, _), [] => some due
  | none, (time, _) :: _ => some time
  | some (due, _), (time, _) :: _ => some (min due time)

def pass (automaton : Automaton View Memory State Input Effect)
    (timed : Timed View Memory State Input Effect) : Timed View Memory State Input Effect :=
  match timed.run.next automaton timed.now, timed.horizon with
  | .wait, some later => { timed with now := max timed.now later }
  | _, _ => timed

def feeding (automaton : Automaton View Memory State Input Effect) (view : View)
    (timed : Timed View Memory State Input Effect) (input : Input) (isTimeout : Bool) :
    Feeding View Input :=
  { time := timed.now, view, input, isTimeout
    queued := (automaton.react view timed.run.memory timed.run.state input).queued }

def episode (automaton : Automaton View Memory State Input Effect) (view : View)
    (timed : Timed View Memory State Input Effect) (effects : List Effect) :
    Episode View State Input Effect :=
  match timed.run.next automaton timed.now with
  | .take input _ => .fed (timed.feeding automaton view input false)
  | .expire input => .fed (timed.feeding automaton view input true)
  | .stop | .wait => .ended timed.now timed.run.state effects

section Moving

variable [DecidableEq State]

def move (automaton : Automaton View Memory State Input Effect) (view : View)
    (timed : Timed View Memory State Input Effect) : Timed View Memory State Input Effect :=
  match timed.run.advance automaton view timed.now with
  | none => timed
  | some (run, effects) =>
      { timed with run, history := timed.history ++ [timed.episode automaton view effects] }

def act (automaton : Automaton View Memory State Input Effect)
    (timed : Timed View Memory State Input Effect) : Deed View → Timed View Memory State Input Effect
  | .signal => timed.signal
  | .move view => timed.move automaton view
  | .pass => timed.pass automaton

def follow (automaton : Automaton View Memory State Input Effect)
    (timed : Timed View Memory State Input Effect) (deeds : List (Deed View)) :
    Timed View Memory State Input Effect :=
  deeds.foldl (act automaton) timed

end Moving

/-- The run is where its history leaves it. -/
structure Mirrors (automaton : Automaton View Memory State Input Effect) (time : Nat)
    (initial : Memory × State) (senders : Nat) (timed : Timed View Memory State Input Effect) :
    Prop where
  conforms : Conforms automaton time initial senders timed.history
  outcome : (timed.run.memory, timed.run.state) = outcome automaton initial timed.history
  senders : timed.run.senders = senders - drops timed.history
  endings : endings timed.history = if timed.run.isOver then 1 else 0
  taken : (taken timed.history).map Command.input <+: commands timed.history
  queue : timed.run.isOver = false →
    commands timed.history = (History.taken timed.history).map .input ++ timed.run.queue
  deadline : timed.run.isOver = false →
    Deadline automaton time initial timed.history timed.run.deadline
  punctual : ∀ due input, timed.run.deadline = some (due, input) → timed.now ≤ due

variable {automaton : Automaton View Memory State Input Effect} {time : Nat}
  {initial : Memory × State} {senders : Nat} {timed : Timed View Memory State Input Effect}

namespace Mirrors

private theorem memory (h : timed.Mirrors automaton time initial senders) :
    timed.run.memory = (History.outcome automaton initial timed.history).1 :=
  congrArg Prod.fst h.outcome

private theorem state (h : timed.Mirrors automaton time initial senders) :
    timed.run.state = (History.outcome automaton initial timed.history).2 :=
  congrArg Prod.snd h.outcome

theorem waiting (h : timed.Mirrors automaton time initial senders)
    (hover : timed.run.isOver = false) : waiting timed.history = timed.run.queue := by
  rw [History.waiting, h.queue hover, List.drop_left' (List.length_map _)]

private theorem isOpen (h : timed.Mirrors automaton time initial senders)
    (hover : timed.run.isOver = false) : History.endings timed.history = 0 := by
  simpa [hover] using h.endings

/-- A run has a reason to end exactly where its history has one. -/
theorem ends_iff (h : timed.Mirrors automaton time initial senders)
    (hover : timed.run.isOver = false) :
    timed.run.Ends automaton ↔ Ends automaton time initial senders timed.history := by
  have hleft := h.senders
  constructor
  · intro hends
    cases hends with
    | terminal hterminal => exact .terminal (h.state ▸ hterminal)
    | terminated queue hqueue => exact .terminated (by rw [h.waiting hover, hqueue]; rfl)
    | deserted hqueue hdeadline hsenders =>
        exact .deserted ((h.waiting hover).trans hqueue) (by omega)
          (hdeadline ▸ h.deadline hover)
  · intro hends
    cases hends with
    | terminal hterminal => exact .terminal (h.state ▸ hterminal)
    | terminated hwaiting =>
        rw [h.waiting hover] at hwaiting
        obtain ⟨queue, hqueue⟩ := List.head?_eq_some_iff.mp hwaiting
        exact .terminated queue hqueue
    | deserted hwaiting hsenders hdeadline =>
        exact .deserted ((h.waiting hover).symm.trans hwaiting)
          ((h.deadline hover).unique hdeadline) (by omega)

end Mirrors

private theorem mirrors_start (automaton : Automaton View Memory State Input Effect) (time : Nat)
    (initial : Memory × State) (senders : Nat) (schedule : List (Nat × Signal Input)) :
    (start automaton time initial senders schedule).Mirrors automaton time initial senders where
  conforms := .nil
  outcome := rfl
  senders := rfl
  endings := rfl
  taken := List.nil_prefix
  queue _ := rfl
  deadline _ := .init automaton time initial
  punctual due input h := by
    obtain ⟨timeout, -, heq⟩ := Option.map_eq_some_iff.mp h
    cases heq
    exact Nat.le_add_right ..

private theorem Mirrors.signal (h : timed.Mirrors automaton time initial senders) :
    timed.signal.Mirrors automaton time initial senders := by
  unfold Timed.signal
  split
  · exact h
  case h_2 due signal schedule hschedule =>
    split
    · exact h
    · cases signal with
      | drop =>
          exact {
            conforms := h.conforms.snoc (.dropped timed.now)
            outcome := by simpa [Run.release, transition] using h.outcome
            senders := by simp [Run.release, h.senders, Episode.isDropped, Nat.sub_sub]
            endings := by
              rw [endings_snoc]
              exact h.endings
            taken := by simpa [Episode.taken, Episode.commands] using h.taken
            queue := by simpa [Run.release, Episode.taken, Episode.commands] using h.queue
            deadline := fun hover => (h.deadline hover).remain (by simp [transition])
            punctual := h.punctual }
      | send command =>
          cases hover : timed.run.isOver with
          | true =>
              have hclosed : History.endings timed.history ≠ 0 := by simp [h.endings, hover]
              simp only [Run.push_of_isOver command hover, if_true]
              exact {
                conforms := h.conforms.snoc (.refused timed.now command hclosed)
                outcome := by simpa [transition] using h.outcome
                senders := by simpa [Episode.isDropped] using h.senders
                endings := by simpa [Episode.isEnded] using h.endings
                taken := by simpa [Episode.taken, Episode.commands] using h.taken
                queue := fun hopen => by simp [hover] at hopen
                deadline := fun hopen => by simp [hover] at hopen
                punctual := h.punctual }
          | false =>
              have hqueue := h.queue hover
              have hdeadline : Deadline automaton time initial
                  (timed.history ++ [.sent timed.now command]) timed.run.deadline :=
                (h.deadline hover).remain (by simp [transition])
              simp only [Run.push, hover, Bool.false_eq_true, if_false]
              exact {
                conforms := h.conforms.snoc (.sent timed.now command (h.isOpen hover))
                outcome := by simpa [transition] using h.outcome
                senders := by simpa [Episode.isDropped] using h.senders
                endings := by simpa [Episode.isEnded, hover] using h.endings
                taken := by simp [Episode.taken, Episode.commands, hqueue]
                queue := fun _ => by simp [Episode.taken, Episode.commands, hqueue]
                deadline := fun _ => hdeadline
                punctual := h.punctual }

private theorem Mirrors.pass (h : timed.Mirrors automaton time initial senders) :
    (timed.pass automaton).Mirrors automaton time initial senders := by
  unfold Timed.pass
  split
  case h_2 => exact h
  case h_1 later hnext hhorizon =>
    refine { h with punctual := fun due input hdeadline => ?_ }
    refine Nat.max_le.mpr ⟨h.punctual due input hdeadline, ?_⟩
    -- Time never passes over a deadline: the horizon is at most the deadline.
    unfold horizon at hhorizon
    rw [hdeadline] at hhorizon
    split at hhorizon
    · simp_all
    · simp_all
    · simp_all
    · simp_all
      omega

private theorem Mirrors.feed [DecidableEq State] (h : timed.Mirrors automaton time initial senders)
    (hover : timed.run.isOver = false) (ready : Run Memory State Input)
    (feeding : Feeding View Input) (hmemory : ready.memory = timed.run.memory)
    (hstate : ready.state = timed.run.state) (hsenders : ready.senders = timed.run.senders)
    (hready : ready.isOver = false) (htime : feeding.time = timed.now)
    (hqueued : feeding.queued
      = (automaton.react feeding.view timed.run.memory timed.run.state feeding.input).queued)
    (hqueue : timed.run.queue = (Episode.taken (.fed feeding : Episode View State Input Effect)).map
      .input ++ ready.queue)
    (hdeadline : ready.deadline = if feeding.isTimeout then none else timed.run.deadline)
    (hfollows : Follows automaton time initial senders timed.history (.fed feeding)) :
    Mirrors automaton time initial senders
      { timed with
        run := (ready.feed automaton feeding.view timed.now feeding.input).1
        history := timed.history ++ [.fed feeding] } := by
  have hreacts : automaton.react feeding.view ready.memory ready.state feeding.input
      = automaton.react feeding.view (History.outcome automaton initial timed.history).1
        (History.outcome automaton initial timed.history).2 feeding.input := by
    rw [hmemory, hstate, h.memory, h.state]
  have hcommands : History.commands (timed.history ++ [.fed feeding])
      = (History.taken (timed.history ++ [.fed feeding])).map .input
        ++ (ready.feed automaton feeding.view timed.now feeding.input).1.queue := by
    rw [commands_snoc, taken_snoc, h.queue hover, hqueue]
    simp [Run.feed, Episode.commands, hqueued, hmemory, hstate]
  have hnext : (History.outcome automaton initial (timed.history ++ [.fed feeding])).2
      = (automaton.react feeding.view ready.memory ready.state feeding.input).state := by
    rw [outcome_snoc, hreacts]
    rfl
  have hexpects : Deadline automaton time initial (timed.history ++ [.fed feeding])
      (ready.feed automaton feeding.view timed.now feeding.input).1.deadline := by
    by_cases hsame : (History.outcome automaton initial (timed.history ++ [.fed feeding])).2
        = (History.outcome automaton initial timed.history).2
    · have hkeeps := (h.deadline hover).remain hsame
      have hequal : (automaton.react feeding.view ready.memory ready.state feeding.input).state
          = ready.state := by
        rw [← hnext, hsame, hstate, h.state]
      rw [Run.deadline_feed, if_pos hequal, hdeadline]
      exact hkeeps
    · refine .enter feeding hsame ?_
      have hdiffers : (automaton.react feeding.view ready.memory ready.state feeding.input).state
          ≠ ready.state := by
        rw [← hnext, hstate, h.state]
        exact hsame
      rw [Run.deadline_feed, if_neg hdiffers, hnext, htime]
  exact {
    conforms := h.conforms.snoc hfollows
    outcome := by simp [Run.feed, transition, hreacts]
    senders := by simp [Run.feed, hsenders, h.senders, Episode.isDropped]
    endings := by simpa [Run.feed, hready, Episode.isEnded] using h.isOpen hover
    taken := by rw [hcommands]; exact List.prefix_append ..
    queue := fun _ => hcommands
    deadline := fun _ => hexpects
    punctual := fun due input hdue => by
      simp only [Run.feed] at hdue
      split at hdue
      · rw [hdeadline] at hdue
        split at hdue
        · cases hdue
        · exact h.punctual due input hdue
      · obtain ⟨timeout, -, heq⟩ := Option.map_eq_some_iff.mp hdue
        cases heq
        exact Nat.le_add_right .. }

private theorem Mirrors.stop (h : timed.Mirrors automaton time initial senders)
    (hover : timed.run.isOver = false) (hends : timed.run.Ends automaton) :
    Mirrors automaton time initial senders
      { timed with
        run := { timed.run with queue := [], deadline := none, isOver := true }
        history := timed.history ++ [.ended timed.now timed.run.state
          (automaton.retire timed.run.memory timed.run.state)] } := by
  have hfollows : Follows automaton time initial senders timed.history (.ended timed.now _ _) :=
    .ended timed.now (h.isOpen hover) ((h.ends_iff hover).mp hends)
  rw [← h.memory, ← h.state] at hfollows
  exact {
    conforms := h.conforms.snoc hfollows
    outcome := by simpa [transition] using h.outcome
    senders := by simpa [Episode.isDropped] using h.senders
    endings := by simpa [Episode.isEnded] using h.isOpen hover
    taken := by simpa [Episode.taken, Episode.commands] using h.taken
    queue := fun hopen => by simp at hopen
    deadline := fun hopen => by simp at hopen
    punctual := fun due input hdue => by simp at hdue }

private theorem Mirrors.move [DecidableEq State] (h : timed.Mirrors automaton time initial senders)
    (view : View) : (timed.move automaton view).Mirrors automaton time initial senders := by
  unfold Timed.move episode Run.advance
  have hchooses := timed.run.next_cases automaton timed.now
  generalize timed.run.next automaton timed.now = choice at hchooses ⊢
  cases hchooses with
  | take input queue hover hterminal hqueue =>
      refine h.feed hover { timed.run with queue } (timed.feeding automaton view input false)
        rfl rfl rfl hover rfl rfl hqueue rfl ?_
      refine .take _ (h.isOpen hover) (h.state ▸ hterminal) ?_ ?_ rfl ?_
      · rw [h.waiting hover, hqueue]
        rfl
      · exact ⟨timed.run.deadline, h.deadline hover, h.punctual⟩
      · rw [← h.memory, ← h.state]
        rfl
  | expire due input hover hterminal hqueue hdeadline hdue =>
      refine h.feed hover { timed.run with deadline := none }
        (timed.feeding automaton view input true) rfl rfl rfl hover rfl rfl rfl rfl ?_
      have hexact : due = timed.now := Nat.le_antisymm hdue (h.punctual due input hdeadline)
      refine .expire _ (h.isOpen hover) (h.state ▸ hterminal) ?_ ?_ rfl ?_
      · rw [h.waiting hover, hqueue]
      · have hexpected := h.deadline hover
        rw [hdeadline, hexact] at hexpected
        exact hexpected
      · rw [← h.memory, ← h.state]
        rfl
  | stop hover hends => exact h.stop hover hends
  | rest => exact h
  | wait => exact h

/-- What the senders did is the part of the schedule that is no longer to come, at its times. -/
structure OnSchedule (schedule : List (Nat × Signal Input))
    (timed : Timed View Memory State Input Effect) : Prop where
  signals : signals timed.history ++ timed.schedule = schedule
  ahead : ∀ part ∈ timed.schedule, timed.now ≤ part.1

private theorem OnSchedule.signal {schedule : List (Nat × Signal Input)}
    (h : timed.OnSchedule schedule) :
    timed.signal.OnSchedule schedule := by
  unfold Timed.signal
  split
  · exact h
  case h_2 due signal rest hschedule =>
    split
    · exact h
    case isFalse hnow =>
      have hdue : timed.now = due := by
        have hahead := h.ahead (due, signal) (by simp [hschedule])
        omega
      have hsignals := h.signals
      rw [hschedule, ← hdue] at hsignals
      have hahead : ∀ part ∈ rest, timed.now ≤ part.1 := fun part hpart =>
        h.ahead part (by simp [hschedule, hpart])
      cases signal with
      | drop => exact ⟨by simpa [Episode.signal?] using hsignals, hahead⟩
      | send command =>
          refine ⟨?_, hahead⟩
          cases hover : timed.run.isOver <;> simpa [hover, Episode.signal?] using hsignals

private theorem OnSchedule.pass {schedule : List (Nat × Signal Input)}
    (h : timed.OnSchedule schedule)
    (hsorted : schedule.Pairwise (·.1 ≤ ·.1)) : (timed.pass automaton).OnSchedule schedule := by
  unfold Timed.pass
  split
  case h_2 => exact h
  case h_1 later hnext hhorizon =>
    refine { h with ahead := fun part hpart => Nat.max_le.mpr ⟨h.ahead part hpart, ?_⟩ }
    -- The horizon is at most the time of the first part, and so of all.
    have hrest : timed.schedule.Pairwise (·.1 ≤ ·.1) :=
      (List.pairwise_append.mp (h.signals ▸ hsorted)).2.1
    cases hschedule : timed.schedule with
    | nil => simp [hschedule] at hpart
    | cons first rest =>
        have hfirst : later ≤ first.1 := by
          unfold horizon at hhorizon
          rw [hschedule] at hhorizon
          cases hdeadline : timed.run.deadline with
          | none =>
              rw [hdeadline] at hhorizon
              cases hhorizon
              exact Nat.le_refl _
          | some deadline =>
              rw [hdeadline] at hhorizon
              cases hhorizon
              exact Nat.min_le_right ..
        rw [hschedule] at hpart hrest
        rcases List.mem_cons.mp hpart with rfl | hlater
        · exact hfirst
        · exact Nat.le_trans hfirst (List.rel_of_pairwise_cons hrest hlater)

private theorem OnSchedule.move [DecidableEq State] {schedule : List (Nat × Signal Input)}
    (h : timed.OnSchedule schedule) (view : View) :
    (timed.move automaton view).OnSchedule schedule := by
  unfold Timed.move
  split
  · exact h
  · refine { h with signals := ?_ }
    have hnone (effects : List Effect) :
        (timed.episode automaton view effects).signal? = none := by
      unfold episode
      split <;> rfl
    simpa [hnone] using h.signals

theorem mirrors_follow [DecidableEq State] (automaton : Automaton View Memory State Input Effect)
    (time : Nat) (initial : Memory × State) (senders : Nat)
    (schedule : List (Nat × Signal Input)) (deeds : List (Deed View)) :
    ((start automaton time initial senders schedule).follow automaton deeds).Mirrors automaton time
      initial senders := by
  unfold follow
  have hstart := mirrors_start automaton time initial senders schedule
  generalize start automaton time initial senders schedule = timed at hstart
  induction deeds generalizing timed with
  | nil => exact hstart
  | cons deed deeds ih =>
      refine ih _ ?_
      cases deed with
      | signal => exact hstart.signal
      | move view => exact hstart.move view
      | pass => exact hstart.pass

theorem onSchedule_follow [DecidableEq State]
    (automaton : Automaton View Memory State Input Effect) (time : Nat)
    (initial : Memory × State) (senders : Nat) (schedule : List (Nat × Signal Input))
    (deeds : List (Deed View)) (hsorted : schedule.Pairwise (·.1 ≤ ·.1))
    (hahead : ∀ part ∈ schedule, time ≤ part.1) :
    ((start automaton time initial senders schedule).follow automaton deeds).OnSchedule
      schedule := by
  unfold follow
  have hstart : (start automaton time initial senders schedule).OnSchedule schedule :=
    ⟨rfl, hahead⟩
  generalize start automaton time initial senders schedule = timed at hstart
  induction deeds generalizing timed with
  | nil => exact hstart
  | cons deed deeds ih =>
      refine ih _ ?_
      cases deed with
      | signal => exact hstart.signal
      | move view => exact hstart.move view
      | pass => exact hstart.pass hsorted

end Timed

end ReplicaRing
