import ReplicaRing.Proofs.Automaton.Timed

/-! What a run makes of any schedule: the laws of the histories that it can have. -/

namespace ReplicaRing.Timed

open History

variable {View Memory State Input Effect : Type}

/-- What the run does next, and it does it at once: no time passes before. -/
def Makes [DecidableEq State] (automaton : Automaton View Memory State Input Effect)
    (timed : Timed View Memory State Input Effect)
    (episode : View → Episode View State Input Effect) : Prop :=
  timed.pass automaton = timed ∧
    ∀ view, (timed.move automaton view).history = timed.history ++ [episode view]

/-- The run is over, and only its senders have gone on since an earlier moment. -/
structure Rests (timed after : Timed View Memory State Input Effect) : Prop where
  isOver : after.run.isOver = true
  state : after.run.state = timed.run.state
  history : ∃ later, after.history = timed.history ++ later ∧
    ∀ episode ∈ later, episode.signal? ≠ none

structure Refines [DecidableEq State] (automaton : Automaton View Memory State Input Effect)
    (time : Nat) (initial : Memory × State) (senders : Nat) (schedule : List (Nat × Signal Input))
    (timed : Timed View Memory State Input Effect) : Prop where
  scheduled : schedule.Pairwise (·.1 ≤ ·.1) → (∀ part ∈ schedule, time ≤ part.1) →
    signals timed.history ++ timed.schedule = schedule
  /-- What is fed from the queue was sent, and nothing that was sent before it is left out. -/
  inOrder : (taken timed.history).map Command.input <+: commands timed.history
  /-- What the automaton sends itself goes into the queue as well. -/
  queued : ∀ before feeding after, timed.history = before ++ .fed feeding :: after →
    feeding.queued = (automaton.react feeding.view (outcome automaton initial before).1
      (outcome automaton initial before).2 feeding.input).queued
  taking : ∀ before feeding after, timed.history = before ++ .fed feeding :: after →
    feeding.isTimeout = false → (waiting before).head? = some (.input feeding.input)
  /-- A timeout comes exactly when it is due, for a state that is still there and has had none,
  and not before what is in the queue. -/
  expiry : ∀ before feeding after, timed.history = before ++ .fed feeding :: after →
    feeding.isTimeout = true →
    waiting before = [] ∧ ∃ entered later duration,
      Stay automaton time initial before entered later ∧
      (∀ episode ∈ later, episode.isTimeout = false) ∧
      automaton.timeout (outcome automaton initial before).2 = some (duration, feeding.input) ∧
      feeding.time = entered + duration
  /-- As long as the state stays and its timeout has not come, the deadline is the one that was
  armed when the state was entered, and the time does not pass over it. -/
  kept : timed.run.isOver = false →
    Deadline automaton time initial timed.history timed.run.deadline ∧
      ∀ due input, timed.run.deadline = some (due, input) → timed.now ≤ due
  fold : (timed.run.memory, timed.run.state) = outcome automaton initial timed.history
  /-- Nothing is fed in a terminal state, past a command to terminate or after the end. -/
  halting : ∀ before feeding after, timed.history = before ++ .fed feeding :: after →
    automaton.isTerminal (outcome automaton initial before).2 = false ∧
      (waiting before).head? ≠ some .terminate ∧ endings before = 0
  ending : ∀ before now result effects after,
    timed.history = before ++ .ended now result effects :: after →
    result = (outcome automaton initial before).2 ∧
      effects = automaton.retire (outcome automaton initial before).1 result ∧
      Ends automaton time initial senders before
  /-- Without senders a run goes on as long as a deadline is armed, and no longer. -/
  closing : timed.run.isOver = false → automaton.isTerminal timed.run.state = false →
    waiting timed.history = [] → senders ≤ drops timed.history →
    (timed.run.next automaton timed.now = .stop ↔ timed.run.deadline = none)
  publishing : timed.run.next automaton timed.now = .stop →
    timed.pass automaton = timed ∧ ∀ view, (timed.move automaton view).run.isOver = true ∧
      (timed.move automaton view).history = timed.history ++
        [.ended timed.now timed.run.state (automaton.retire timed.run.memory timed.run.state)]
  once : endings timed.history = if timed.run.isOver then 1 else 0
  /-- The first of the queue is fed at once, whatever is due. -/
  serves : timed.run.isOver = false → automaton.isTerminal timed.run.state = false →
    ∀ input queue, waiting timed.history = .input input :: queue →
      timed.Makes automaton fun view => .fed (timed.feeding automaton view input false)
  /-- With nothing in the queue, what is due is fed at once. -/
  fires : timed.run.isOver = false → automaton.isTerminal timed.run.state = false →
    waiting timed.history = [] → ∀ due input,
      Deadline automaton time initial timed.history (some (due, input)) → due ≤ timed.now →
        timed.Makes automaton fun view => .fed (timed.feeding automaton view input true)
  /-- Where there is a reason to end, the state is published at once. -/
  stops : timed.run.isOver = false → Ends automaton time initial senders timed.history →
    timed.Makes automaton fun _ =>
      .ended timed.now timed.run.state (automaton.retire timed.run.memory timed.run.state)
  waits : timed.run.isOver = false → automaton.isTerminal timed.run.state = false →
    waiting timed.history = [] →
    (∀ due input, Deadline automaton time initial timed.history (some (due, input)) →
      timed.now < due) →
    (Deadline automaton time initial timed.history none → drops timed.history < senders) →
    ∀ view, timed.move automaton view = timed
  lasting : timed.run.isOver = true → ∀ deeds, timed.Rests (timed.follow automaton deeds)
  /-- When nothing is left to happen, the result has been published, unless a sender is still there
  that could go on. -/
  settled : timed.run.next automaton timed.now = .wait → timed.signal = timed →
    timed.pass automaton = timed →
      endings timed.history = 1 ∨
        waiting timed.history = [] ∧ Deadline automaton time initial timed.history none ∧
          drops timed.history < senders

variable {automaton : Automaton View Memory State Input Effect} {time : Nat}
  {initial : Memory × State} {senders : Nat} {timed : Timed View Memory State Input Effect}

private theorem Rests.refl (hover : timed.run.isOver = true) : timed.Rests timed :=
  ⟨hover, rfl, [], (List.append_nil _).symm, by simp⟩

theorem Rests.trans {middle after : Timed View Memory State Input Effect}
    (h : timed.Rests middle) (hrests : middle.Rests after) : timed.Rests after := by
  obtain ⟨first, hfirst, hsignals⟩ := h.history
  obtain ⟨rest, hrest, hothers⟩ := hrests.history
  refine ⟨hrests.isOver, hrests.state.trans h.state, first ++ rest, ?_, ?_⟩
  · rw [hrest, hfirst, List.append_assoc]
  · intro episode hepisode
    exact (List.mem_append.mp hepisode).elim (hsignals episode) (hothers episode)

section Laws

variable {history before after : History View State Input Effect} {feeding : Feeding View Input}

private theorem taking (h : Conforms automaton time initial senders history)
    (hfed : history = before ++ .fed feeding :: after) (hqueue : feeding.isTimeout = false) :
    (waiting before).head? = some (.input feeding.input) := by
  cases h before _ after hfed with
  | take _ _ _ hwaiting => exact hwaiting
  | expire _ _ _ _ _ htimeout => simp [hqueue] at htimeout

private theorem queued (h : Conforms automaton time initial senders history)
    (hfed : history = before ++ .fed feeding :: after) :
    feeding.queued = (automaton.react feeding.view (outcome automaton initial before).1
      (outcome automaton initial before).2 feeding.input).queued := by
  cases h before _ after hfed with
  | take _ _ _ _ _ _ hqueued => exact hqueued
  | expire _ _ _ _ _ _ hqueued => exact hqueued

private theorem expiry (h : Conforms automaton time initial senders history)
    (hfed : history = before ++ .fed feeding :: after) (htimeout : feeding.isTimeout = true) :
    waiting before = [] ∧ ∃ entered later duration,
      Stay automaton time initial before entered later ∧
      (∀ episode ∈ later, episode.isTimeout = false) ∧
      automaton.timeout (outcome automaton initial before).2 = some (duration, feeding.input) ∧
      feeding.time = entered + duration := by
  cases h before _ after hfed with
  | take _ _ _ _ _ hqueue => simp [htimeout] at hqueue
  | expire _ _ _ hwaiting hdeadline => exact ⟨hwaiting, hdeadline.due⟩

private theorem halting (h : Conforms automaton time initial senders history)
    (hfed : history = before ++ .fed feeding :: after) :
    automaton.isTerminal (outcome automaton initial before).2 = false ∧
      (waiting before).head? ≠ some .terminate ∧ endings before = 0 := by
  cases h before _ after hfed with
  | take _ hopen hterminal hwaiting => exact ⟨hterminal, by simp [hwaiting], hopen⟩
  | expire _ hopen hterminal hwaiting => exact ⟨hterminal, by simp [hwaiting], hopen⟩

private theorem ending {now : Nat} {result : State} {effects : List Effect}
    (h : Conforms automaton time initial senders history)
    (hended : history = before ++ .ended now result effects :: after) :
    result = (outcome automaton initial before).2 ∧
      effects = automaton.retire (outcome automaton initial before).1 result ∧
      Ends automaton time initial senders before := by
  cases h before _ after hended with
  | ended _ _ hends => exact ⟨rfl, rfl, hends⟩

end Laws

private theorem Mirrors.closing (h : timed.Mirrors automaton time initial senders)
    (hover : timed.run.isOver = false) (hterminal : automaton.isTerminal timed.run.state = false)
    (hwaiting : History.waiting timed.history = []) (hdrops : senders ≤ drops timed.history) :
    timed.run.next automaton timed.now = .stop ↔ timed.run.deadline = none := by
  have hqueue : timed.run.queue = [] := (h.waiting hover).symm.trans hwaiting
  have hsenders : timed.run.senders = 0 := by
    have hleft := h.senders
    omega
  constructor
  · intro hstop
    have hchooses := timed.run.next_cases automaton timed.now
    rw [hstop] at hchooses
    cases hchooses with
    | stop _ hends =>
        cases hends with
        | terminal hends => simp [hterminal] at hends
        | terminated queue hends => simp [hqueue] at hends
        | deserted _ hnone => exact hnone
  · intro hnone
    exact Run.next_stop hover (.deserted hqueue hnone hsenders)

section Waiting

private theorem le_now_of_pass {later : Nat} (hnext : timed.run.next automaton timed.now = .wait)
    (hpass : timed.pass automaton = timed) (hlater : timed.horizon = some later) :
    later ≤ timed.now := by
  rw [Timed.pass, hnext, hlater] at hpass
  have hnow : max timed.now later = timed.now := congrArg Timed.now hpass
  exact hnow ▸ Nat.le_max_right timed.now later

private theorem now_lt_of_signal {due : Nat} {signal : Signal Input}
    {rest : List (Nat × Signal Input)}
    (hsignal : timed.signal = timed) (hschedule : timed.schedule = (due, signal) :: rest) :
    timed.now < due := by
  refine Nat.lt_of_not_le fun hdue => ?_
  have hrest : timed.signal.schedule = rest := by
    cases signal <;> simp [Timed.signal, hschedule, Nat.not_lt_of_le hdue]
  rw [hsignal, hschedule] at hrest
  exact List.cons_ne_self _ _ hrest

private theorem deadline_eq_none (hnext : timed.run.next automaton timed.now = .wait)
    (hsignal : timed.signal = timed) (hpass : timed.pass automaton = timed)
    (hlater : ∀ due input, timed.run.deadline = some (due, input) → timed.now < due) :
    timed.run.deadline = none := by
  cases hdeadline : timed.run.deadline with
  | none => rfl
  | some deadline =>
      have hdue := hlater deadline.1 deadline.2 hdeadline
      cases hschedule : timed.schedule with
      | nil =>
          have hhorizon : timed.horizon = some deadline.1 := by
            simp [horizon, hdeadline, hschedule]
          exact absurd (le_now_of_pass hnext hpass hhorizon) (Nat.not_le_of_lt hdue)
      | cons part rest =>
          have hpart := now_lt_of_signal hsignal hschedule
          have hhorizon : timed.horizon = some (min deadline.1 part.1) := by
            simp [horizon, hdeadline, hschedule]
          have hle := le_now_of_pass hnext hpass hhorizon
          omega

private theorem Mirrors.settled (h : timed.Mirrors automaton time initial senders)
    (hnext : timed.run.next automaton timed.now = .wait) (hsignal : timed.signal = timed)
    (hpass : timed.pass automaton = timed) :
    History.endings timed.history = 1 ∨
      History.waiting timed.history = [] ∧
        Deadline automaton time initial timed.history none ∧ drops timed.history < senders := by
  have hchooses := timed.run.next_cases automaton timed.now
  rw [hnext] at hchooses
  cases hchooses with
  | rest hover => exact .inl (by rw [h.endings, hover, if_pos rfl])
  | wait hover _ hqueue hlater hsome =>
      have hnone := deadline_eq_none hnext hsignal hpass hlater
      refine .inr ⟨(h.waiting hover).trans hqueue, hnone ▸ h.deadline hover, ?_⟩
      have hleft := h.senders
      have hpositive := hsome hnone
      omega

end Waiting

section Making

variable [DecidableEq State]

private theorem makes_take {input : Input} {queue : List (Command Input)}
    (hnext : timed.run.next automaton timed.now = .take input queue) :
    timed.Makes automaton fun view => .fed (timed.feeding automaton view input false) :=
  ⟨by simp [Timed.pass, hnext], fun view => by simp [Timed.move, Run.advance, episode, hnext]⟩

private theorem makes_expire {input : Input}
    (hnext : timed.run.next automaton timed.now = .expire input) :
    timed.Makes automaton fun view => .fed (timed.feeding automaton view input true) :=
  ⟨by simp [Timed.pass, hnext], fun view => by simp [Timed.move, Run.advance, episode, hnext]⟩

private theorem makes_stop (hnext : timed.run.next automaton timed.now = .stop) :
    timed.Makes automaton fun _ =>
      .ended timed.now timed.run.state (automaton.retire timed.run.memory timed.run.state) :=
  ⟨by simp [Timed.pass, hnext], fun view => by simp [Timed.move, Run.advance, episode, hnext]⟩

private theorem publishing (hstop : timed.run.next automaton timed.now = .stop) :
    timed.pass automaton = timed ∧ ∀ view, (timed.move automaton view).run.isOver = true ∧
      (timed.move automaton view).history = timed.history ++
        [.ended timed.now timed.run.state
          (automaton.retire timed.run.memory timed.run.state)] := by
  obtain ⟨hpass, hhistory⟩ := makes_stop hstop
  exact ⟨hpass, fun view => ⟨by simp [Timed.move, Run.advance, hstop], hhistory view⟩⟩

private theorem Mirrors.serves (h : timed.Mirrors automaton time initial senders)
    (hover : timed.run.isOver = false) (hterminal : automaton.isTerminal timed.run.state = false)
    {input : Input} {queue : List (Command Input)}
    (hwaiting : History.waiting timed.history = .input input :: queue) :
    timed.Makes automaton fun view => .fed (timed.feeding automaton view input false) :=
  makes_take (Run.next_take hover hterminal ((h.waiting hover).symm.trans hwaiting))

private theorem Mirrors.fires (h : timed.Mirrors automaton time initial senders)
    (hover : timed.run.isOver = false) (hterminal : automaton.isTerminal timed.run.state = false)
    (hwaiting : History.waiting timed.history = []) {due : Nat} {input : Input}
    (hdeadline : Deadline automaton time initial timed.history (some (due, input)))
    (hdue : due ≤ timed.now) :
    timed.Makes automaton fun view => .fed (timed.feeding automaton view input true) :=
  makes_expire (Run.next_expire hover hterminal ((h.waiting hover).symm.trans hwaiting)
    ((h.deadline hover).unique hdeadline) hdue)

private theorem Mirrors.stops (h : timed.Mirrors automaton time initial senders)
    (hover : timed.run.isOver = false)
    (hends : History.Ends automaton time initial senders timed.history) :
    timed.Makes automaton fun _ =>
      .ended timed.now timed.run.state (automaton.retire timed.run.memory timed.run.state) :=
  makes_stop (Run.next_stop hover ((h.ends_iff hover).mpr hends))

private theorem Mirrors.waits (h : timed.Mirrors automaton time initial senders)
    (hover : timed.run.isOver = false) (hterminal : automaton.isTerminal timed.run.state = false)
    (hwaiting : History.waiting timed.history = [])
    (hlater : ∀ due input, Deadline automaton time initial timed.history (some (due, input)) →
      timed.now < due)
    (hsenders : Deadline automaton time initial timed.history none →
      drops timed.history < senders) (view : View) : timed.move automaton view = timed := by
  have hdeadline := h.deadline hover
  have hnext : timed.run.next automaton timed.now = .wait := by
    refine Run.next_wait hterminal ((h.waiting hover).symm.trans hwaiting)
      (fun due input hsome => hlater due input (hsome ▸ hdeadline)) fun hnone => ?_
    have hleft := h.senders
    have hfew := hsenders (hnone ▸ hdeadline)
    omega
  simp [Timed.move, Run.advance, hnext]

private theorem rests_act (hover : timed.run.isOver = true) (deed : Deed View) :
    timed.Rests (timed.act automaton deed) := by
  cases deed with
  | move view =>
      have hmove : timed.move automaton view = timed := by
        simp [Timed.move, Run.advance, Run.next, hover]
      rw [act, hmove]
      exact .refl hover
  | pass =>
      rw [act, Timed.pass]
      split
      · exact { Rests.refl hover with }
      · exact .refl hover
  | signal =>
      rw [act, Timed.signal]
      split
      · exact .refl hover
      case h_2 due signal rest hschedule =>
        split
        · exact .refl hover
        · cases signal with
          | drop => exact ⟨hover, rfl, _, rfl, by simp [Episode.signal?]⟩
          | send command =>
              have hpush := Run.push_of_isOver command hover
              exact ⟨(congrArg Run.isOver hpush).trans hover, congrArg Run.state hpush, _, rfl,
                by simp [Episode.signal?]⟩

private theorem rests_follow (hover : timed.run.isOver = true) (deeds : List (Deed View)) :
    timed.Rests (timed.follow automaton deeds) := by
  induction deeds generalizing timed with
  | nil => exact .refl hover
  | cons deed deeds ih =>
      have hact : timed.Rests (timed.act automaton deed) := rests_act hover deed
      exact hact.trans (ih hact.isOver)

/-- Every run, in every order in which things can happen to it, keeps to the laws. -/
theorem refines (automaton : Automaton View Memory State Input Effect) (time : Nat)
    (initial : Memory × State) (senders : Nat) (schedule : List (Nat × Signal Input))
    (deeds : List (Deed View)) :
    Refines automaton time initial senders schedule
      ((start automaton time initial senders schedule).follow automaton deeds) := by
  have hmirrors := mirrors_follow automaton time initial senders schedule deeds
  have honSchedule := onSchedule_follow automaton time initial senders schedule deeds
  generalize (start automaton time initial senders schedule).follow automaton deeds = timed
    at hmirrors honSchedule
  exact {
    scheduled := fun hsorted hahead => (honSchedule hsorted hahead).signals
    inOrder := hmirrors.taken
    queued := fun _ _ _ => queued hmirrors.conforms
    taking := fun _ _ _ => taking hmirrors.conforms
    expiry := fun _ _ _ => expiry hmirrors.conforms
    kept := fun hover => ⟨hmirrors.deadline hover, hmirrors.punctual⟩
    fold := hmirrors.outcome
    halting := fun _ _ _ => halting hmirrors.conforms
    ending := fun _ _ _ _ _ => ending hmirrors.conforms
    closing := hmirrors.closing
    publishing := publishing
    once := hmirrors.endings
    serves := fun hover hterminal _ _ => hmirrors.serves hover hterminal
    fires := fun hover hterminal hwaiting _ _ => hmirrors.fires hover hterminal hwaiting
    stops := hmirrors.stops
    waits := hmirrors.waits
    lasting := rests_follow
    settled := hmirrors.settled }

end Making

end ReplicaRing.Timed
