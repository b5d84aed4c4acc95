import ReplicaRing.Proofs.Ping.Conduct

/-!
What decides a ping: an answer, the deadline, a send that fails, or that the target is not known.
Whichever comes first is the only one.
-/

namespace ReplicaRing.Ping

def State.rank : State → Nat
  | .start => 0
  | .sent => 1
  | .waiting => 2
  | .received => 3
  | .success | .timeout | .error => 4

theorem State.eq_waiting_of_rank {state : State} (h : state.rank = 2) : state = .waiting := by
  cases state with
  | waiting => rfl
  | _ => cases h

inductive Decision
  | answer
  | expiry
  | failure
  | absence

namespace Decision

def outcome : Decision → Outcome
  | answer => .success
  | expiry => .timeout
  | failure | absence => .error

def state : Decision → State
  | answer => .received
  | expiry => .timeout
  | failure | absence => .error

private theorem rank_state (decision : Decision) : 2 < decision.state.rank := by
  cases decision <;> decide

theorem outcome_eq_success {decision : Decision} :
    decision.outcome = .success ↔ decision = .answer := by
  cases decision <;> simp [outcome]

theorem outcome_eq_timeout {decision : Decision} :
    decision.outcome = .timeout ↔ decision = .expiry := by
  cases decision <;> simp [outcome]

theorem outcome_eq_error {decision : Decision} :
    decision.outcome = .error ↔ decision = .absence ∨ decision = .failure := by
  cases decision <;> simp [outcome]

end Decision

private theorem Proceeds.rank_le {host : Host} {target : String} {id : UInt64} {roster : Roster}
    {memory : Memory} {state : State} {input : Input} {step : Step}
    (h : Proceeds host target id roster memory state input step) :
    state.rank ≤ step.state.rank := by
  cases h <;> simp [State.rank]

namespace Course

section Definitions

variable (course : Course)

def Feeds (time : Nat) (roster : Roster) (input : Input) : Prop :=
  course.Takes time roster input ∨ course.Fires time roster input

def reaction (time : Nat) (roster : Roster) (input : Input) : Step :=
  react course.host course.target course.id roster (course.run time).memory
    (course.run time).state input

inductive Decides (time : Nat) : Decision → Prop
  | answer (roster : Roster) (reply : Message) (htakes : course.Takes time roster (.pong reply))
      (hwaiting : (course.run time).state = .waiting) (hanswer : IsAnswer course.target reply) :
      Decides time .answer
  | expiry (roster : Roster) (input : Input) (hfires : course.Fires time roster input) :
      Decides time .expiry
  | failure (roster : Roster) (htakes : course.Takes time roster .sendFailed) :
      Decides time .failure
  | absence (roster : Roster) (htakes : course.Takes time roster .start)
      (hnone : roster.find? course.target = none) : Decides time .absence

/-- Before some time there has been a decision, and none before that one. -/
def First (time : Nat) (decision : Decision) : Prop :=
  ∃ earlier, earlier < time ∧ course.Decides earlier decision ∧
    ∀ before < earlier, ∀ other, ¬course.Decides before other

end Definitions

variable {course : Course} {time : Nat} {roster : Roster} {input : Input} {decision : Decision}

theorem run_of_advance {after : Run Memory State Input} {effects : List Effect}
    (hmove : course.events time = .move roster)
    (hadvance : (course.run time).advance course.automaton roster (course.now time) =
      some (after, effects)) : course.run (time + 1) = after := by
  obtain ⟨routed, sends, happly⟩ := { course.after time with run := after }.foldl_apply effects
  simp only [run, now] at hadvance
  rw [run, Course.after, hmove, Conduct.step, hadvance]
  simp only [happly]

theorem Feeds.state_succ (h : course.Feeds time roster input) :
    (course.run (time + 1)).state = (course.reaction time roster input).state := by
  rcases h with ⟨hmove, queue, hnext⟩ | ⟨hmove, hnext⟩
  · have hadvance : (course.run time).advance course.automaton roster (course.now time) =
        some ({ course.run time with queue }.feed course.automaton roster (course.now time) input) := by
      rw [Run.advance, hnext]
    rw [run_of_advance hmove hadvance]
    rfl
  · have hadvance : (course.run time).advance course.automaton roster (course.now time) =
        some ({ course.run time with deadline := none }.feed course.automaton roster
          (course.now time) input) := by
      rw [Run.advance, hnext]
    rw [run_of_advance hmove hadvance]
    rfl

private theorem state_succ_cases (course : Course) (time : Nat) :
    (course.run (time + 1)).state = (course.run time).state ∨
      ∃ roster input, course.Feeds time roster input := by
  have hbecomes := course.run_succ time
  generalize course.run (time + 1) = run at hbecomes
  cases hbecomes with
  | same => exact .inl rfl
  | report => exact .inl (Run.push_state _ _)
  | advance roster after effects hmove hadvance =>
      cases Run.advance_cases hadvance with
      | take input queue hover hterminal hqueue =>
          exact .inr ⟨roster, input, .inl ⟨hmove, queue, Run.next_take hover hterminal hqueue⟩⟩
      | expire due input hover hterminal hqueue hdeadline hdue =>
          exact .inr ⟨roster, input,
            .inr ⟨hmove, Run.next_expire hover hterminal hqueue hdeadline hdue⟩⟩
      | stop => exact .inl rfl

theorem deadline_succ_of_ne (h : (course.run (time + 1)).state ≠ (course.run time).state) :
    (course.run (time + 1)).deadline =
      Run.arm course.automaton (course.now time) (course.run (time + 1)).state := by
  have hbecomes := course.run_succ time
  generalize course.run (time + 1) = run at hbecomes h
  cases hbecomes with
  | same => exact absurd rfl h
  | report => exact absurd (Run.push_state _ _) h
  | advance roster after effects hmove hadvance =>
      cases Run.advance_cases hadvance with
      | take | expire => exact if_neg h
      | stop => exact absurd rfl h

namespace Faithful

theorem fires (h : course.Faithful) (hfires : course.Fires time roster input) :
    (course.run time).state = .waiting ∧ input = .timeout ∧
      ∃ due, (course.run time).deadline = some (due, .timeout) ∧ due ≤ course.now time := by
  obtain ⟨inputs, -, hphase⟩ := (h.orderly time).phase
  have hchooses := (course.run time).next_cases course.automaton (course.now time)
  rw [hfires.2] at hchooses
  cases hchooses with
  | expire due _ hover hterminal hqueue hdeadline hdue =>
      rw [hdeadline] at hphase
      obtain ⟨hstate, rfl⟩ := hphase.eq_waiting
      exact ⟨hstate, rfl, due, hdeadline, hdue⟩

private theorem takes (h : course.Faithful) (htakes : course.Takes time roster input) :
    (course.run time).state.expects input = true ∧ input ≠ .timeout := by
  obtain ⟨-, queue, hnext⟩ := htakes
  obtain ⟨inputs, hinputs, hphase⟩ := (h.orderly time).phase
  have hchooses := (course.run time).next_cases course.automaton (course.now time)
  rw [hnext] at hchooses
  cases hchooses with
  | take _ _ hover hterminal hqueue =>
      rw [hqueue] at hinputs
      cases inputs with
      | nil => cases hinputs
      | cons =>
          cases hinputs
          exact hphase.expects hterminal

theorem expects (h : course.Faithful) (hfeeds : course.Feeds time roster input) :
    (course.run time).state.expects input = true := by
  rcases hfeeds with htakes | hfires
  · exact (h.takes htakes).1
  · obtain ⟨hstate, rfl, -⟩ := h.fires hfires
    rw [hstate]
    rfl

theorem proceeds (h : course.Faithful) (hfeeds : course.Feeds time roster input) :
    Proceeds course.host course.target course.id roster (course.run time).memory
      (course.run time).state input (course.reaction time roster input) :=
  Ping.proceeds (h.expects hfeeds)

theorem rank_succ (h : course.Faithful) (time : Nat) :
    (course.run time).state.rank ≤ (course.run (time + 1)).state.rank := by
  rcases course.state_succ_cases time with hsame | ⟨roster, input, hfeeds⟩
  · exact Nat.le_of_eq (congrArg State.rank hsame.symm)
  · rw [hfeeds.state_succ]
    exact (h.proceeds hfeeds).rank_le

theorem rank_mono (h : course.Faithful) {later : Nat} (hle : time ≤ later) :
    (course.run time).state.rank ≤ (course.run later).state.rank := by
  induction hle with
  | refl => exact Nat.le_refl _
  | step _ ih => exact Nat.le_trans ih (h.rank_succ _)

theorem deadline_succ (h : course.Faithful)
    (hsame : (course.run (time + 1)).state = (course.run time).state)
    (hlive : (course.run time).state.isTerminal = false) :
    (course.run (time + 1)).deadline = (course.run time).deadline := by
  have horderly := h.orderly time
  have hbecomes := course.run_succ time
  generalize course.run (time + 1) = run at hbecomes hsame
  cases hbecomes with
  | same => rfl
  | report =>
      unfold Run.push
      split <;> rfl
  | advance roster after effects hmove hadvance =>
      cases Run.advance_cases hadvance with
      | take => exact if_pos hsame
      | expire due input hover hterminal hqueue hdeadline hdue =>
          have hfires : course.Fires time roster input :=
            ⟨hmove, Run.next_expire hover hterminal hqueue hdeadline hdue⟩
          obtain ⟨hstate, rfl, -⟩ := h.fires hfires
          simp only [Run.feed, hstate] at hsame
          cases hsame
      | stop hover hends =>
          have hterminal := horderly.isTerminal_of_ends hends
          rw [hlive] at hterminal
          cases hterminal

end Faithful

private theorem Takes.unique {other : Roster} {another : Input} (h : course.Takes time roster input)
    (hother : course.Takes time other another) : another = input := by
  obtain ⟨-, queue, hnext⟩ := h
  obtain ⟨-, queue, hagain⟩ := hother
  rw [hnext] at hagain
  cases hagain
  rfl

namespace Decides

theorem state_succ (hdecides : course.Decides time decision) (h : course.Faithful) :
    (course.run (time + 1)).state = decision.state ∧ (course.run time).state.rank ≤ 2 := by
  have hstep : ∀ {roster input}, course.Feeds time roster input →
      ∃ step, (course.run (time + 1)).state = step.state ∧
        Proceeds course.host course.target course.id roster (course.run time).memory
          (course.run time).state input step := fun hfeeds =>
    ⟨_, hfeeds.state_succ, h.proceeds hfeeds⟩
  cases hdecides with
  | answer roster reply htakes hwaiting hanswer =>
      obtain ⟨step, hstate, hproceeds⟩ := hstep (.inl htakes)
      rw [hstate]
      rw [hwaiting] at hproceeds ⊢
      cases hproceeds with
      | answer => exact ⟨rfl, Nat.le_refl 2⟩
      | stray _ hstray => exact absurd hanswer hstray
  | expiry roster input hfires =>
      obtain ⟨step, hstate, hproceeds⟩ := hstep (.inr hfires)
      obtain ⟨hwaiting, rfl, -⟩ := h.fires hfires
      rw [hstate]
      rw [hwaiting] at hproceeds ⊢
      cases hproceeds with
      | expire => exact ⟨rfl, Nat.le_refl 2⟩
  | failure roster htakes =>
      obtain ⟨step, hstate, hproceeds⟩ := hstep (.inl htakes)
      rw [hstate]
      generalize (course.run time).state = state at hproceeds
      cases hproceeds with
      | fail => exact ⟨rfl, Nat.le_refl 2⟩
  | absence roster htakes hnone =>
      obtain ⟨step, hstate, hproceeds⟩ := hstep (.inl htakes)
      rw [hstate]
      generalize (course.run time).state = state at hproceeds
      cases hproceeds with
      | depart peer hpeer =>
          rw [hnone] at hpeer
          cases hpeer
      | miss => exact ⟨rfl, Nat.zero_le 2⟩

variable {other : Nat} {another : Decision}

private theorem not_lt (hdecides : course.Decides time decision)
    (hother : course.Decides other another)
    (h : course.Faithful) : ¬time < other := by
  intro hlt
  obtain ⟨hstate, -⟩ := hdecides.state_succ h
  obtain ⟨-, hopen⟩ := hother.state_succ h
  have hclosed := decision.rank_state
  have hrank := h.rank_mono (Nat.succ_le_of_lt hlt)
  rw [Nat.succ_eq_add_one, hstate] at hrank
  omega

theorem unique (hdecides : course.Decides time decision) (hother : course.Decides other another)
    (h : course.Faithful) : other = time ∧ another = decision := by
  obtain rfl : other = time :=
    Nat.le_antisymm (Nat.le_of_not_lt (hdecides.not_lt hother h))
      (Nat.le_of_not_lt (hother.not_lt hdecides h))
  have hstate : decision.state = another.state :=
    (hdecides.state_succ h).1.symm.trans (hother.state_succ h).1
  refine ⟨rfl, ?_⟩
  cases hdecides with
  | answer | expiry => cases hother <;> first | rfl | cases hstate
  | failure roster htakes =>
      cases hother with
      | failure => rfl
      | absence _ hstart => cases htakes.unique hstart
      | _ => cases hstate
  | absence roster htakes =>
      cases hother with
      | absence => rfl
      | failure _ hfailed => cases htakes.unique hfailed
      | _ => cases hstate

private theorem first {earlier : Nat} (hdecides : course.Decides earlier decision)
    (hbefore : earlier < time)
    (h : course.Faithful) : course.First time decision := by
  refine ⟨earlier, hbefore, hdecides, fun before hlt other hother => ?_⟩
  exact hother.not_lt hdecides h hlt

end Decides

private theorem First.unique {another : Decision} (hfirst : course.First time decision)
    (hother : course.First time another) (h : course.Faithful) : another = decision := by
  obtain ⟨earlier, -, hdecides, -⟩ := hfirst
  obtain ⟨other, -, hagain, -⟩ := hother
  exact (hdecides.unique hagain h).2

namespace Faithful

private theorem exists_decides (h : course.Faithful) (hopen : (course.run time).state.rank ≤ 2)
    (hclosed : 2 < (course.run (time + 1)).state.rank) :
    ∃ decision, course.Decides time decision ∧
      (course.run (time + 1)).state = decision.state := by
  rcases course.state_succ_cases time with hsame | ⟨roster, input, hfeeds⟩
  · rw [hsame] at hclosed
    omega
  · have hproceeds := h.proceeds hfeeds
    rw [hfeeds.state_succ] at hclosed ⊢
    -- A timeout comes from the deadline, and everything else from the queue.
    have htakes : input ≠ .timeout → course.Takes time roster input := by
      intro hne
      rcases hfeeds with htakes | hfires
      · exact htakes
      · exact absurd (h.fires hfires).2.1 hne
    have hfires : input = .timeout → course.Fires time roster input := by
      intro heq
      rcases hfeeds with htakes | hfires
      · exact absurd heq (h.takes htakes).2
      · exact hfires
    generalize course.reaction time roster input = step at hproceeds hclosed
    generalize hstate : (course.run time).state = state at hproceeds hopen
    cases hproceeds with
    | depart | listen | stray => exact absurd hclosed (by simp [State.rank])
    | miss hnone => exact ⟨_, .absence roster (htakes nofun) hnone, rfl⟩
    | answer reply hanswer => exact ⟨_, .answer roster reply (htakes nofun) hstate hanswer, rfl⟩
    | fail => exact ⟨_, .failure roster (htakes nofun), rfl⟩
    | expire => exact ⟨_, .expiry roster _ (hfires rfl), rfl⟩
    | again | settle => exact absurd hopen (by simp [State.rank])

private theorem decided (h : course.Faithful) (hclosed : 2 < (course.run time).state.rank) :
    ∃ earlier decision, earlier < time ∧ course.Decides earlier decision ∧
      ((course.run time).state = decision.state ∨
        decision = .answer ∧ (course.run time).state = .success) := by
  induction time with
  | zero => cases hclosed
  | succ time ih =>
      by_cases hbefore : 2 < (course.run time).state.rank
      · obtain ⟨earlier, decision, hlt, hdecides, hstate⟩ := ih hbefore
        refine ⟨earlier, decision, Nat.lt_succ_of_lt hlt, hdecides, ?_⟩
        rcases course.state_succ_cases time with hsame | ⟨roster, input, hfeeds⟩
        · rwa [hsame]
        · have hproceeds := h.proceeds hfeeds
          rw [hfeeds.state_succ]
          generalize course.reaction time roster input = step at hproceeds
          generalize (course.run time).state = state at hproceeds hbefore hstate
          -- Only an answer leads to a state that is decided and still goes on.
          cases hproceeds with
          | again => exact hstate
          | settle =>
              rcases hstate with hreceived | ⟨hanswer, -⟩
              · cases decision with
                | answer => exact .inr ⟨rfl, rfl⟩
                | _ => cases hreceived
              · exact .inr ⟨hanswer, rfl⟩
          | _ => exact absurd hbefore (by simp [State.rank])
      · obtain ⟨decision, hdecides, hstate⟩ := h.exists_decides (Nat.le_of_not_lt hbefore) hclosed
        exact ⟨time, decision, Nat.lt_succ_self time, hdecides, .inl hstate⟩

private theorem exists_first (h : course.Faithful)
    (hterminal : (course.run time).state.isTerminal = true) :
    ∃ decision, course.First time decision ∧
      (course.run time).state.outcome = decision.outcome := by
  have hclosed : 2 < (course.run time).state.rank := by
    generalize (course.run time).state = state at hterminal
    cases state with
    | success | timeout | error => decide
    | _ => cases hterminal
  obtain ⟨earlier, decision, hlt, hdecides, hstate⟩ := h.decided hclosed
  refine ⟨decision, hdecides.first hlt h, ?_⟩
  rcases hstate with hstate | ⟨rfl, hstate⟩
  · rw [hstate] at hterminal ⊢
    cases decision with
    | answer => cases hterminal
    | _ => rfl
  · rw [hstate]
    rfl

theorem outcome_eq_iff (h : course.Faithful)
    (hterminal : (course.run time).state.isTerminal = true) {outcome : Outcome} :
    (course.run time).state.outcome = outcome ↔
      ∃ decision, course.First time decision ∧ decision.outcome = outcome := by
  obtain ⟨decision, hfirst, houtcome⟩ := h.exists_first hterminal
  constructor
  · intro heq
    exact ⟨decision, hfirst, houtcome.symm.trans heq⟩
  · rintro ⟨other, hother, rfl⟩
    rw [houtcome, hfirst.unique hother h]

end Faithful

end Course

end ReplicaRing.Ping
