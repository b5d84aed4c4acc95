import ReplicaRing.Proofs.Ping.Ending

/-! How a ping ends, and that it is as it should be on the way. -/

namespace ReplicaRing.Ping

namespace Course

section Definitions

variable (course : Course)

def Enters (time : Nat) : Prop :=
  (course.run time).state ≠ .waiting ∧ (course.run (time + 1)).state = .waiting

/-- A ping that is as it should be at some time of its course. -/
structure Exact (time : Nat) : Prop where
  /-- Short of its end there is an input in the queue, or a deadline that will pass. -/
  alive : (course.run time).state.isTerminal = false →
    (course.run time).isOver = false ∧
      ((course.run time).queue ≠ [] ∨ (course.run time).deadline ≠ none)
  final : (course.run time).isOver = true → (course.run time).state.isTerminal = true
  expected : ∀ roster input, course.Feeds time roster input →
    (course.run time).state.expects input = true
  sent : ∀ roster input, course.Feeds time roster input → (course.run time).state = .sent →
    input = .settle
  stray : ∀ roster reply, course.Takes time roster (.pong reply) →
    ¬((course.run time).state = .waiting ∧ IsAnswer course.target reply) →
      (course.run (time + 1)).state = (course.run time).state ∧
        (course.run (time + 1)).deadline = (course.run time).deadline
  delivered : ∀ message, course.events time = .deliver message →
    (course.run (time + 1)).state = (course.run time).state ∧
      (course.run (time + 1)).deadline = (course.run time).deadline
  /-- The deadline of the wait is that of the one time at which the wait began. -/
  armed : (course.run time).state = .waiting → ∃ entered, entered < time ∧ course.Enters entered ∧
    (∀ other, course.Enters other → other = entered) ∧
    (course.run time).deadline =
      some (course.now entered + course.host.protocol.pingTimeout, .timeout)
  unarmed : (course.run time).state ≠ .waiting → (course.run time).deadline = none
  fired : ∀ roster input, course.Fires time roster input → ∃ entered, entered < time ∧
    course.Enters entered ∧
      course.now entered + course.host.protocol.pingTimeout ≤ course.now time
  once : ∀ decision, course.Decides time decision → ∀ other another,
    course.Decides other another → other = time ∧ another = decision
  ends : ∀ decision, course.Decides time decision → course.Moving →
    ∃ later, time < later ∧ (course.run later).isOver = true
  success : (course.run time).state.isTerminal = true →
    ((course.run time).state.outcome = .success ↔ course.First time .answer)
  timeout : (course.run time).state.isTerminal = true →
    ((course.run time).state.outcome = .timeout ↔ course.First time .expiry)
  error : (course.run time).state.isTerminal = true →
    ((course.run time).state.outcome = .error ↔
      course.First time .absence ∨ course.First time .failure)

end Definitions

variable {course : Course} {time : Nat} {roster : Roster} {input : Input}

namespace Enters

private theorem rank_lt (hentered : course.Enters time) (h : course.Faithful) :
    (course.run time).state.rank < 2 := by
  obtain ⟨hbefore, hwaiting⟩ := hentered
  have hrank := h.rank_succ time
  rw [hwaiting] at hrank
  exact Nat.lt_of_le_of_ne hrank fun heq => hbefore (State.eq_waiting_of_rank heq)

private theorem not_lt {other : Nat} (hentered : course.Enters time) (hother : course.Enters other)
    (h : course.Faithful) : ¬time < other := by
  intro hlt
  have hrank := h.rank_mono (Nat.succ_le_of_lt hlt)
  rw [Nat.succ_eq_add_one, hentered.2] at hrank
  exact Nat.not_lt_of_le hrank (hother.rank_lt h)

private theorem unique {other : Nat} (hentered : course.Enters time) (hother : course.Enters other)
    (h : course.Faithful) : other = time :=
  Nat.le_antisymm (Nat.le_of_not_lt (hentered.not_lt hother h))
    (Nat.le_of_not_lt (hother.not_lt hentered h))

end Enters

namespace Faithful

private theorem armed (h : course.Faithful) (hwaiting : (course.run time).state = .waiting) :
    ∃ entered, entered < time ∧ course.Enters entered ∧
      (course.run time).deadline =
        some (course.now entered + course.host.protocol.pingTimeout, .timeout) := by
  induction time with
  | zero => cases hwaiting
  | succ time ih =>
      by_cases hbefore : (course.run time).state = .waiting
      · obtain ⟨entered, hlt, hentered, hdeadline⟩ := ih hbefore
        have hlive : (course.run time).state.isTerminal = false := by
          rw [hbefore]
          rfl
        refine ⟨entered, Nat.lt_succ_of_lt hlt, hentered, ?_⟩
        rw [h.deadline_succ (hwaiting.trans hbefore.symm) hlive, hdeadline]
      · refine ⟨time, Nat.lt_succ_self time, ⟨hbefore, hwaiting⟩, ?_⟩
        have hne : (course.run (time + 1)).state ≠ (course.run time).state := by
          rw [hwaiting]
          exact Ne.symm hbefore
        rw [deadline_succ_of_ne hne, hwaiting]
        rfl

private theorem alive (h : course.Faithful) (hlive : (course.run time).state.isTerminal = false) :
    (course.run time).isOver = false ∧
      ((course.run time).queue ≠ [] ∨ (course.run time).deadline ≠ none) := by
  obtain ⟨⟨inputs, hinputs, hphase⟩, -, hfinal⟩ := h.orderly time
  constructor
  · cases hover : (course.run time).isOver with
    | false => rfl
    | true => cases hlive.symm.trans (hfinal hover)
  · rw [hinputs]
    generalize (course.run time).deadline = deadline at hphase
    generalize (course.run time).state = state at hphase hlive
    cases hphase with
    | start | sent | received => exact .inl (by simp)
    | waiting => exact .inr nofun
    | final _ _ hstate =>
        rw [hstate] at hlive
        cases hlive

private theorem stray (h : course.Faithful) {reply : Message}
    (htakes : course.Takes time roster (.pong reply))
    (hstray : ¬((course.run time).state = .waiting ∧ IsAnswer course.target reply)) :
    (course.run (time + 1)).state = (course.run time).state ∧
      (course.run (time + 1)).deadline = (course.run time).deadline := by
  have hproceeds := h.proceeds (.inl htakes)
  have hstep := Feeds.state_succ (.inl htakes)
  generalize course.reaction time roster (.pong reply) = step at hproceeds hstep
  have hkept : (course.run (time + 1)).state = (course.run time).state ∧
      (course.run time).state.isTerminal = false := by
    rw [hstep]
    generalize (course.run time).state = state at hproceeds hstray
    cases hproceeds with
    | answer _ hanswer => exact absurd ⟨rfl, hanswer⟩ hstray
    | stray | again => exact ⟨rfl, rfl⟩
  exact ⟨hkept.1, h.deadline_succ hkept.1 hkept.2⟩

end Faithful

private theorem delivered {message : Message} (hdeliver : course.events time = .deliver message) :
    (course.run (time + 1)).state = (course.run time).state ∧
      (course.run (time + 1)).deadline = (course.run time).deadline := by
  have hbecomes := course.run_succ time
  generalize course.run (time + 1) = run at hbecomes
  cases hbecomes with
  | same => exact ⟨rfl, rfl⟩
  | report =>
      unfold Run.push
      split <;> exact ⟨rfl, rfl⟩
  | advance _ _ _ hmove => cases hdeliver.symm.trans hmove

/-- Whatever comes from outside and in whatever order, a ping is as it should be. -/
theorem verdict_exact (h : course.Faithful) (time : Nat) : course.Exact time where
  alive := h.alive
  final := (h.orderly time).final
  expected _ _ := h.expects
  sent roster input hfeeds hsent := by
    have hproceeds := h.proceeds hfeeds
    rw [hsent] at hproceeds
    generalize course.reaction time roster input = step at hproceeds
    cases hproceeds
    rfl
  stray _ _ := h.stray
  delivered _ := delivered
  armed hwaiting := by
    obtain ⟨entered, hlt, hentered, hdeadline⟩ := h.armed hwaiting
    exact ⟨entered, hlt, hentered, fun other hother => hentered.unique hother h, hdeadline⟩
  unarmed hstate := by
    obtain ⟨inputs, -, hphase⟩ := (h.orderly time).phase
    exact hphase.deadline_eq_none hstate
  fired roster input hfires := by
    obtain ⟨hwaiting, -, due, hdue, hle⟩ := h.fires hfires
    obtain ⟨entered, hlt, hentered, hdeadline⟩ := h.armed hwaiting
    rw [hdeadline] at hdue
    cases hdue
    exact ⟨entered, hlt, hentered, hle⟩
  once _ hdecides _ _ hother := hdecides.unique hother h
  ends _ hdecides := hdecides.ends h
  success hterminal := by
    rw [h.outcome_eq_iff hterminal]
    simp [Decision.outcome_eq_success]
  timeout hterminal := by
    rw [h.outcome_eq_iff hterminal]
    simp [Decision.outcome_eq_timeout]
  error hterminal := by
    rw [h.outcome_eq_iff hterminal]
    simp [Decision.outcome_eq_error, and_or_left, exists_or]

end Course

namespace Echo

/-! A ping that hears a stranger before it hears its target. -/

def roster : Roster := ⟨[⟨"echo", .localhost 2, 1⟩], by simp⟩

def pong (name : String) : Message := (Message.request 1 .ping Verb.pong name).withRequestId 7

def course : Course where
  host := { name := "a" }
  target := "echo"
  id := 7
  start := 0
  events
    | 1 => .deliver (pong "b")
    | 2 => .deliver (pong "echo")
    | 3 => .sent
    | _ => .move roster

private theorem faithful : course.Faithful := by
  intro failed hfails
  obtain ⟨hevent, -⟩ := hfails
  unfold course at hevent
  simp only at hevent
  split at hevent <;> cases hevent

theorem verdict_exact_of_answer :
    course.Faithful ∧ (course.run 8).state = .success ∧ course.First 8 .answer := by
  have hsuccess : (course.run 8).state = .success := by decide +kernel
  have hexact := Course.verdict_exact faithful 8
  refine ⟨faithful, hsuccess, (hexact.success ?_).mp ?_⟩
  · rw [hsuccess]
    rfl
  · rw [hsuccess]
    rfl

end Echo

end ReplicaRing.Ping
