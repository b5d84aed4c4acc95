import ReplicaRing.Proofs.Ping.Deciding

/-! A ping that has been decided comes to its end, however many replies are still before it. -/

namespace ReplicaRing.Ping

/-- How many moves a ping is from its end. -/
inductive Left : Run Memory State Input → Nat → Prop
  | stopped {run : Run Memory State Input} (hover : run.isOver = true) : Left run 0
  | ended {run : Run Memory State Input} (hover : run.isOver = false)
      (hterminal : run.state.isTerminal = true) : Left run 1
  | received {run : Run Memory State Input} (replies reports : List Input)
      (hover : run.isOver = false) (hstate : run.state = .received)
      (hreplies : ∀ input ∈ replies, ∃ reply, input = .pong reply)
      (hqueue : run.queue = (replies ++ .settle :: reports).map .input) :
      Left run (replies.length + 2)

namespace Left

variable {host : Host} {target : String} {id : UInt64} {run : Run Memory State Input} {count : Nat}

private theorem push (h : Left run count) (input : Input) : Left
    (run.push (.input input)) count := by
  unfold Run.push
  cases h with
  | stopped hover =>
      rw [if_pos hover]
      exact .stopped hover
  | ended hover hterminal =>
      rw [if_neg (by simp [hover])]
      exact .ended hover hterminal
  | received replies reports hover hstate hreplies hqueue =>
      rw [if_neg (by simp [hover])]
      refine .received replies (reports ++ [input]) hover hstate hreplies ?_
      simp [hqueue]

private theorem advance (h : Left run (count + 1)) (roster : Roster) (now : Nat) :
    ∃ after effects, run.advance (automaton host target id) roster now = some (after, effects) ∧
      Left after count := by
  generalize hleft : count + 1 = left at h
  cases h with
  | stopped => cases hleft
  | ended hover hterminal =>
      cases hleft
      have hends : (automaton host target id).isTerminal run.state = true := hterminal
      have hnext : run.next (automaton host target id) now = .stop := by
        simp [Run.next, hover, hends]
      rw [Run.advance, hnext]
      exact ⟨_, _, rfl, .stopped rfl⟩
  | received replies reports hover hstate hreplies hqueue =>
      have hlive : (automaton host target id).isTerminal run.state = false := by
        rw [hstate]
        rfl
      unfold Run.advance
      cases replies with
      | nil =>
          cases hleft
          rw [Run.next_take hover hlive hqueue]
          refine ⟨_, _, rfl, .ended hover ?_⟩
          simp [hstate, automaton, react, State.isTerminal]
      | cons first rest =>
          cases hleft
          obtain ⟨reply, rfl⟩ := hreplies _ List.mem_cons_self
          rw [Run.next_take hover hlive hqueue]
          refine ⟨_, _, rfl, .received rest reports hover ?_ ?_ ?_⟩
          · simp [hstate, automaton, react]
          · exact fun other hother => hreplies other (List.mem_cons_of_mem _ hother)
          · simp [hstate, automaton, react]

end Left

namespace Course

def Moving (course : Course) : Prop :=
  ∀ earlier, ∃ later roster, earlier ≤ later ∧ course.events later = .move roster

variable {course : Course} {time count : Nat}

private theorem left_succ (h : Left (course.run time) count)
    (hstays : ∀ roster, course.events time ≠ .move roster) :
    Left (course.run (time + 1)) count := by
  have hbecomes := course.run_succ time
  generalize course.run (time + 1) = run at hbecomes
  cases hbecomes with
  | same => exact h
  | report input => exact h.push input
  | advance roster _ _ hmove => exact absurd hmove (hstays roster)

private theorem left_at_move {gap : Nat} {roster : Roster} (h : Left (course.run time) count)
    (hmove : course.events (time + gap) = .move roster) :
    ∃ later roster, time ≤ later ∧ course.events later = .move roster ∧
      Left (course.run later) count := by
  -- Up to the next move there are only events from outside, which keep the count.
  induction gap generalizing time with
  | zero => exact ⟨time, roster, Nat.le_refl time, hmove, h⟩
  | succ gap ih =>
      by_cases hnow : ∃ roster, course.events time = .move roster
      · obtain ⟨seen, hnow⟩ := hnow
        exact ⟨time, seen, Nat.le_refl time, hnow, h⟩
      · have hnext := left_succ h fun seen hseen => hnow ⟨seen, hseen⟩
        rw [← Nat.add_assoc, Nat.add_right_comm] at hmove
        obtain ⟨later, seen, hle, hlater⟩ := ih hnext hmove
        exact ⟨later, seen, Nat.le_of_succ_le hle, hlater⟩

private theorem ends_of_left (h : Left (course.run time) count) (hmoving : course.Moving) :
    ∃ later, time ≤ later ∧ (course.run later).isOver = true := by
  induction count generalizing time with
  | zero =>
      cases h with
      | stopped hover => exact ⟨time, Nat.le_refl time, hover⟩
  | succ count ih =>
      obtain ⟨later, roster, hle, hmove⟩ := hmoving time
      obtain ⟨gap, rfl⟩ := Nat.exists_eq_add_of_le hle
      obtain ⟨moved, seen, hfrom, hmoved, hleft⟩ := left_at_move h hmove
      obtain ⟨after, effects, hadvance, hafter⟩ := hleft.advance seen (course.now moved)
      rw [← run_of_advance hmoved hadvance] at hafter
      obtain ⟨ended, hlt, hover⟩ := ih hafter
      exact ⟨ended, by omega, hover⟩

theorem Decides.ends {decision : Decision} (hdecides : course.Decides time decision)
    (h : course.Faithful) (hmoving : course.Moving) :
    ∃ later, time < later ∧ (course.run later).isOver = true := by
  obtain ⟨hstate, -⟩ := hdecides.state_succ h
  have hleft : ∃ count, Left (course.run (time + 1)) count := by
    cases hover : (course.run (time + 1)).isOver with
    | true => exact ⟨0, .stopped hover⟩
    | false =>
        cases decision with
        | answer =>
            obtain ⟨inputs, hinputs, hphase⟩ := (h.orderly (time + 1)).phase
            rw [hstate] at hphase
            generalize (course.run (time + 1)).deadline = deadline at hphase
            cases hphase with
            | received replies reports hreplies =>
                exact ⟨_, .received replies reports hover hstate hreplies hinputs⟩
            | final _ _ hterminal => cases hterminal
        | _ => exact ⟨1, .ended hover (by rw [hstate]; rfl)⟩
  obtain ⟨count, hleft⟩ := hleft
  exact ends_of_left hleft hmoving

end Course

end ReplicaRing.Ping
