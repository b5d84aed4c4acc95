import Mathlib.Data.List.TakeDrop
import ReplicaRing.Simulation.Simulator

/-! What lies on an agenda, and what a simulation by it preserves. -/

namespace ReplicaRing.Simulation

namespace Agenda

variable {Event : Type} {agenda before middle after : Agenda Event} {event : Event}

def Holds (agenda : Agenda Event) (event : Event) : Prop :=
  event ∈ agenda.ready ∨ ∃ time, (time, event) ∈ agenda.timers

structure Timely (agenda : Agenda Event) : Prop where
  sorted : agenda.timers.Pairwise fun first second => first.1 ≤ second.1
  future : ∀ timer ∈ agenda.timers, agenda.now ≤ timer.1

/-- At the same time there are events more, all of one kind. -/
structure Adds (before after : Agenda Event) (added : Event → Prop) : Prop where
  now : after.now = before.now
  timely : before.Timely → after.Timely
  holds : ∀ event, after.Holds event → before.Holds event ∨ added event

variable {added : Event → Prop}

private theorem Adds.refl : Adds agenda agenda added := ⟨rfl, id, fun _ => .inl⟩

theorem Adds.trans (h : Adds before middle added) (hrest : Adds middle after added) :
    Adds before after added where
  now := hrest.now.trans h.now
  timely htimely := hrest.timely (h.timely htimely)
  holds event hevent := by
    rcases hrest.holds event hevent with hmiddle | hadded
    · exact h.holds event hmiddle
    · exact .inr hadded

theorem adds_soon (h : added event) : Adds agenda (agenda.soon event) added where
  now := rfl
  timely htimely := ⟨htimely.sorted, htimely.future⟩
  holds other hother := by
    rcases hother with hready | htimer
    · rcases List.mem_append.mp hready with hold | hnew
      · exact .inl (.inl hold)
      · exact .inr (List.mem_singleton.mp hnew ▸ h)
    · exact .inl (.inr htimer)

theorem adds_first (h : added event) : Adds agenda (agenda.first event) added where
  now := rfl
  timely htimely := ⟨htimely.sorted, htimely.future⟩
  holds other hother := by
    rcases hother with hready | htimer
    · rcases List.mem_cons.mp hready with hnew | hold
      · exact .inr (hnew ▸ h)
      · exact .inl (.inl hold)
    · exact .inl (.inr htimer)

theorem adds_remind [DecidableEq Event] (h : added event) :
    Adds agenda (agenda.remind event) added := by
  unfold remind
  split
  · exact .refl
  · exact adds_soon h

private theorem mem_placeTimer {time : Nat} {timer : Nat × Event} {timers : List (Nat × Event)} :
    timer ∈ placeTimer time event timers ↔ timer = (time, event) ∨ timer ∈ timers := by
  induction timers with
  | nil => simp [placeTimer]
  | cons first rest ih =>
      unfold placeTimer
      split
      · exact List.mem_cons
      · simp only [List.mem_cons, ih]
        exact or_left_comm

private theorem sorted_placeTimer {time : Nat} {timers : List (Nat × Event)}
    (h : timers.Pairwise fun first second => first.1 ≤ second.1) :
    (placeTimer time event timers).Pairwise fun first second => first.1 ≤ second.1 := by
  induction timers with
  | nil => exact List.pairwise_singleton _ _
  | cons first rest ih =>
      obtain ⟨hfirst, hrest⟩ := List.pairwise_cons.mp h
      unfold placeTimer
      split
      case isTrue hlt =>
        refine List.pairwise_cons.mpr ⟨?_, h⟩
        intro other hother
        rcases List.mem_cons.mp hother with rfl | hother
        · exact Nat.le_of_lt hlt
        · exact Nat.le_trans (Nat.le_of_lt hlt) (hfirst other hother)
      case isFalse hge =>
        refine List.pairwise_cons.mpr ⟨?_, ih hrest⟩
        intro other hother
        rcases mem_placeTimer.mp hother with rfl | hother
        · exact Nat.le_of_not_lt hge
        · exact hfirst other hother

theorem adds_schedule {time : Nat} (h : added event) :
    Adds agenda (agenda.schedule time event) added := by
  unfold schedule
  split
  · exact adds_soon h
  case isFalse hlater =>
    refine ⟨rfl, fun htimely => ⟨sorted_placeTimer htimely.sorted, ?_⟩, ?_⟩
    · intro timer htimer
      rcases mem_placeTimer.mp htimer with rfl | hold
      · exact Nat.le_of_not_le hlater
      · exact htimely.future timer hold
    · rintro other (hready | ⟨otherTime, htimer⟩)
      · exact .inl (.inl hready)
      · rcases mem_placeTimer.mp htimer with hnew | hold
        · cases hnew
          exact .inr h
        · exact .inl (.inr ⟨otherTime, hold⟩)

theorem adds_follow {old new : Option Nat} (h : added event) :
    Adds agenda (agenda.follow old new event) added := by
  unfold follow
  split
  · split
    · exact .refl
    · exact adds_schedule h
  · exact .refl

theorem pop?_eq_some {rest : Agenda Event} (h : agenda.pop? = some (event, rest)) :
    agenda.Holds event ∧ Adds agenda rest added := by
  unfold pop? at h
  split at h
  · cases h
  case _ first others hready =>
    cases h
    refine ⟨.inl (hready ▸ List.mem_cons_self), rfl,
      fun htimely => ⟨htimely.sorted, htimely.future⟩, ?_⟩
    rintro other (hother | htimer)
    · exact .inl (.inl (hready ▸ List.mem_cons_of_mem _ hother))
    · exact .inl (.inr htimer)

theorem elapse_eq_some {later : Agenda Event} (h : agenda.elapse = some later)
    (htimely : agenda.Timely) :
    agenda.now ≤ later.now ∧ later.Timely ∧ ∀ event, later.Holds event → agenda.Holds event := by
  unfold elapse at h
  split at h
  · cases h
  case _ time first rest htimers =>
    simp only [List.span_eq_takeWhile_dropWhile, Option.some.injEq] at h
    subst h
    have hfirst : ∀ timer ∈ agenda.timers, time ≤ timer.1 := by
      intro timer htimer
      have hsorted := htimely.sorted
      rw [htimers] at htimer hsorted
      rcases List.mem_cons.mp htimer with rfl | hrest
      · exact Nat.le_refl time
      · exact (List.pairwise_cons.mp hsorted).1 timer hrest
    refine ⟨htimely.future (time, first) (htimers ▸ List.mem_cons_self), ?_, ?_⟩
    · exact {
        sorted := htimely.sorted.sublist (List.dropWhile_sublist _)
        future := fun timer htimer => hfirst timer ((List.dropWhile_sublist _).mem htimer) }
    · rintro event (hready | ⟨eventTime, htimer⟩)
      · rcases List.mem_append.mp hready with hold | hdue
        · exact .inl hold
        · obtain ⟨timer, htimer, rfl⟩ := List.mem_map.mp hdue
          exact .inr ⟨timer.1, (List.takeWhile_sublist _).mem htimer⟩
      · exact .inr ⟨eventTime, (List.dropWhile_sublist _).mem htimer⟩

end Agenda

namespace Simulator

variable {System Event Main : Type} {simulator : Simulator System Event Main}
  {invariant : Main → System → Prop} {main ended : Main} {system after : System} {steps : Nat}

structure Preserves (simulator : Simulator System Event Main) (invariant : Main → System → Prop) :
    Prop where
  goOn : ∀ main system, invariant main system →
    invariant (simulator.goOn main system).1 (simulator.goOn main system).2
  handle : ∀ main system event rest, invariant main system →
    (simulator.agenda system).pop? = some (event, rest) →
    invariant main (simulator.handle event (simulator.setAgenda system rest))
  elapse : ∀ main system later, invariant main system →
    (simulator.agenda system).elapse = some later →
    invariant main (simulator.setAgenda system later)

namespace Preserves

private theorem settle (h : simulator.Preserves invariant) (hbefore : invariant main system) :
    invariant main (simulator.settle steps system) := by
  induction steps generalizing system with
  | zero => exact hbefore
  | succ steps ih =>
      unfold Simulator.settle
      split
      case h_1 => exact hbefore
      case h_2 event rest hpop => exact ih (h.handle main system event rest hbefore hpop)

/-- A simulation that comes to its end keeps what every part of it preserves. -/
theorem runFor (h : simulator.Preserves invariant) (hbefore : invariant main system)
    (hrun : simulator.runFor steps main system = some (ended, after)) :
    invariant ended after ∧ simulator.isFinished ended = true := by
  induction steps generalizing main system with
  | zero => cases hrun
  | succ steps ih =>
      have hgoneOn := h.goOn main system hbefore
      rw [Simulator.runFor] at hrun
      generalize simulator.goOn main system = gone at hgoneOn hrun
      simp only at hrun
      split at hrun
      case isTrue hfinished =>
        cases hrun
        exact ⟨hgoneOn, hfinished⟩
      case isFalse =>
        split at hrun
        case isTrue => exact ih (h.settle hgoneOn) hrun
        case isFalse =>
          split at hrun
          case h_1 => cases hrun
          case h_2 later helapse => exact ih (h.settle (h.elapse _ _ _ hgoneOn helapse)) hrun

end Preserves

end Simulator

end ReplicaRing.Simulation
