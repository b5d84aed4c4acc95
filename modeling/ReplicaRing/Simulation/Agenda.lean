/-! A clock in milliseconds, and the events that are due or wait for their time. -/

namespace ReplicaRing.Simulation

structure Agenda (Event : Type) where
  now : Nat := 0
  ready : List Event := []
  /-- What happens later, in the order of time, and of setting for one time. -/
  timers : List (Nat × Event) := []

namespace Agenda

variable {Event : Type}

def soon (agenda : Agenda Event) (event : Event) : Agenda Event :=
  { agenda with ready := agenda.ready ++ [event] }

def first (agenda : Agenda Event) (event : Event) : Agenda Event :=
  { agenda with ready := event :: agenda.ready }

/-- After everything else that is ready, unless the event is among it already. -/
def remind [DecidableEq Event] (agenda : Agenda Event) (event : Event) : Agenda Event :=
  if event ∈ agenda.ready then agenda else agenda.soon event

def placeTimer (time : Nat) (event : Event) : List (Nat × Event) → List (Nat × Event)
  | [] => [(time, event)]
  | (other, next) :: rest =>
      if time < other then (time, event) :: (other, next) :: rest
      else (other, next) :: placeTimer time event rest

/-- At some time; a time that is not in the future means now. -/
def schedule (agenda : Agenda Event) (time : Nat) (event : Event) : Agenda Event :=
  if time ≤ agenda.now then agenda.soon event
  else { agenda with timers := placeTimer time event agenda.timers }

def after (agenda : Agenda Event) (delay : Nat) (event : Event) : Agenda Event :=
  agenda.schedule (agenda.now + delay) event

/-- Sets a timer for a deadline that has changed to a time in the future. -/
def follow (agenda : Agenda Event) (old new : Option Nat) (event : Event) : Agenda Event :=
  match new with
  | some time => if old = new ∨ time ≤ agenda.now then agenda else agenda.schedule time event
  | none => agenda

def pop? (agenda : Agenda Event) : Option (Event × Agenda Event) :=
  match agenda.ready with
  | [] => none
  | event :: rest => some (event, { agenda with ready := rest })

def elapse (agenda : Agenda Event) : Option (Agenda Event) :=
  match agenda.timers with
  | [] => none
  | (time, _) :: _ =>
      let (due, later) := agenda.timers.span fun timer => timer.1 ≤ time
      some ⟨time, agenda.ready ++ due.map Prod.snd, later⟩

end Agenda

end ReplicaRing.Simulation
