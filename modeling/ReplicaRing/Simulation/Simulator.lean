import ReplicaRing.Simulation.Agenda

/-! Running something whose events lie on an agenda, beside a main line that waits for it. -/

namespace ReplicaRing.Simulation

/-- A system that changes by the events of its agenda, and a main line that looks at it from time to
time. -/
structure Simulator (System Event Main : Type) where
  agenda : System → Agenda Event
  setAgenda : System → Agenda Event → System
  handle : Event → System → System
  goOn : Main → System → Main × System
  isFinished : Main → Bool

namespace Simulator

variable {System Event Main : Type} (simulator : Simulator System Event Main)

/-- So many steps are made before a simulation is given up as endless. -/
def patience : Nat := 10000000

def settle : (steps : Nat) → System → System
  | 0, system => system
  | steps + 1, system =>
      match (simulator.agenda system).pop? with
      | none => system
      | some (event, rest) =>
          settle steps (simulator.handle event (simulator.setAgenda system rest))

/-- When the main line cannot go on, all events of the instant happen; when there are none, the time
passes.  Gives nothing if nothing can happen any more before the main line is finished. -/
def runFor : (steps : Nat) → Main → System → Option (Main × System)
  | 0, _, _ => none
  | steps + 1, main, system =>
      let (main, system) := simulator.goOn main system
      if simulator.isFinished main then some (main, system)
      else if !(simulator.agenda system).ready.isEmpty then
        runFor steps main (simulator.settle patience system)
      else
        match (simulator.agenda system).elapse with
        | none => none
        | some later =>
            runFor steps main (simulator.settle patience (simulator.setAgenda system later))

def run (main : Main) (system : System) : Option (Main × System) :=
  simulator.runFor patience main system

end Simulator

end ReplicaRing.Simulation
