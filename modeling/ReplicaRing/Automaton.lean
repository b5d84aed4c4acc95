/-!
Automata with a queue of inputs and at most one deadline.  An automaton says what an input does in a
state; a run adds the queue, the deadline that was armed when the state was entered, and the end.
-/

namespace ReplicaRing

structure Reaction (Memory State Input Effect : Type) where
  memory : Memory
  state : State
  queued : List Input := []
  effects : List Effect := []

/-- A protocol as states and inputs.  `View` is what it sees of the world when an input comes. -/
structure Automaton (View Memory State Input Effect : Type) where
  react : View → Memory → State → Input → Reaction Memory State Input Effect
  isTerminal : State → Bool
  /-- How long a state may last, and the input that ends it then. -/
  timeout : State → Option (Nat × Input)
  retire : Memory → State → List Effect

inductive Command (Input : Type)
  | input (input : Input)
  | terminate
  deriving DecidableEq

structure Run (Memory State Input : Type) where
  memory : Memory
  state : State
  queue : List (Command Input) := []
  /-- How many others can still put something into the queue. -/
  senders : Nat := 0
  deadline : Option (Nat × Input) := none
  /-- The run is over and its state is its result. -/
  isOver : Bool := false

inductive Move (Input : Type)
  | take (input : Input) (queue : List (Command Input))
  | expire (input : Input)
  | stop
  | wait

namespace Run

variable {View Memory State Input Effect : Type} [DecidableEq State]

/-- The deadline of a state that is entered at a given time.  Instants are idealised: they are numbers
of milliseconds without a bound, and the sum is one of them even where no clock could show it. -/
def arm (automaton : Automaton View Memory State Input Effect) (now : Nat) (state : State) :
    Option (Nat × Input) :=
  (automaton.timeout state).map fun (after, input) => (now + after, input)

def start (automaton : Automaton View Memory State Input Effect) (now : Nat) (memory : Memory)
    (state : State) (senders : Nat) : Run Memory State Input :=
  { memory, state, senders, deadline := arm automaton now state }

def push (run : Run Memory State Input) (command : Command Input) : Run Memory State Input :=
  if run.isOver then run else { run with queue := run.queue ++ [command] }

def release (run : Run Memory State Input) : Run Memory State Input :=
  { run with senders := run.senders - 1 }

/-- The queue comes before the deadline.  With an empty queue that nobody can fill, and without a
deadline, nothing can happen any more. -/
def next (automaton : Automaton View Memory State Input Effect) (now : Nat)
    (run : Run Memory State Input) : Move Input :=
  if run.isOver then .wait
  else if automaton.isTerminal run.state then .stop
  else
    match run.queue with
    | .input input :: queue => .take input queue
    | .terminate :: _ => .stop
    | [] =>
        match run.deadline with
        | some (time, input) => if time ≤ now then .expire input else .wait
        | none => if run.senders = 0 then .stop else .wait

/-- Lets the automaton react.  A new state gets its own deadline; an equal state keeps the old one. -/
def feed (automaton : Automaton View Memory State Input Effect) (view : View) (now : Nat)
    (run : Run Memory State Input) (input : Input) : Run Memory State Input × List Effect :=
  let reaction := automaton.react view run.memory run.state input
  let queue := run.queue ++ reaction.queued.map .input
  let deadline :=
    if reaction.state = run.state then run.deadline else arm automaton now reaction.state
  ({ run with memory := reaction.memory, state := reaction.state, queue, deadline },
    reaction.effects)

def advance (automaton : Automaton View Memory State Input Effect) (view : View) (now : Nat)
    (run : Run Memory State Input) : Option (Run Memory State Input × List Effect) :=
  match run.next automaton now with
  | .take input queue => some (feed automaton view now { run with queue } input)
  | .expire input => some (feed automaton view now { run with deadline := none } input)
  | .stop =>
      some ({ run with queue := [], deadline := none, isOver := true },
        automaton.retire run.memory run.state)
  | .wait => none

end Run

end ReplicaRing
