/-! Programs that ask the world something, and go on with its answer, again and again. -/

namespace ReplicaRing

inductive Program (Command : Type) (Answer : Command → Type) (Result : Type)
  | done (result : Result)
  | ask (command : Command) (next : Answer command → Program Command Answer Result)

namespace Program

variable {Command : Type} {Answer : Command → Type} {Result Next : Type}

def bind : Program Command Answer Result → (Result → Program Command Answer Next) →
    Program Command Answer Next
  | done result, next => next result
  | ask command rest, next => ask command fun answer => (rest answer).bind next

instance : Monad (Program Command Answer) where
  pure := done
  bind := bind

def perform (command : Command) : Program Command Answer (Answer command) :=
  ask command done

def run {m : Type → Type} [Monad m] (answer : (command : Command) → m (Answer command)) :
    Program Command Answer Result → m Result
  | done result => pure result
  | ask command next => do
      let reply ← answer command
      (next reply).run answer

end Program

end ReplicaRing
