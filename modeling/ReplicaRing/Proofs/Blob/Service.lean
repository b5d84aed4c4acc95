import ReplicaRing.Blob

/-! Services that keep values under keys, and what tasks about blobs do with them. -/

namespace ReplicaRing

/-- A service on which every value that is not too long is stored, and every load finds the value that
was stored last or learns from all replicas that there is none. -/
structure Service where
  State : Type
  maxValueSize : Nat
  load : Bytes → Level → State → Replication.State × State
  store : Bytes → Bytes → Level → State → Outcome × State
  held : State → Bytes → Option Bytes
  store_acknowledged : ∀ key value level state, value.length ≤ maxValueSize →
    (store key value level state).1.isAcknowledged = true
  held_store : ∀ key value level state other, value.length ≤ maxValueSize →
    held (store key value level state).2 other =
      if other = key then some value else held state other
  load_found : ∀ key level state value, held state key = some value →
    (load key level state).1 = .success (.found value)
  load_missing : ∀ key level state, held state key = none →
    ∃ targets, (load key level state).1 = .failure targets targets
  held_load : ∀ key level state other, held (load key level state).2 other = held state other

namespace Program

variable {Command : Type} {Answer : Command → Type} {Result Next : Type} {m : Type → Type}
  [Monad m] [LawfulMonad m]

private theorem run_bind (answer : (command : Command) → m (Answer command))
    (program : Program Command Answer Result) (next : Result → Program Command Answer Next) :
    (program >>= next).run answer =
      program.run answer >>= fun result => (next result).run answer := by
  induction program with
  | done result =>
      change (next result).run answer = pure result >>= _
      rw [pure_bind]
  | ask command rest ih =>
      change (answer command >>= fun reply => (rest reply >>= next).run answer) = _
      rw [run, bind_assoc]
      congr 1
      funext reply
      exact ih reply

end Program

namespace Service

variable (service : Service) {Result Next : Type}

def answer : (access : Access) → StateM service.State access.Result
  | .load key level => service.load key level
  | .store key value level => service.store key value level

def perform (task : Blob.Task Result) (state : service.State) :
    Except BlobError Result × service.State :=
  (Program.run service.answer task.run).run state

private theorem perform_bind (task : Blob.Task Result) (next : Result → Blob.Task Next)
    (state : service.State) :
    service.perform (task >>= next) state =
      match service.perform task state with
      | (.ok result, after) => service.perform (next result) after
      | (.error error, after) => (.error error, after) := by
  have hrun : (task >>= next).run = task.run >>= ExceptT.bindCont next := rfl
  unfold perform
  rw [hrun, Program.run_bind]
  simp only [StateT.run_bind]
  generalize (Program.run service.answer task.run).run state = done
  obtain ⟨result | error, after⟩ := done <;> rfl

theorem perform_bind_of_ok {task : Blob.Task Result} {state after : service.State}
    {result : Result} (h : service.perform task state = (.ok result, after))
    (next : Result → Blob.Task Next) :
    service.perform (task >>= next) state = service.perform (next result) after := by
  rw [perform_bind, h]

theorem perform_loadKey (key : Bytes) (level : Level) (state : service.State) :
    service.perform (Blob.loadKey key level) state =
      (.ok (service.load key level state).1, (service.load key level state).2) := rfl

theorem perform_storeKey (key value : Bytes) (level : Level) (state : service.State) :
    service.perform (Blob.storeKey key value level) state =
      (.ok (service.store key value level state).1, (service.store key value level state).2) := rfl

end Service

end ReplicaRing
