import Mathlib.Data.List.TakeWhile
import ReplicaRing.Replication

/-! What each target has said by the time the first timeout comes, read off the inputs alone. -/

namespace ReplicaRing.Replication

/-- What settles a target: its reply, with the vote in it, or a send that failed. -/
inductive Verdict
  | reply (vote : Option Vote)
  | unsent
  deriving DecidableEq

def Verdict.receipt? : Verdict → Option Receipt
  | reply (some (.ack receipt)) => some receipt
  | _ => none

abbrev Standing := Option Verdict

namespace Standing

def isAck : Standing → Bool
  | some (.reply (some (.ack _))) => true
  | _ => false

def isNack : Standing → Bool
  | some (.reply (some .nack)) => true
  | _ => false

def isStray : Standing → Bool
  | some (.reply none) => true
  | _ => false

def isUnsent : Standing → Bool
  | some .unsent => true
  | _ => false

theorem isAck_eq_true {standing : Standing} :
    standing.isAck = true ↔ ∃ receipt, standing = some (.reply (some (.ack receipt))) := by
  unfold isAck
  split <;> simp_all

theorem eq_of_receipt? {verdict : Verdict} {receipt : Receipt}
    (h : verdict.receipt? = some receipt) : verdict = .reply (some (.ack receipt)) := by
  unfold Verdict.receipt? at h
  split at h
  · cases h
    rfl
  · cases h

theorem isAck_of_receipt?_eq_none {verdict : Verdict} (h : verdict.receipt? = none) :
    isAck (some verdict) = false := by
  rcases verdict with ⟨_ | ⟨receipt⟩ | _⟩ | _
  · rfl
  · cases h
  · rfl
  · rfl

theorem isNack_eq_true {standing : Standing} :
    standing.isNack = true ↔ standing = some (.reply (some .nack)) := by
  unfold isNack
  split <;> simp_all

theorem isUnsent_eq_true {standing : Standing} :
    standing.isUnsent = true ↔ standing = some .unsent := by
  unfold isUnsent
  split <;> simp_all

end Standing

namespace Input

def subject? : Input → Option String
  | .reply message => some message.replyTo
  | .sendFailed peer => some peer
  | _ => none

def isExternal : Input → Bool
  | .reply _ | .sendFailed _ | .timeout => true
  | _ => false

def verdict? (request : Request) (name : String) : Input → Standing
  | .reply message =>
      if message.replyTo = name then some (.reply (request.classify message)) else none
  | .sendFailed peer => if peer = name then some .unsent else none
  | _ => none

theorem verdict?_of_subject?_ne {request : Request} {name : String} {input : Input}
    (h : input.subject? ≠ some name) : input.verdict? request name = none := by
  cases input with
  | reply message =>
      exact if_neg fun heq => h (congrArg some heq)
  | sendFailed peer =>
      exact if_neg fun heq => h (congrArg some heq)
  | _ => rfl

end Input

def beforeTimeout (inputs : List Input) : List Input := inputs.takeWhile (· ≠ .timeout)

theorem beforeTimeout_append_singleton (inputs : List Input) (input : Input) :
    beforeTimeout (inputs ++ [input]) =
      if .timeout ∈ inputs then beforeTimeout inputs
      else inputs ++ if input = .timeout then [] else [input] := by
  induction inputs with
  | nil => by_cases h : input = .timeout <;> simp [beforeTimeout, h]
  | cons first rest ih =>
      by_cases hfirst : first = .timeout
      · subst hfirst
        simp [beforeTimeout]
      · simp only [beforeTimeout, List.cons_append] at ih ⊢
        rw [List.takeWhile_cons_of_pos (by simpa using hfirst), ih,
          List.takeWhile_cons_of_pos (by simpa using hfirst)]
        by_cases hrest : .timeout ∈ rest <;> simp [hrest, Ne.symm hfirst]

private theorem beforeTimeout_eq_self {inputs : List Input} (h : .timeout ∉ inputs) :
    beforeTimeout inputs = inputs := by
  rw [beforeTimeout, List.takeWhile_eq_self_iff]
  intro input hinput
  simpa using fun heq : input = .timeout => h (heq ▸ hinput)

private theorem beforeTimeout_isPrefix (inputs : List Input) (input : Input) :
    beforeTimeout inputs <+: beforeTimeout (inputs ++ [input]) := by
  rw [beforeTimeout_append_singleton]
  split
  · exact List.prefix_rfl
  case isFalse h =>
    rw [beforeTimeout_eq_self h]
    exact List.prefix_append _ _

/-- The first reply or failed send of a target before the first timeout. -/
def verdict? (request : Request) (inputs : List Input) (name : String) : Standing :=
  (beforeTimeout inputs).findSome? (Input.verdict? request name)

theorem verdict?_append_singleton (request : Request) (inputs : List Input) (input : Input)
    (name : String) :
    verdict? request (inputs ++ [input]) name =
      (verdict? request inputs name).or
        (if .timeout ∈ inputs then none else input.verdict? request name) := by
  unfold verdict?
  rw [beforeTimeout_append_singleton]
  by_cases htimeout : .timeout ∈ inputs
  · simp [htimeout]
  · rw [if_neg htimeout, if_neg htimeout, List.findSome?_append, beforeTimeout_eq_self htimeout]
    by_cases hinput : input = .timeout
    · subst hinput
      rfl
    · rw [if_neg hinput, List.findSome?_singleton]

/-- The earliest acknowledgement that counts brought this receipt. -/
def EarliestAck (request : Request) (names : List String) (inputs : List Input)
    (receipt : Receipt) : Prop :=
  ∃ before message after,
    beforeTimeout inputs = before ++ .reply message :: after ∧
    message.replyTo ∈ names ∧ verdict? request before message.replyTo = none ∧
    request.classify message = some (.ack receipt) ∧
    ∀ name ∈ names, (verdict? request before name).isAck = false

theorem EarliestAck.append {request : Request} {names : List String} {inputs : List Input}
    {receipt : Receipt} (h : EarliestAck request names inputs receipt) (input : Input) :
    EarliestAck request names (inputs ++ [input]) receipt := by
  obtain ⟨before, message, after, hsplit, hrest⟩ := h
  obtain ⟨more, hmore⟩ := beforeTimeout_isPrefix inputs input
  refine ⟨before, message, after ++ more, ?_, hrest⟩
  rw [← hmore, hsplit]
  simp

end ReplicaRing.Replication
