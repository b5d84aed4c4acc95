/-! What a client is told about an operation. -/

namespace ReplicaRing

inductive Outcome
  | success
  | partialSuccess
  | failure
  | timeout
  | error
  deriving DecidableEq, Repr

namespace Outcome

def isSuccess (outcome : Outcome) : Bool := outcome == success

/-- At least one target acknowledged. -/
def isAcknowledged (outcome : Outcome) : Bool := outcome == success || outcome == partialSuccess

def name : Outcome → String
  | success => "SUCCESS"
  | partialSuccess => "PARTIAL_SUCCESS"
  | failure => "FAILURE"
  | timeout => "TIMEOUT"
  | error => "ERROR"

end Outcome

end ReplicaRing
