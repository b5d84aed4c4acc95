import ReplicaRing.Message
import ReplicaRing.Table

/-! Who waits for the replies to which request. -/

namespace ReplicaRing

/-- The owners of request numbers.  A route stays until it is removed, so one request can gather the
replies of many peers. -/
abbrev Routes (Owner : Type) := Table UInt64 Owner

def Routes.owner? {Owner : Type} (routes : Routes Owner) (reply : Message) : Option Owner :=
  routes.find? reply.requestId

end ReplicaRing
