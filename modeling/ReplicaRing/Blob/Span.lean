import ReplicaRing.Bytes

/-! The parts of pages that a range of offsets covers. -/

namespace ReplicaRing.Blob

/-- So many bytes of a page, from an offset within it on. -/
structure Span where
  page : Nat
  within : Nat
  count : Nat
  deriving DecidableEq, Repr

/-- The spans of a range in the order of its bytes.  Offsets are numbers of 64 bits: zero follows the last. -/
def spans (pageSize : Nat) (positive : 0 < pageSize) (offset : UInt64) (length : Nat) : List Span :=
  if _h : length = 0 then []
  else
    let within := offset.toNat % pageSize
    let count := min (pageSize - within) length
    ⟨offset.toNat / pageSize, within, count⟩ ::
      spans pageSize positive (offset + UInt64.ofNat count) (length - count)
termination_by length
decreasing_by
  have := Nat.mod_lt offset.toNat positive
  omega

namespace Span

def isWhole (span : Span) (pageSize : Nat) : Bool := span.within == 0 && span.count == pageSize

def read (span : Span) (page : Bytes) : Bytes := (page.drop span.within).take span.count

def write (span : Span) (page data : Bytes) : Bytes :=
  page.take span.within ++ data.take span.count ++ page.drop (span.within + span.count)

end Span

end ReplicaRing.Blob
