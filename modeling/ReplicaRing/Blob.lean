import ReplicaRing.Blob.Root
import ReplicaRing.Blob.Span
import ReplicaRing.Client

/-!
Byte arrays of fixed size, kept as pages under keys of their own.  The blob's key holds its size.  A page
that no replica holds reads as zeros; a page that no replica answers for is an error.
-/

namespace ReplicaRing

structure Blob where
  key : Bytes
  size : UInt64
  pageSize : Nat
  level : Level
  pageSize_pos : 0 < pageSize

inductive BlobError
  | outOfRange (offset stop size : Nat)
  | createFailed (outcome : Outcome)
  | openFailed (outcome : Outcome)
  | pageLoad (page : Nat) (outcome : Outcome)
  | pageStore (page : Nat) (outcome : Outcome)
  | malformedRoot
  | oversizedPage (page length pageSize : Nat)
  | emptyPages
  deriving DecidableEq, Repr

def BlobError.message? : BlobError → Option String
  | .outOfRange offset stop size =>
      some s!"range {offset}..{stop} out of bounds for blob of {size} bytes"
  | .createFailed outcome => some ("blob create failed: " ++ outcome.name)
  | .openFailed outcome => some ("blob open failed: " ++ outcome.name)
  | .pageLoad page outcome => some (s!"loading page {page} failed: " ++ outcome.name)
  | .pageStore page outcome => some (s!"storing page {page} failed: " ++ outcome.name)
  | .malformedRoot => none
  | .oversizedPage page length pageSize =>
      some s!"corrupt blob: page {page} holds {length} bytes, page size is {pageSize}"
  | .emptyPages => some "invalid blob configuration: page_size must be positive"

namespace Blob

abbrev Task (Result : Type) := ExceptT BlobError Accesses Result

def loadKey (key : Bytes) (level : Level) : Task Replication.State :=
  ExceptT.lift (Program.perform (Access.load key level))

def storeKey (key value : Bytes) (level : Level) : Task Outcome :=
  ExceptT.lift (Program.perform (Access.store key value level))

/-- Stores the root of a new blob.  Pages that are already there stay. -/
def create (key : Bytes) (size : UInt64) (pageSize : Nat) (level : Level) : Task Blob :=
  if h : 0 < pageSize then do
    let outcome ← storeKey key (Root.encode ⟨size⟩) level
    if outcome.isAcknowledged then return ⟨key, size, pageSize, level, h⟩
    else throw (.createFailed outcome)
  else throw .emptyPages

def reopen (key : Bytes) (pageSize : Nat) (level : Level) : Task Blob :=
  if h : 0 < pageSize then do
    let state ← loadKey key level
    match state.value? with
    | none => throw (.openFailed state.outcome)
    | some bytes =>
        match Root.decode? bytes with
        | none => throw .malformedRoot
        | some root => return ⟨key, root.size, pageSize, level, h⟩
  else throw .emptyPages

def pageCount (blob : Blob) : Nat := (blob.size.toNat + blob.pageSize - 1) / blob.pageSize

/-- The key of a page: the blob's key, a dot, and the number in at least eight hexadecimal digits. -/
def pageKey (blob : Blob) (page : Nat) : Bytes :=
  blob.key ++ ('.' :: Hex.padded 8 page).map fun c => UInt8.ofNat c.toNat

def pageAt (blob : Blob) (offset : UInt64) : Nat := offset.toNat / blob.pageSize

/-- Offsets are numbers of 64 bits; a range that goes beyond them ends at the last. -/
def checkRange (blob : Blob) (offset : UInt64) (length : Nat) : Except BlobError Unit :=
  let stop := min (offset.toNat + length) (UInt64.size - 1)
  if blob.size.toNat < stop ∨ 0 < length ∧ blob.size ≤ offset then
    .error (.outOfRange offset.toNat stop blob.size.toNat)
  else .ok ()

def blank (blob : Blob) : Bytes := List.replicate blob.pageSize 0

/-- A page with zeros up to its full size. -/
def loadPage (blob : Blob) (page : Nat) : Task Bytes := do
  let state ← loadKey (blob.pageKey page) blob.level
  if state.isAllNacked then return blob.blank
  else
    match state.value? with
    | none => throw (.pageLoad page state.outcome)
    | some bytes =>
        if blob.pageSize < bytes.length then
          throw (.oversizedPage page bytes.length blob.pageSize)
        else return bytes ++ List.replicate (blob.pageSize - bytes.length) 0

def storePage (blob : Blob) (page : Nat) (data : Bytes) : Task Unit := do
  let outcome ← storeKey (blob.pageKey page) data blob.level
  if outcome.isAcknowledged then return () else throw (.pageStore page outcome)

def readByteAt (blob : Blob) (offset : UInt64) : Task UInt8 := do
  blob.checkRange offset 1
  let page ← blob.loadPage (blob.pageAt offset)
  return page.getD (offset.toNat % blob.pageSize) 0

def writeByteAt (blob : Blob) (offset : UInt64) (byte : UInt8) : Task Unit := do
  blob.checkRange offset 1
  let page ← blob.loadPage (blob.pageAt offset)
  blob.storePage (blob.pageAt offset) (page.set (offset.toNat % blob.pageSize) byte)

def readSpans (blob : Blob) : List Span → Task Bytes
  | [] => return []
  | span :: rest => do
      let page ← blob.loadPage span.page
      let after ← blob.readSpans rest
      return span.read page ++ after

def readAt (blob : Blob) (offset : UInt64) (length : Nat) : Task Bytes := do
  blob.checkRange offset length
  blob.readSpans (spans blob.pageSize blob.pageSize_pos offset length)

/-- A page that is overwritten as a whole is not read first. -/
def writeSpans (blob : Blob) : List Span → (data : Bytes) → Task Unit
  | [], _ => return ()
  | span :: rest, data => do
      let page ← if span.isWhole blob.pageSize then pure blob.blank else blob.loadPage span.page
      blob.storePage span.page (span.write page data)
      blob.writeSpans rest (data.drop span.count)

def writeAt (blob : Blob) (offset : UInt64) (data : Bytes) : Task Unit := do
  blob.checkRange offset data.length
  blob.writeSpans (spans blob.pageSize blob.pageSize_pos offset data.length) data

end Blob

end ReplicaRing
