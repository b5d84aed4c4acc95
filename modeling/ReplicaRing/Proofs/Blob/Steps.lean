import ReplicaRing.Proofs.Blob.Tiling

/-! A write as the accesses that it asks for, one after the other, and what it makes of their answers. -/

namespace ReplicaRing.Blob

/-- What a page holds by the answer to its load, with zeros up to its full size. -/
def readPage (blob : Blob) (page : Nat) (state : Replication.State) : Except BlobError Bytes :=
  if state.isAllNacked then .ok blob.blank
  else
    match state.value? with
    | none => .error (.pageLoad page state.outcome)
    | some bytes =>
        if blob.pageSize < bytes.length then .error (.oversizedPage page bytes.length blob.pageSize)
        else .ok (bytes ++ List.replicate (blob.pageSize - bytes.length) 0)

theorem run_loadPage (blob : Blob) (page : Nat) :
    (blob.loadPage page).run =
      .ask (.load (blob.pageKey page) blob.level) fun state => .done (blob.readPage page state) := by
  change Program.ask _ _ = Program.ask _ _
  congr 1
  funext state
  change (if state.isAllNacked = true then (pure blob.blank : Task Bytes) else _).run = _
  unfold readPage
  split
  case isTrue => rfl
  case isFalse =>
    cases state.value? with
    | none => rfl
    | some bytes =>
        simp only
        split <;> rfl

def storeThen (blob : Blob) (page : Nat) (bytes : Bytes) (rest : Accesses (Except BlobError Unit)) :
    Accesses (Except BlobError Unit) :=
  .ask (.store (blob.pageKey page) bytes blob.level) fun outcome : Outcome =>
    if outcome.isAcknowledged then rest else .done (.error (.pageStore page outcome))

private theorem run_storePage_bind (blob : Blob) (page : Nat) (bytes : Bytes) (rest : Task Unit) :
    (blob.storePage page bytes >>= fun _ => rest).run = blob.storeThen page bytes rest.run := by
  change Program.ask _ _ = Program.ask _ _
  congr 1
  funext outcome
  change ((if outcome.isAcknowledged = true then (pure () : Task Unit)
    else throw (.pageStore page outcome)) >>= fun _ => rest).run = _
  split <;> rfl

theorem run_writeSpans_cons (blob : Blob) (span : Span) (rest : List Span) (data : Bytes) :
    (blob.writeSpans (span :: rest) data).run =
      let goOn (base : Bytes) := blob.storeThen span.page (span.write base data)
        (blob.writeSpans rest (data.drop span.count)).run
      if span.isWhole blob.pageSize then goOn blob.blank
      else .ask (.load (blob.pageKey span.page) blob.level) fun state =>
        match blob.readPage span.page state with
        | .ok base => goOn base
        | .error error => .done (.error error) := by
  rw [writeSpans_cons]
  simp only
  split
  case isTrue =>
    rw [← run_storePage_bind]
    rfl
  case isFalse =>
    have hload (next : Bytes → Task Unit) : (blob.loadPage span.page >>= next).run =
        (blob.loadPage span.page).run.bind (ExceptT.bindCont next) := rfl
    rw [hload, run_loadPage]
    change Program.ask _ _ = Program.ask _ _
    congr 1
    funext state
    simp only [Program.bind]
    cases blob.readPage span.page state with
    | error error => rfl
    | ok base => exact run_storePage_bind blob span.page _ _

theorem checkRange_of_le (blob : Blob) {offset : UInt64} {length : Nat}
    (h : offset.toNat + length ≤ blob.size.toNat) : blob.checkRange offset length = .ok () := by
  simp only [checkRange, UInt64.le_iff_toNat_le]
  rw [if_neg (by omega)]

theorem run_writeAt (blob : Blob) {offset : UInt64} {data : Bytes}
    (h : offset.toNat + data.length ≤ blob.size.toNat) :
    (blob.writeAt offset data).run =
      (blob.writeSpans (spans blob.pageSize blob.pageSize_pos offset data.length) data).run := by
  rw [writeAt, checkRange_of_le blob h]
  rfl

end ReplicaRing.Blob
