import ReplicaRing.Proofs.Blob.Ranges

/-! Every call on a blob does what it would do on a flat array of bytes. -/

namespace ReplicaRing.Blob

inductive Call
  | readAt (offset : UInt64) (length : Nat)
  | writeAt (offset : UInt64) (data : Bytes)
  | readByteAt (offset : UInt64)
  | writeByteAt (offset : UInt64) (byte : UInt8)

inductive Reply
  | bytes (bytes : Bytes)
  | byte (byte : UInt8)
  | written
  deriving DecidableEq

namespace Call

def task (blob : Blob) : Call → Task Reply
  | readAt offset length => do
      let bytes ← blob.readAt offset length
      return .bytes bytes
  | writeAt offset data => do
      blob.writeAt offset data
      return .written
  | readByteAt offset => do
      let byte ← blob.readByteAt offset
      return .byte byte
  | writeByteAt offset byte => do
      blob.writeByteAt offset byte
      return .written

def offset : Call → UInt64
  | readAt offset _ | writeAt offset _ | readByteAt offset | writeByteAt offset _ => offset

def length : Call → Nat
  | readAt _ length => length
  | writeAt _ data => data.length
  | readByteAt _ | writeByteAt _ _ => 1

/-- What the call does on a flat array that it stays within. -/
def onFlat (flat : Bytes) : Call → Reply × Bytes
  | readAt offset length => (.bytes ((flat.drop offset.toNat).take length), flat)
  | writeAt offset data => (.written, overwrite flat offset.toNat data)
  | readByteAt offset => (.byte (flat.getD offset.toNat 0), flat)
  | writeByteAt offset byte => (.written, flat.set offset.toNat byte)

def IsWithin (call : Call) (size : Nat) : Prop := call.offset.toNat + call.length ≤ size

instance (call : Call) (size : Nat) : Decidable (call.IsWithin size) :=
  inferInstanceAs (Decidable (_ ≤ _))

/-- The range begins within the largest of all sizes and goes beyond it.  Its end, being no number of 64
bits, is taken for that size. -/
def Escapes (call : Call) (size : Nat) : Prop :=
  size = UInt64.size - 1 ∧ call.offset.toNat < size ∧ size < call.offset.toNat + call.length

instance (call : Call) (size : Nat) : Decidable (call.Escapes size) :=
  inferInstanceAs (Decidable (_ ∧ _))

def outOfRange (call : Call) (size : Nat) : BlobError :=
  .outOfRange call.offset.toNat (min (call.offset.toNat + call.length) (UInt64.size - 1)) size

/-- What the call answers on a flat array of the given size, and the array after it. -/
def answerOn (size : Nat) (flat : Bytes) (call : Call) : Except BlobError Reply × Bytes :=
  if call.IsWithin size then (.ok (call.onFlat flat).1, (call.onFlat flat).2)
  else (.error (call.outOfRange size), flat)

end Call

theorem checkRange_eq (blob : Blob) (call : Call) :
    blob.checkRange call.offset call.length =
      if call.IsWithin blob.size.toNat ∨ call.Escapes blob.size.toNat then .ok ()
      else .error (call.outOfRange blob.size.toNat) := by
  have hlimit : UInt64.size = 2 ^ 64 := rfl
  have hsize := blob.size.toNat_lt
  have hoffset := call.offset.toNat_lt
  simp only [checkRange, UInt64.le_iff_toNat_le]
  by_cases hpasses : call.IsWithin blob.size.toNat ∨ call.Escapes blob.size.toNat
  · rw [if_pos hpasses, if_neg]
    unfold Call.IsWithin Call.Escapes at hpasses
    omega
  · rw [if_neg hpasses, if_pos, Call.outOfRange]
    unfold Call.IsWithin Call.Escapes at hpasses
    omega

theorem run_task_of_refused {blob : Blob} {call : Call} {error : BlobError}
    (h : blob.checkRange call.offset call.length = .error error) :
    (call.task blob).run = .done (.error error) := by
  cases call with
  | readAt offset length =>
      simp only [Call.task, readAt]
      rw [show blob.checkRange offset length = .error error from h]
      rfl
  | writeAt offset data =>
      simp only [Call.task, writeAt]
      rw [show blob.checkRange offset data.length = .error error from h]
      rfl
  | readByteAt offset =>
      simp only [Call.task, readByteAt]
      rw [show blob.checkRange offset 1 = .error error from h]
      rfl
  | writeByteAt offset byte =>
      simp only [Call.task, writeByteAt]
      rw [show blob.checkRange offset 1 = .error error from h]
      rfl

section Calls

variable {service : Service} {blob : Blob} {flat : Bytes} {state : service.State}

private theorem perform_readAt (h : Represents service blob flat state) (offset : UInt64)
    {length : Nat}
    (hrange : offset.toNat + length ≤ flat.length)
    (hcheck : blob.checkRange offset length = .ok ()) :
    ∃ after, service.perform (blob.readAt offset length) state =
        (.ok ((flat.drop offset.toNat).take length), after) ∧
      Represents service blob flat after := by
  obtain ⟨after, hread, hheld⟩ := perform_readSpans h offset hrange
  refine ⟨after, ?_, h.congr hheld⟩
  rw [readAt, hcheck]
  exact hread

private theorem perform_writeAt (h : Represents service blob flat state)
    (hpage : blob.pageSize ≤ service.maxValueSize) (offset : UInt64) {data : Bytes}
    (hrange : offset.toNat + data.length ≤ flat.length)
    (hcheck : blob.checkRange offset data.length = .ok ()) :
    ∃ after, service.perform (blob.writeAt offset data) state = (.ok (), after) ∧
      Represents service blob (overwrite flat offset.toNat data) after := by
  rw [writeAt, hcheck]
  exact perform_writeSpans h hpage offset hrange

def byteSpan (pageSize : Nat) (offset : UInt64) : Span :=
  ⟨offset.toNat / pageSize, offset.toNat % pageSize, 1⟩

private theorem fits_byteSpan (blob : Blob) (offset : UInt64) :
    (byteSpan blob.pageSize offset).Fits blob.pageSize :=
  Nat.mod_lt offset.toNat blob.pageSize_pos

private theorem start_byteSpan (blob : Blob) (offset : UInt64) :
    (byteSpan blob.pageSize offset).start blob.pageSize = offset.toNat :=
  Nat.div_add_mod' offset.toNat blob.pageSize

private theorem perform_readByteAt (h : Represents service blob flat state) (offset : UInt64)
    (hcheck : blob.checkRange offset 1 = .ok ()) :
    ∃ after, service.perform (blob.readByteAt offset) state =
        (.ok (flat.getD offset.toNat 0), after) ∧
      Represents service blob flat after := by
  obtain ⟨after, hload, hheld⟩ := perform_loadPage h (blob.pageAt offset)
  refine ⟨after, ?_, h.congr hheld⟩
  have hbyte : (pageOf flat blob.pageSize (blob.pageAt offset)).getD
      (offset.toNat % blob.pageSize) 0 = flat.getD offset.toNat 0 := by
    rw [getD_pageOf _ (Nat.mod_lt _ blob.pageSize_pos)]
    exact congrArg (flat.getD · 0) (Nat.div_add_mod' offset.toNat blob.pageSize)
  rw [readByteAt, hcheck, ← hbyte]
  exact service.perform_bind_of_ok hload _

private theorem perform_writeByteAt (h : Represents service blob flat state)
    (hpage : blob.pageSize ≤ service.maxValueSize) (offset : UInt64) (byte : UInt8)
    (hrange : offset.toNat + 1 ≤ flat.length) (hcheck : blob.checkRange offset 1 = .ok ()) :
    ∃ after, service.perform (blob.writeByteAt offset byte) state = (.ok (), after) ∧
      Represents service blob (flat.set offset.toNat byte) after := by
  have hfits := fits_byteSpan blob offset
  have hstart := start_byteSpan blob offset
  have hflat : (byteSpan blob.pageSize offset).start blob.pageSize + 1 ≤ flat.length := by omega
  have hcount : (byteSpan blob.pageSize offset).count ≤ [byte].length := Nat.le_refl 1
  have hset : flat.set offset.toNat byte = overwrite flat offset.toNat [byte] :=
    set_eq_overwrite hrange byte
  have hpageAfter : (pageOf flat blob.pageSize (blob.pageAt offset)).set
      (offset.toNat % blob.pageSize) byte =
        pageOf (flat.set offset.toNat byte) blob.pageSize (blob.pageAt offset) := by
    have hwrite := Span.write_pageOf hfits hflat hcount
    rw [hstart] at hwrite
    rw [set_eq_overwrite (by simpa using Nat.mod_lt _ blob.pageSize_pos), hset]
    exact hwrite
  have hothers : ∀ other, other ≠ blob.pageAt offset →
      pageOf (flat.set offset.toNat byte) blob.pageSize other =
        pageOf flat blob.pageSize other := by
    intro other hother
    have hsame := Span.pageOf_overwrite_other hfits hflat hcount hother
    rw [hstart] at hsame
    rw [hset]
    exact hsame
  obtain ⟨loaded, hload, hheld⟩ := perform_loadPage h (blob.pageAt offset)
  have hfit : (pageOf (flat.set offset.toNat byte) blob.pageSize (blob.pageAt offset)).length ≤
      service.maxValueSize := by
    rwa [length_pageOf]
  obtain ⟨after, hstore, hput⟩ := perform_storePage blob (blob.pageAt offset) loaded hfit
  refine ⟨after, ?_, (h.congr hheld).store List.length_set hothers hput⟩
  rw [writeByteAt, hcheck]
  refine (service.perform_bind_of_ok hload _).trans ?_
  rw [hpageAfter]
  exact hstore

theorem perform_call (h : Represents service blob flat state)
    (hpage : blob.pageSize ≤ service.maxValueSize) (hsize : blob.size.toNat < UInt64.size - 1)
    (call : Call) :
    ∃ after, service.perform (call.task blob) state =
        ((call.answerOn blob.size.toNat flat).1, after) ∧
      Represents service blob (call.answerOn blob.size.toNat flat).2 after ∧
      (¬call.IsWithin blob.size.toNat → after = state) := by
  have hcheck := checkRange_eq blob call
  have hstays : ¬call.Escapes blob.size.toNat := fun hescapes => Nat.ne_of_lt hsize hescapes.1
  unfold Call.answerOn
  by_cases hwithin : call.IsWithin blob.size.toNat
  · rw [if_pos hwithin]
    rw [if_pos (.inl hwithin)] at hcheck
    have hrange : call.offset.toNat + call.length ≤ flat.length := h.size ▸ hwithin
    suffices hcall : ∃ after,
        service.perform (call.task blob) state = (.ok (call.onFlat flat).1, after) ∧
          Represents service blob (call.onFlat flat).2 after by
      obtain ⟨after, hperform, hafter⟩ := hcall
      exact ⟨after, hperform, hafter, fun hout => absurd hwithin hout⟩
    cases call with
    | readAt offset length =>
        obtain ⟨after, hperform, hafter⟩ := perform_readAt h offset hrange hcheck
        exact ⟨after, service.perform_bind_of_ok hperform _, hafter⟩
    | writeAt offset data =>
        obtain ⟨after, hperform, hafter⟩ := perform_writeAt h hpage offset hrange hcheck
        exact ⟨after, service.perform_bind_of_ok hperform _, hafter⟩
    | readByteAt offset =>
        obtain ⟨after, hperform, hafter⟩ := perform_readByteAt h offset hcheck
        exact ⟨after, service.perform_bind_of_ok hperform _, hafter⟩
    | writeByteAt offset byte =>
        obtain ⟨after, hperform, hafter⟩ := perform_writeByteAt h hpage offset byte hrange hcheck
        exact ⟨after, service.perform_bind_of_ok hperform _, hafter⟩
  · rw [if_neg hwithin]
    rw [if_neg (not_or.mpr ⟨hwithin, hstays⟩)] at hcheck
    refine ⟨state, ?_, h, fun _ => rfl⟩
    rw [Service.perform, run_task_of_refused hcheck]
    rfl

end Calls

end ReplicaRing.Blob
