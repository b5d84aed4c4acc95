import Mathlib.Algebra.Group.Nat.Defs
import ReplicaRing.Proofs.Blob.Pages

/-! Reading and writing a range of a blob, page by page. -/

namespace ReplicaRing.Blob

section Spans

variable {pageSize : Nat} (hpos : 0 < pageSize) (offset : UInt64) {length : Nat}

def firstSpan (pageSize : Nat) (offset : UInt64) (length : Nat) : Span :=
  ⟨offset.toNat / pageSize, offset.toNat % pageSize,
    min (pageSize - offset.toNat % pageSize) length⟩

theorem spans_zero : spans pageSize hpos offset 0 = [] := by
  rw [spans, dif_pos rfl]

theorem spans_of_pos (hlength : 0 < length) :
    spans pageSize hpos offset length =
      firstSpan pageSize offset length ::
        spans pageSize hpos
          (offset + UInt64.ofNat (firstSpan pageSize offset length).count)
          (length - (firstSpan pageSize offset length).count) := by
  rw [spans, dif_neg (Nat.ne_of_gt hlength)]
  rfl

include hpos in
theorem fits_firstSpan : (firstSpan pageSize offset length).Fits pageSize := by
  have hwithin := Nat.mod_lt offset.toNat hpos
  simp only [Span.Fits, firstSpan]
  omega

theorem start_firstSpan :
    (firstSpan pageSize offset length).start pageSize = offset.toNat :=
  Nat.div_add_mod' offset.toNat pageSize

include hpos in
theorem count_firstSpan_pos (hlength : 0 < length) :
    0 < (firstSpan pageSize offset length).count := by
  have hwithin := Nat.mod_lt offset.toNat hpos
  simp only [firstSpan]
  omega

theorem count_firstSpan_le : (firstSpan pageSize offset length).count ≤ length :=
  Nat.min_le_right _ _

end Spans

theorem toNat_add_count {offset : UInt64} {count : Nat} (h : offset.toNat + count < 2 ^ 64) :
    (offset + UInt64.ofNat count).toNat = offset.toNat + count := by
  rw [UInt64.toNat_add, UInt64.toNat_ofNat']
  omega

variable {service : Service} {blob : Blob} {flat : Bytes}

theorem perform_readSpans {state : service.State} (h : Represents service blob flat state)
    (offset : UInt64) {length : Nat} (hrange : offset.toNat + length ≤ flat.length) :
    ∃ after, service.perform
        (blob.readSpans (spans blob.pageSize blob.pageSize_pos offset length)) state =
        (.ok ((flat.drop offset.toNat).take length), after) ∧
      ∀ key, service.held after key = service.held state key := by
  induction length using Nat.strongRecOn generalizing offset state with
  | ind length ih =>
      have hbound : flat.length < 2 ^ 64 := h.size ▸ blob.size.toNat_lt
      rcases Nat.eq_zero_or_pos length with rfl | hlength
      · rw [spans_zero]
        exact ⟨state, rfl, fun _ => rfl⟩
      rw [spans_of_pos blob.pageSize_pos offset hlength]
      generalize hspan : firstSpan blob.pageSize offset length = span
      have hfits : span.Fits blob.pageSize := hspan ▸ fits_firstSpan blob.pageSize_pos offset
      have hstart : span.start blob.pageSize = offset.toNat := hspan ▸ start_firstSpan offset
      have hcount : 0 < span.count := hspan ▸ count_firstSpan_pos blob.pageSize_pos offset hlength
      have hle : span.count ≤ length := hspan ▸ count_firstSpan_le offset
      have hnext : (offset + UInt64.ofNat span.count).toNat = offset.toNat + span.count :=
        toNat_add_count (by omega)
      obtain ⟨loaded, hload, hheld⟩ := perform_loadPage h span.page
      obtain ⟨after, hread, hafter⟩ := ih (length - span.count) (by omega) (h.congr hheld)
        (offset + UInt64.ofNat span.count) (by omega)
      refine ⟨after, ?_, fun key => (hafter key).trans (hheld key)⟩
      rw [readSpans, service.perform_bind_of_ok hload, service.perform_bind_of_ok hread,
        Span.read_pageOf hfits (by omega), hstart, hnext, ← List.drop_drop, ← List.take_add,
        Nat.add_sub_cancel' hle]
      rfl

private theorem perform_pageToWrite {state : service.State} (h : Represents service blob flat state)
    (span : Span) (data : Bytes) :
    ∃ page loaded, service.perform
        (if span.isWhole blob.pageSize then pure blob.blank else blob.loadPage span.page) state =
        (.ok page, loaded) ∧
      span.write page data = span.write (pageOf flat blob.pageSize span.page) data ∧
      ∀ key, service.held loaded key = service.held state key := by
  by_cases hwhole : span.isWhole blob.pageSize = true
  · refine ⟨blob.blank, state, ?_, ?_, fun _ => rfl⟩
    · rw [if_pos hwhole]
      rfl
    · exact Span.write_of_isWhole hwhole List.length_replicate (length_pageOf _)
  · obtain ⟨loaded, hload, hheld⟩ := perform_loadPage h span.page
    refine ⟨_, loaded, ?_, rfl, hheld⟩
    rw [if_neg hwhole]
    exact hload

theorem writeSpans_cons (blob : Blob) (span : Span) (rest : List Span) (data : Bytes) :
    blob.writeSpans (span :: rest) data =
      (if span.isWhole blob.pageSize then pure blob.blank else blob.loadPage span.page) >>=
        fun page => blob.storePage span.page (span.write page data) >>=
          fun _ => blob.writeSpans rest (data.drop span.count) := by
  rw [writeSpans]
  split <;> rfl

/-- The pages of a range, rewritten one after the other, replace its bytes and no others. -/
theorem perform_writeSpans {state : service.State} (h : Represents service blob flat state)
    (hpage : blob.pageSize ≤ service.maxValueSize) (offset : UInt64) {data : Bytes}
    (hrange : offset.toNat + data.length ≤ flat.length) :
    ∃ after, service.perform
        (blob.writeSpans (spans blob.pageSize blob.pageSize_pos offset data.length) data) state =
        (.ok (), after) ∧
      Represents service blob (overwrite flat offset.toNat data) after := by
  induction hlength : data.length using Nat.strongRecOn
    generalizing offset data flat state with
  | ind length ih =>
      subst hlength
      have hbound : flat.length < 2 ^ 64 := h.size ▸ blob.size.toNat_lt
      rcases Nat.eq_zero_or_pos data.length with hzero | hpos
      · rw [List.length_eq_zero_iff] at hzero
        subst hzero
        rw [List.length_nil, spans_zero]
        refine ⟨state, rfl, ?_⟩
        simpa [overwrite] using h
      rw [spans_of_pos blob.pageSize_pos offset hpos]
      generalize hspan : firstSpan blob.pageSize offset data.length = span
      have hfits : span.Fits blob.pageSize := hspan ▸ fits_firstSpan blob.pageSize_pos offset
      have hstart : span.start blob.pageSize = offset.toNat := hspan ▸ start_firstSpan offset
      have hcount : 0 < span.count := hspan ▸ count_firstSpan_pos blob.pageSize_pos offset hpos
      have hle : span.count ≤ data.length := hspan ▸ count_firstSpan_le offset
      have hnext : (offset + UInt64.ofNat span.count).toNat = offset.toNat + span.count :=
        toNat_add_count (by omega)
      have hflat : span.start blob.pageSize + span.count ≤ flat.length := by omega
      have htake : (data.take span.count).length = span.count := List.length_take_of_le hle
      have hdrop : (data.drop span.count).length = data.length - span.count := List.length_drop
      let changed := overwrite flat offset.toNat (data.take span.count)
      have hchanged : changed.length = flat.length := length_overwrite (by omega)
      obtain ⟨page, loaded, hload, hwrite, hheld⟩ := perform_pageToWrite h span data
      rw [Span.write_pageOf hfits hflat hle, hstart] at hwrite
      have hfit : (pageOf changed blob.pageSize span.page).length ≤ service.maxValueSize := by
        rwa [length_pageOf]
      obtain ⟨stored, hstore, hput⟩ := perform_storePage blob span.page loaded hfit
      have hothers : ∀ other, other ≠ span.page →
          pageOf changed blob.pageSize other = pageOf flat blob.pageSize other := by
        intro other hother
        have hsame := Span.pageOf_overwrite_other hfits hflat hle hother
        rwa [hstart] at hsame
      have hstep : Represents service blob changed stored :=
        (h.congr hheld).store hchanged hothers hput
      have hrest : (offset + UInt64.ofNat span.count).toNat + (data.drop span.count).length ≤
          changed.length := by omega
      obtain ⟨after, hperform, hafter⟩ := ih _ (by omega) hstep _ hrest rfl
      rw [hdrop] at hperform
      refine ⟨after, ?_, ?_⟩
      · rw [writeSpans_cons, service.perform_bind_of_ok hload, hwrite,
          service.perform_bind_of_ok hstore, hperform]
      · rwa [hnext, overwrite_append hle hrange] at hafter

end ReplicaRing.Blob
