import ReplicaRing.Proofs.Blob.Ranges

/-! The spans of a range, told in natural numbers: which pages they touch, and what writing them means
for a page as a whole. -/

namespace ReplicaRing.Blob

/-- Some byte of a range lies in the page. -/
def Touches (pageSize offset length page : Nat) : Prop :=
  ∃ index, index < length ∧ (offset + index) / pageSize = page

def Covers (pageSize offset length page : Nat) : Prop :=
  offset ≤ page * pageSize ∧ page * pageSize + pageSize ≤ offset + length

/-- The page with the bytes of some data in their places; the other bytes are those of a base that
zeros follow. -/
def overlay (pageSize offset : Nat) (data : Bytes) (page : Nat) (base : Bytes) : Bytes :=
  (List.range pageSize).map fun index =>
    if offset ≤ page * pageSize + index ∧ page * pageSize + index < offset + data.length then
      data.getD (page * pageSize + index - offset) 0
    else base.getD index 0

@[simp] theorem length_overlay (pageSize offset : Nat) (data : Bytes) (page : Nat) (base : Bytes) :
    (overlay pageSize offset data page base).length = pageSize := by
  simp [overlay]

theorem getD_overlay {pageSize index : Nat} (offset : Nat) (data : Bytes) (page : Nat) (base : Bytes)
    (h : index < pageSize) :
    (overlay pageSize offset data page base).getD index 0 =
      if offset ≤ page * pageSize + index ∧ page * pageSize + index < offset + data.length then
        data.getD (page * pageSize + index - offset) 0
      else base.getD index 0 := by
  rw [List.getD_eq_getElem _ _ (by simpa using h)]
  simp [overlay]

/-- The spans cut a range at the borders of pages. -/
inductive Tiles (pageSize : Nat) : (offset length : Nat) → List Span → Prop
  | nil (offset : Nat) : Tiles pageSize offset 0 []
  | cons {offset length : Nat} (span : Span) (rest : List Span)
      (hfits : span.Fits pageSize) (hstart : span.start pageSize = offset)
      (hpos : 0 < span.count) (hle : span.count ≤ length)
      (hfull : span.within + span.count = pageSize ∨ span.count = length)
      (hrest : Tiles pageSize (offset + span.count) (length - span.count) rest) :
      Tiles pageSize offset length (span :: rest)

theorem tiles_spans {pageSize : Nat} (hpos : 0 < pageSize) (offset : UInt64) (length : Nat)
    (h : offset.toNat + length < 2 ^ 64) :
    Tiles pageSize offset.toNat length (spans pageSize hpos offset length) := by
  induction length using Nat.strongRecOn generalizing offset with
  | ind length ih =>
      rcases Nat.eq_zero_or_pos length with rfl | hlength
      · rw [spans_zero]
        exact .nil _
      rw [spans_of_pos hpos offset hlength]
      have hle : (firstSpan pageSize offset length).count ≤ length := count_firstSpan_le offset
      have hcount := count_firstSpan_pos hpos offset hlength
      have hin : offset.toNat + (firstSpan pageSize offset length).count < 2 ^ 64 := by omega
      have hnext := toNat_add_count hin
      refine .cons _ _ (fits_firstSpan hpos offset) (start_firstSpan offset) hcount hle ?_ ?_
      · have hwithin := Nat.mod_lt offset.toNat hpos
        simp only [firstSpan]
        omega
      · rw [← hnext]
        apply ih
        · omega
        · omega

namespace Tiles

variable {pageSize offset length page : Nat} {span : Span} {rest tiles : List Span}

theorem cons_inv (h : Tiles pageSize offset length (span :: rest)) :
    span.Fits pageSize ∧ span.start pageSize = offset ∧ 0 < span.count ∧ span.count ≤ length ∧
      (span.within + span.count = pageSize ∨ span.count = length) ∧
      Tiles pageSize (offset + span.count) (length - span.count) rest := by
  cases h with
  | cons _ _ hfits hstart hpos hle hfull hrest => exact ⟨hfits, hstart, hpos, hle, hfull, hrest⟩

theorem touches_iff (hpos : 0 < pageSize) (h : Tiles pageSize offset length tiles) :
    page ∈ tiles.map Span.page ↔ Touches pageSize offset length page := by
  induction h with
  | nil offset => simp [Touches]
  | @cons offset length span rest hfits hstart hcount hle hfull _ ih =>
      have hpage : ∀ index, index < span.count → (offset + index) / pageSize = span.page := by
        intro index hindex
        unfold Span.Fits at hfits
        rw [← hstart, Span.start, Nat.add_assoc, Nat.mul_comm, Nat.mul_add_div hpos,
          Nat.div_eq_of_lt (by omega), Nat.add_zero]
      rw [List.map_cons, List.mem_cons, ih]
      constructor
      · rintro (rfl | ⟨index, hindex, hlater⟩)
        · exact ⟨0, by omega, hpage 0 hcount⟩
        · refine ⟨span.count + index, by omega, ?_⟩
          rw [← Nat.add_assoc]
          exact hlater
      · rintro ⟨index, hindex, rfl⟩
        by_cases hfirst : index < span.count
        · exact .inl (hpage index hfirst)
        · refine .inr ⟨index - span.count, by omega, ?_⟩
          congr 1
          omega

private theorem le_of_mem_rest (hpos : 0 < pageSize)
    (h : Tiles pageSize offset length (span :: rest))
    (hpage : page ∈ rest.map Span.page) :
    offset + span.count ≤ page * pageSize ∧ span.page < page := by
  obtain ⟨-, hstart, -, -, hfull, hrest⟩ := h.cons_inv
  obtain ⟨index, hindex, rfl⟩ := (hrest.touches_iff hpos).mp hpage
  have hend : offset + span.count = (span.page + 1) * pageSize := by
    rw [← hstart, Span.start, Nat.add_assoc, hfull.resolve_right (by omega), Nat.succ_mul]
  have hnext : span.page + 1 ≤ (offset + span.count + index) / pageSize := by
    rw [hend, Nat.mul_comm, Nat.mul_add_div hpos]
    exact Nat.le_add_right _ _
  exact ⟨Nat.le_trans (Nat.le_of_eq hend) (Nat.mul_le_mul_right pageSize hnext), hnext⟩

theorem sorted (hpos : 0 < pageSize) (h : Tiles pageSize offset length tiles) :
    (tiles.map Span.page).Pairwise (· < ·) := by
  induction tiles generalizing offset length with
  | nil => exact .nil
  | cons span rest ih =>
      obtain ⟨-, -, -, -, -, hrest⟩ := h.cons_inv
      exact List.pairwise_cons.mpr ⟨fun page hpage => (h.le_of_mem_rest hpos hpage).2, ih hrest⟩

theorem isWhole_iff (h : Tiles pageSize offset length (span :: rest)) :
    span.isWhole pageSize = true ↔ Covers pageSize offset length span.page := by
  obtain ⟨hfits, hstart, -, hle, hfull, -⟩ := h.cons_inv
  unfold Span.Fits at hfits
  unfold Span.start at hstart
  simp only [Span.isWhole, Bool.and_eq_true, beq_iff_eq, Covers]
  omega

theorem covers_rest (hpos : 0 < pageSize) (h : Tiles pageSize offset length (span :: rest))
    (hpage : page ∈ rest.map Span.page) :
    Covers pageSize (offset + span.count) (length - span.count) page ↔
      Covers pageSize offset length page := by
  have hbegin := (h.le_of_mem_rest hpos hpage).1
  obtain ⟨-, -, -, hle, -, -⟩ := h.cons_inv
  unfold Covers
  omega

variable {data base : Bytes}

theorem write_eq_overlay (h : Tiles pageSize offset data.length (span :: rest))
    (hbase : base.length = pageSize) :
    span.write base data = overlay pageSize offset data span.page base := by
  obtain ⟨hfits, hstart, -, hle, hfull, -⟩ := h.cons_inv
  have hlength := Span.length_write hfits hbase hle
  apply eq_of_getD
  · rw [hlength, length_overlay]
  intro index hindex
  rw [hlength] at hindex
  rw [Span.getD_write hfits hbase hle, getD_overlay _ _ _ _ hindex]
  unfold Span.start at hstart
  by_cases hin : span.within ≤ index ∧ index < span.within + span.count
  · rw [if_pos hin, if_pos (by omega)]
    congr 1
    omega
  · rw [if_neg hin, if_neg (by omega)]

theorem overlay_rest (hpos : 0 < pageSize) (h : Tiles pageSize offset data.length (span :: rest))
    (hpage : page ∈ rest.map Span.page) :
    overlay pageSize (offset + span.count) (data.drop span.count) page base =
      overlay pageSize offset data page base := by
  have hbegin := (h.le_of_mem_rest hpos hpage).1
  obtain ⟨-, -, -, hle, -, -⟩ := h.cons_inv
  apply eq_of_getD (by rw [length_overlay, length_overlay])
  intro index hindex
  rw [length_overlay] at hindex
  rw [getD_overlay _ _ _ _ hindex, getD_overlay _ _ _ _ hindex, List.length_drop]
  by_cases hin : page * pageSize + index < offset + data.length
  · rw [if_pos (by omega), if_pos (by omega), List.getD_eq_getElem?_getD, List.getElem?_drop,
      List.getD_eq_getElem?_getD]
    congr 2
    omega
  · rw [if_neg (by omega), if_neg (by omega)]

end Tiles

end ReplicaRing.Blob
