import Mathlib.Data.List.GetD
import ReplicaRing.Blob

/-! Flat arrays of bytes and their pages. -/

namespace ReplicaRing.Blob

def overwrite (flat : Bytes) (offset : Nat) (data : Bytes) : Bytes :=
  flat.take offset ++ data ++ flat.drop (offset + data.length)

/-- A page of the array, with zeros beyond its end. -/
def pageOf (flat : Bytes) (pageSize page : Nat) : Bytes :=
  (List.range pageSize).map fun index => flat.getD (page * pageSize + index) 0

theorem eq_of_getD {first second : Bytes} (hlength : first.length = second.length)
    (h : ∀ index, index < first.length → first.getD index 0 = second.getD index 0) :
    first = second := by
  apply List.ext_getElem hlength
  intro index hfirst hsecond
  have hindex := h index hfirst
  rwa [List.getD_eq_getElem _ _ hfirst, List.getD_eq_getElem _ _ hsecond] at hindex

section Overwrite

variable {flat data : Bytes} {offset : Nat}

theorem length_overwrite (h : offset + data.length ≤ flat.length) :
    (overwrite flat offset data).length = flat.length := by
  simp only [overwrite, List.length_append, List.length_take, List.length_drop]
  omega

private theorem getD_overwrite (h : offset + data.length ≤ flat.length) (index : Nat) :
    (overwrite flat offset data).getD index 0 =
      if offset ≤ index ∧ index < offset + data.length then data.getD (index - offset) 0
      else flat.getD index 0 := by
  have htake : (flat.take offset).length = offset := by
    rw [List.length_take]
    omega
  rw [overwrite, List.append_assoc]
  by_cases hbefore : index < offset
  · rw [if_neg (by omega), List.getD_append _ _ _ _ (by omega), List.getD_eq_getElem?_getD,
      List.getElem?_take_of_lt hbefore, List.getD_eq_getElem?_getD]
  · rw [List.getD_append_right _ _ _ _ (by omega), htake]
    by_cases hwithin : index < offset + data.length
    · rw [if_pos (by omega), List.getD_append _ _ _ _ (by omega)]
    · rw [if_neg (by omega), List.getD_append_right _ _ _ _ (by omega),
        List.getD_eq_getElem?_getD, List.getElem?_drop, List.getD_eq_getElem?_getD]
      congr 2
      omega

theorem overwrite_append {count : Nat} (hcount : count ≤ data.length)
    (h : offset + data.length ≤ flat.length) :
    overwrite (overwrite flat offset (data.take count)) (offset + count) (data.drop count) =
      overwrite flat offset data := by
  have htake : (data.take count).length = count := List.length_take_of_le hcount
  have hfirst : offset + (data.take count).length ≤ flat.length := by omega
  have hsecond : offset + count + (data.drop count).length ≤
      (overwrite flat offset (data.take count)).length := by
    rw [length_overwrite hfirst, List.length_drop]
    omega
  apply eq_of_getD
  · rw [length_overwrite hsecond, length_overwrite hfirst, length_overwrite h]
  intro index _
  rw [getD_overwrite hsecond, getD_overwrite hfirst, getD_overwrite h, List.length_drop, htake]
  by_cases hlate : offset + count ≤ index ∧ index < offset + count + (data.length - count)
  · rw [if_pos hlate, if_pos (by omega), List.getD_eq_getElem?_getD, List.getElem?_drop,
      List.getD_eq_getElem?_getD]
    congr 2
    omega
  · rw [if_neg hlate]
    by_cases hearly : offset ≤ index ∧ index < offset + count
    · rw [if_pos hearly, if_pos (by omega), List.getD_eq_getElem?_getD,
        List.getElem?_take_of_lt (by omega), List.getD_eq_getElem?_getD]
    · rw [if_neg hearly, if_neg (by omega)]

theorem set_eq_overwrite (h : offset < flat.length) (byte : UInt8) :
    flat.set offset byte = overwrite flat offset [byte] := by
  rw [List.set_eq_take_append_cons_drop, if_pos h, overwrite]
  simp

end Overwrite

section Pages

variable {flat : Bytes} {pageSize : Nat}

@[simp] theorem length_pageOf (page : Nat) : (pageOf flat pageSize page).length = pageSize := by
  simp [pageOf]

theorem getD_pageOf (page : Nat) {index : Nat} (h : index < pageSize) :
    (pageOf flat pageSize page).getD index 0 = flat.getD (page * pageSize + index) 0 := by
  rw [List.getD_eq_getElem _ _ (by simpa using h)]
  simp [pageOf]

theorem pageOf_zeros (count page : Nat) :
    pageOf (List.replicate count 0) pageSize page = List.replicate pageSize 0 := by
  apply eq_of_getD (by simp)
  intro index hindex
  rw [getD_pageOf page (by simpa using hindex), List.getD_eq_getElem?_getD,
    List.getD_eq_getElem?_getD, List.getElem?_getD_replicate_default_eq,
    List.getElem?_getD_replicate_default_eq]

private theorem page_eq_of_offset {page other index within : Nat} (hindex : index < pageSize)
    (hwithin : within < pageSize) (h : other * pageSize + index = page * pageSize + within) :
    other = page := by
  have hpos : 0 < pageSize := by omega
  have hother : (index + pageSize * other) / pageSize = other := by
    rw [Nat.add_mul_div_left _ _ hpos, Nat.div_eq_of_lt hindex, Nat.zero_add]
  have hpage : (within + pageSize * page) / pageSize = page := by
    rw [Nat.add_mul_div_left _ _ hpos, Nat.div_eq_of_lt hwithin, Nat.zero_add]
  rw [← hother, ← hpage, Nat.mul_comm pageSize, Nat.mul_comm pageSize, Nat.add_comm index, h,
    Nat.add_comm within]

end Pages

namespace Span

variable {flat data : Bytes} {pageSize : Nat} {span : Span}

def Fits (span : Span) (pageSize : Nat) : Prop := span.within + span.count ≤ pageSize

def start (span : Span) (pageSize : Nat) : Nat := span.page * pageSize + span.within

theorem length_write {page : Bytes} (hfits : span.Fits pageSize) (hpage : page.length = pageSize)
    (hdata : span.count ≤ data.length) : (span.write page data).length = pageSize := by
  unfold Fits at hfits
  simp only [write, List.length_append, List.length_take, List.length_drop]
  omega

theorem getD_write {page : Bytes} (hfits : span.Fits pageSize) (hpage : page.length = pageSize)
    (hdata : span.count ≤ data.length) (index : Nat) :
    (span.write page data).getD index 0 =
      if span.within ≤ index ∧ index < span.within + span.count then
        data.getD (index - span.within) 0
      else page.getD index 0 := by
  have hcount : (data.take span.count).length = span.count := List.length_take_of_le hdata
  have hwrite : span.write page data = overwrite page span.within (data.take span.count) := by
    rw [write, overwrite, hcount]
  rw [hwrite, getD_overwrite (by rw [hcount, hpage]; exact hfits), hcount]
  split
  · rw [List.getD_eq_getElem?_getD, List.getElem?_take_of_lt (by omega),
      List.getD_eq_getElem?_getD]
  · rfl

theorem read_pageOf (hfits : span.Fits pageSize)
    (hflat : span.start pageSize + span.count ≤ flat.length) :
    span.read (pageOf flat pageSize span.page) =
      (flat.drop (span.start pageSize)).take span.count := by
  unfold Fits at hfits
  have hread : (span.read (pageOf flat pageSize span.page)).length = span.count := by
    simp only [read, List.length_take, List.length_drop, length_pageOf]
    omega
  apply eq_of_getD
  · rw [hread, List.length_take, List.length_drop]
    omega
  intro index hindex
  rw [hread] at hindex
  rw [read, List.getD_eq_getElem?_getD, List.getElem?_take_of_lt hindex, List.getElem?_drop,
    ← List.getD_eq_getElem?_getD, getD_pageOf span.page (by omega), ← Nat.add_assoc,
    List.getD_eq_getElem?_getD, List.getD_eq_getElem?_getD, List.getElem?_take_of_lt hindex,
    List.getElem?_drop, start]

theorem write_pageOf (hfits : span.Fits pageSize)
    (hflat : span.start pageSize + span.count ≤ flat.length) (hdata : span.count ≤ data.length) :
    span.write (pageOf flat pageSize span.page) data =
      pageOf (overwrite flat (span.start pageSize) (data.take span.count)) pageSize span.page := by
  have hcount : (data.take span.count).length = span.count := List.length_take_of_le hdata
  have hpage : (pageOf flat pageSize span.page).length = pageSize := length_pageOf span.page
  have hlength := length_write hfits hpage hdata
  apply eq_of_getD
  · rw [hlength, length_pageOf]
  intro index hindex
  rw [hlength] at hindex
  rw [getD_write hfits hpage hdata, getD_pageOf span.page hindex,
    getD_pageOf span.page hindex, getD_overwrite (by omega), hcount]
  unfold start
  by_cases hin : span.within ≤ index ∧ index < span.within + span.count
  · rw [if_pos hin, if_pos (by omega), List.getD_eq_getElem?_getD, List.getD_eq_getElem?_getD,
      List.getElem?_take_of_lt (by omega)]
    congr 2
    omega
  · rw [if_neg hin, if_neg (by omega)]

theorem pageOf_overwrite_other (hfits : span.Fits pageSize)
    (hflat : span.start pageSize + span.count ≤ flat.length) (hdata : span.count ≤ data.length)
    {other : Nat} (hother : other ≠ span.page) :
    pageOf (overwrite flat (span.start pageSize) (data.take span.count)) pageSize other =
      pageOf flat pageSize other := by
  have hcount : (data.take span.count).length = span.count := List.length_take_of_le hdata
  unfold Fits at hfits
  apply eq_of_getD (by simp)
  intro index hindex
  rw [length_pageOf] at hindex
  rw [getD_pageOf other hindex, getD_pageOf other hindex, getD_overwrite (by omega), hcount,
    if_neg]
  rintro ⟨hlow, hhigh⟩
  unfold start at hlow hhigh
  obtain ⟨within, hwithin⟩ := Nat.exists_eq_add_of_le (Nat.le_trans (Nat.le_add_right _ _) hlow)
  exact hother (page_eq_of_offset hindex (by omega) hwithin)

theorem write_of_isWhole {page other : Bytes} (hwhole : span.isWhole pageSize = true)
    (hpage : page.length = pageSize) (hother : other.length = pageSize) :
    span.write page data = span.write other data := by
  simp only [isWhole, Bool.and_eq_true, beq_iff_eq] at hwhole
  rw [write, write, hwhole.1, hwhole.2, Nat.zero_add, List.drop_of_length_le (by omega),
    List.drop_of_length_le (by omega), List.take_zero, List.take_zero]

end Span

end ReplicaRing.Blob
