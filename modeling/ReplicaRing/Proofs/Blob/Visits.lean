import ReplicaRing.Proofs.Blob.Steps
import ReplicaRing.Proofs.Client.Transcripts

/-!
What a write does page by page when every answer may be anything.  It goes through the pages of its range
upward, stores nothing but the data laid over what the load of the page has brought, and ends at the
first page that fails.
-/

namespace ReplicaRing.Blob

open Program (Event recorded run_recorded)

/-- What the answer to the load of a page tells of the bytes that the page holds. -/
inductive Found (pageSize : Nat) : Replication.State → Bytes → Prop
  | nothing {state : Replication.State} (hnacked : state.isAllNacked = true) : Found pageSize state []
  | value {state : Replication.State} {bytes : Bytes} (hvalue : state.value? = some bytes)
      (hfits : bytes.length ≤ pageSize) : Found pageSize state bytes

/-- What a write does at one page: the answer to the load, if it loads the page, and what it stores, if it
stores the page, with the answer to that. -/
structure Visit where
  page : Nat
  loaded : Option Replication.State
  stored : Option (Bytes × Outcome)

namespace Visit

def events (blob : Blob) (visit : Visit) : List (Event Access Access.Result) :=
  let key := blob.pageKey visit.page
  (visit.loaded.map fun state => ⟨.load key blob.level, state⟩).toList ++
    (visit.stored.map fun (bytes, outcome) => ⟨.store key bytes blob.level, outcome⟩).toList

def error? (blob : Blob) : Visit → Option BlobError
  | ⟨page, _, some (_, outcome)⟩ =>
      if outcome.isAcknowledged then none else some (.pageStore page outcome)
  | ⟨page, some state, none⟩ =>
      match state.value? with
      | none => some (.pageLoad page state.outcome)
      | some bytes => some (.oversizedPage page bytes.length blob.pageSize)
  | ⟨_, none, none⟩ => none

/-- The page is stored as it should be for some data that are written at an offset, or not stored. -/
inductive IsSound (blob : Blob) (offset : Nat) (data : Bytes) : Visit → Prop
  | covered (page : Nat) (outcome : Outcome)
      (hcovers : Covers blob.pageSize offset data.length page) :
      IsSound blob offset data
        ⟨page, none, some (overlay blob.pageSize offset data page [], outcome)⟩
  | patched (page : Nat) (state : Replication.State) (base : Bytes) (outcome : Outcome)
      (hcovers : ¬Covers blob.pageSize offset data.length page)
      (hfound : Found blob.pageSize state base) :
      IsSound blob offset data
        ⟨page, some state, some (overlay blob.pageSize offset data page base, outcome)⟩
  | unreadable (page : Nat) (state : Replication.State)
      (hcovers : ¬Covers blob.pageSize offset data.length page)
      (hnothing : ∀ base, ¬Found blob.pageSize state base) :
      IsSound blob offset data ⟨page, some state, none⟩

end Visit

/-- The visits of a write to some pages, up to the first one that fails. -/
structure IsCourse (blob : Blob) (offset : Nat) (data : Bytes) (pages : List Nat)
    (visits : List Visit) (result : Except BlobError Unit) : Prop where
  inOrder : visits.map Visit.page <+: pages
  sound : ∀ visit ∈ visits, visit.IsSound blob offset data
  ends : (result = .ok () ∧ visits.map Visit.page = pages ∧
      ∀ visit ∈ visits, visit.error? blob = none) ∨
    ∃ earlier last error, visits = earlier ++ [last] ∧ result = .error error ∧
      last.error? blob = some error ∧ ∀ visit ∈ earlier, visit.error? blob = none

variable {blob : Blob} {offset page : Nat} {data base : Bytes} {state : Replication.State}
  {events : List (Event Access Access.Result)} {result : Except BlobError Unit}

private theorem readPage_cases (blob : Blob) (page : Nat) (state : Replication.State) :
    (∃ base, Found blob.pageSize state base ∧
      blob.readPage page state =
        .ok (base ++ List.replicate (blob.pageSize - base.length) 0)) ∨
    ((∀ base, ¬Found blob.pageSize state base) ∧
      ∃ error, blob.readPage page state = .error error ∧
        Visit.error? blob ⟨page, some state, none⟩ = some error) := by
  unfold readPage
  split
  case isTrue hnacked => exact .inl ⟨[], .nothing hnacked, rfl⟩
  case isFalse hnot =>
    cases hvalue : state.value? with
    | none =>
        refine .inr ⟨fun base hfound => ?_, _, rfl, ?_⟩
        · cases hfound with
          | nothing hnacked => exact hnot hnacked
          | value hbytes _ => cases hvalue.symm.trans hbytes
        · simp only [Visit.error?, hvalue]
    | some bytes =>
        simp only
        split
        case isTrue hlarge =>
          refine .inr ⟨fun base hfound => ?_, _, rfl, ?_⟩
          · cases hfound with
            | nothing hnacked => exact hnot hnacked
            | value hbytes hfits =>
                cases hvalue.symm.trans hbytes
                exact Nat.not_le.mpr hlarge hfits
          · simp only [Visit.error?, hvalue]
        case isFalse hsmall => exact .inl ⟨bytes, .value hvalue (Nat.not_lt.mp hsmall), rfl⟩

private theorem Found.length_le (h : Found blob.pageSize state base) :
    base.length ≤ blob.pageSize := by
  cases h with
  | nothing => exact Nat.zero_le _
  | value _ hfits => exact hfits

private theorem overlay_append_zeros (pageSize offset : Nat) (data : Bytes) (page : Nat)
    (base : Bytes)
    (count : Nat) :
    overlay pageSize offset data page (base ++ List.replicate count 0) =
      overlay pageSize offset data page base := by
  apply eq_of_getD (by rw [length_overlay, length_overlay])
  intro index hindex
  rw [length_overlay] at hindex
  rw [getD_overlay _ _ _ _ hindex, getD_overlay _ _ _ _ hindex]
  congr 1
  by_cases hbase : index < base.length
  · rw [List.getD_append _ _ _ _ hbase]
  · rw [List.getD_append_right _ _ _ _ (Nat.le_of_not_lt hbase), List.getD_eq_getElem?_getD,
      List.getElem?_getD_replicate_default_eq, List.getD_eq_default _ _ (Nat.le_of_not_lt hbase)]

private theorem yields_storeThen {bytes : Bytes} {rest : Accesses (Except BlobError Unit)}
    (h : (blob.storeThen page bytes rest).Yields events result) :
    ∃ (outcome : Outcome) (more : List (Event Access Access.Result)),
      events = ⟨.store (blob.pageKey page) bytes blob.level, outcome⟩ :: more ∧
      (outcome.isAcknowledged = true ∧ rest.Yields more result ∨
        outcome.isAcknowledged = false ∧ more = [] ∧ result = .error (.pageStore page outcome)) := by
  cases h with
  | ask outcome hrest =>
      refine ⟨outcome, _, rfl, ?_⟩
      change Program.Yields (if Outcome.isAcknowledged outcome = true then rest else _) _ _ at hrest
      by_cases hack : Outcome.isAcknowledged outcome = true
      · rw [if_pos hack] at hrest
        exact .inl ⟨hack, hrest⟩
      · rw [if_neg hack] at hrest
        cases hrest with
        | done => exact .inr ⟨Bool.eq_false_iff.mpr hack, rfl, rfl⟩

private theorem IsCourse.cons {visit : Visit} {pages : List Nat} {visits : List Visit}
    (hvisit : visit.IsSound blob offset data) (hgood : visit.error? blob = none)
    (h : IsCourse blob offset data pages visits result) :
    IsCourse blob offset data (visit.page :: pages) (visit :: visits) result where
  inOrder := (List.prefix_cons_inj _).mpr h.inOrder
  sound := List.forall_mem_cons.mpr ⟨hvisit, h.sound⟩
  ends := by
    rcases h.ends with ⟨hresult, hpages, hall⟩ | ⟨earlier, last, error, rfl, hresult, hlast, hall⟩
    · exact .inl ⟨hresult, congrArg _ hpages, List.forall_mem_cons.mpr ⟨hgood, hall⟩⟩
    · exact .inr ⟨visit :: earlier, last, error, rfl, hresult, hlast,
        List.forall_mem_cons.mpr ⟨hgood, hall⟩⟩

private theorem IsCourse.fail {visit : Visit} {error : BlobError} (pages : List Nat)
    (hvisit : visit.IsSound blob offset data) (hbad : visit.error? blob = some error) :
    IsCourse blob offset data (visit.page :: pages) [visit] (.error error) where
  inOrder := (List.prefix_cons_inj _).mpr List.nil_prefix
  sound := List.forall_mem_singleton.mpr hvisit
  ends := .inr ⟨[], visit, error, rfl, rfl, hbad, List.forall_mem_nil _⟩

section Tiles

variable {span : Span} {rest tiles : List Span}

private theorem Visit.IsSound.of_rest {visit : Visit}
    (h : Tiles blob.pageSize offset data.length (span :: rest))
    (hpage : visit.page ∈ rest.map Span.page)
    (hvisit : visit.IsSound blob (offset + span.count) (data.drop span.count)) :
    visit.IsSound blob offset data := by
  have hsame := h.covers_rest blob.pageSize_pos hpage
  have hlength : (data.drop span.count).length = data.length - span.count := List.length_drop
  cases hvisit with
  | covered page outcome hcovers =>
      rw [hlength, hsame] at hcovers
      rw [h.overlay_rest blob.pageSize_pos hpage]
      exact .covered page outcome hcovers
  | patched page state base outcome hcovers hfound =>
      rw [hlength, hsame] at hcovers
      rw [h.overlay_rest blob.pageSize_pos hpage]
      exact .patched page state base outcome hcovers hfound
  | unreadable page state hcovers hnothing =>
      rw [hlength, hsame] at hcovers
      exact .unreadable page state hcovers hnothing

private theorem IsCourse.of_rest {visits : List Visit}
    (h : Tiles blob.pageSize offset data.length (span :: rest))
    (hcourse : IsCourse blob (offset + span.count) (data.drop span.count) (rest.map Span.page)
      visits result) :
    IsCourse blob offset data (rest.map Span.page) visits result where
  inOrder := hcourse.inOrder
  sound visit hvisit :=
    (hcourse.sound visit hvisit).of_rest h
      (hcourse.inOrder.subset (List.mem_map_of_mem hvisit))
  ends := hcourse.ends

private theorem course_of_storeThen {bytes : Bytes} {pages : List Nat}
    {after : Accesses (Except BlobError Unit)} (loaded : Option Replication.State)
    (hsound : ∀ outcome, Visit.IsSound blob offset data ⟨page, loaded, some (bytes, outcome)⟩)
    (hafter : ∀ more, after.Yields more result → ∃ visits,
      more = visits.flatMap (Visit.events blob) ∧
        IsCourse blob offset data pages visits result)
    (h : (blob.storeThen page bytes after).Yields events result) :
    ∃ visits, Visit.events blob ⟨page, loaded, none⟩ ++ events =
        visits.flatMap (Visit.events blob) ∧
      IsCourse blob offset data (page :: pages) visits result := by
  have herror : ∀ outcome, Visit.error? blob ⟨page, loaded, some (bytes, outcome)⟩ =
      if outcome.isAcknowledged then none else some (.pageStore page outcome) := fun _ => rfl
  obtain ⟨outcome, more, rfl, ⟨hack, hmore⟩ | ⟨hnot, rfl, rfl⟩⟩ := yields_storeThen h
  · obtain ⟨visits, rfl, hcourse⟩ := hafter more hmore
    refine ⟨⟨page, loaded, some (bytes, outcome)⟩ :: visits, ?_, hcourse.cons (hsound outcome) ?_⟩
    · simp [Visit.events]
    · rw [herror, if_pos hack]
  · refine ⟨[⟨page, loaded, some (bytes, outcome)⟩], ?_, .fail pages (hsound outcome) ?_⟩
    · simp [Visit.events]
    · rw [herror, hnot]
      rfl

private theorem course_of_writeSpans (h : Tiles blob.pageSize offset data.length tiles)
    (hyields : (blob.writeSpans tiles data).run.Yields events result) :
    ∃ visits, events = visits.flatMap (Visit.events blob) ∧
      IsCourse blob offset data (tiles.map Span.page) visits result := by
  induction tiles generalizing offset data events with
  | nil =>
      cases hyields with
      | done =>
          exact ⟨[], rfl, List.prefix_rfl, List.forall_mem_nil _,
            .inl ⟨rfl, rfl, List.forall_mem_nil _⟩⟩
  | cons span rest ih =>
      obtain ⟨-, -, -, -, -, hrest⟩ := h.cons_inv
      have hafter (more : List (Event Access Access.Result))
          (hmore : (blob.writeSpans rest (data.drop span.count)).run.Yields more result) :
          ∃ visits, more = visits.flatMap (Visit.events blob) ∧
            IsCourse blob offset data (rest.map Span.page) visits result := by
        rw [← List.length_drop] at hrest
        obtain ⟨visits, hevents, hcourse⟩ := ih hrest hmore
        exact ⟨visits, hevents, hcourse.of_rest h⟩
      rw [run_writeSpans_cons] at hyields
      simp only at hyields
      split at hyields
      case isTrue hwhole =>
        have hbytes : span.write blob.blank data =
            overlay blob.pageSize offset data span.page [] := by
          rw [blank, h.write_eq_overlay List.length_replicate]
          exact overlay_append_zeros _ _ _ _ [] _
        rw [hbytes] at hyields
        exact course_of_storeThen none
          (fun outcome => .covered span.page outcome (h.isWhole_iff.mp hwhole)) hafter hyields
      case isFalse hpart =>
        have hcovers := mt h.isWhole_iff.mpr hpart
        cases hyields with
        | ask state hnext =>
            rcases readPage_cases blob span.page state with
              ⟨base, hfound, hread⟩ | ⟨hnothing, error, hread, herror⟩
            · have hbytes : span.write (base ++ List.replicate (blob.pageSize - base.length) 0) data =
                  overlay blob.pageSize offset data span.page base := by
                have hbase := hfound.length_le
                rw [h.write_eq_overlay (by rw [List.length_append, List.length_replicate]; omega),
                  overlay_append_zeros]
              simp only [hread, hbytes] at hnext
              exact course_of_storeThen (some state)
                (fun outcome => .patched span.page state base outcome hcovers hfound) hafter hnext
            · simp only [hread] at hnext
              cases hnext with
              | done =>
                  exact ⟨[⟨span.page, some state, none⟩], rfl,
                    .fail _ (.unreadable span.page state hcovers hnothing) herror⟩

end Tiles

/-- Whatever is answered, a write within the size goes through the pages of its range upward and changes
no byte outside of the range, and it ends at the first page that cannot be read or stored. -/
theorem writeAt_keeps_other_bytes (blob : Blob) (offset : UInt64) (data : Bytes)
    (hrange : offset.toNat + data.length ≤ blob.size.toNat)
    (reply : List (Event Access Access.Result) → (access : Access) → access.Result) :
    let (result, events) := (Program.run (recorded reply) (blob.writeAt offset data).run).run []
    ∃ pages visits,
      pages.Pairwise (· < ·) ∧
      (∀ page, page ∈ pages ↔ Touches blob.pageSize offset.toNat data.length page) ∧
      events = visits.flatMap (Visit.events blob) ∧
      IsCourse blob offset.toNat data pages visits result := by
  have htiles := tiles_spans blob.pageSize_pos offset data.length
    (Nat.lt_of_le_of_lt hrange blob.size.toNat_lt)
  obtain ⟨events, result, hran, hyields⟩ :=
    run_recorded reply (blob.writeAt offset data).run []
  rw [run_writeAt blob hrange] at hyields
  rw [hran]
  obtain ⟨visits, hevents, hcourse⟩ := course_of_writeSpans htiles hyields
  exact ⟨_, visits, htiles.sorted blob.pageSize_pos,
    fun _ => htiles.touches_iff blob.pageSize_pos, hevents, hcourse⟩

/-- Nobody holds the first page, and the third is too long. -/
def oversizedThird (events : List (Event Access Access.Result)) : (access : Access) → access.Result
  | .load .. => if events.isEmpty then .failure 2 2 else .success (.found [1, 2, 3, 4, 5])
  | .store .. => Outcome.partialSuccess

theorem writeAt_keeps_other_bytes_of_oversized :
    let blob : Blob := ⟨[98], 10, 4, .one, by decide⟩
    let (result, events) := (Program.run (recorded oversizedThird)
      (blob.writeAt 2 [1, 2, 3, 4, 5, 6, 7]).run).run []
    result = .error (.oversizedPage 2 5 4) ∧
    ∃ pages visits,
      pages.Pairwise (· < ·) ∧ (∀ page, page ∈ pages ↔ Touches 4 2 7 page) ∧
      events = visits.flatMap (Visit.events blob) ∧
      IsCourse blob 2 [1, 2, 3, 4, 5, 6, 7] pages visits result := by
  intro blob
  have hrange : (2 : UInt64).toNat + [1, 2, 3, 4, 5, 6, 7].length ≤ blob.size.toNat := by decide
  have hspans : spans 4 blob.pageSize_pos 2 7 = [⟨0, 2, 2⟩, ⟨1, 0, 4⟩, ⟨2, 0, 1⟩] := by
    simp [spans]
  refine ⟨?_, writeAt_keeps_other_bytes blob 2 [1, 2, 3, 4, 5, 6, 7] hrange oversizedThird⟩
  rw [run_writeAt blob hrange]
  change (Program.run (recorded oversizedThird) (blob.writeSpans (spans 4 _ 2 7) _).run []).1 = _
  rw [hspans]
  rfl

end ReplicaRing.Blob
