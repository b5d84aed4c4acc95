import Mathlib.Algebra.GroupWithZero.Nat
import ReplicaRing.Proofs.Blob.Calls
import ReplicaRing.Proofs.Blob.Steps
import ReplicaRing.Proofs.Client.Interleaving
import ReplicaRing.Proofs.Client.Transcripts

/-!
Which ranges a blob lets through.  Up to its last byte the check is exact, and what passes it stays on the
pages of the blob.  Only a range that begins within the largest of all sizes and goes beyond it passes
without lying within, since the check takes its end for that size.
-/

namespace ReplicaRing.Blob

open Program (Confined)

variable {blob : Blob} {Result Next : Type} {allowed : Access → Prop}

def Owns (blob : Blob) (access : Access) : Prop :=
  ∃ page, page < blob.pageCount ∧ access.key = blob.pageKey page

private theorem confined_bind {task : Task Result} {next : Result → Task Next}
    (h : task.run.Confined allowed) (hnext : ∀ result, (next result).run.Confined allowed) :
    (task >>= next).run.Confined allowed := by
  refine Confined.bind h fun result => ?_
  cases result with
  | error error => exact .done _
  | ok result => exact hnext result

private theorem confined_checkRange (offset : UInt64) (length : Nat) :
    (liftM (blob.checkRange offset length) : Task Unit).run.Confined allowed := by
  cases blob.checkRange offset length <;> exact .done _

def AllowsPage (blob : Blob) (allowed : Access → Prop) (page : Nat) : Prop :=
  ∀ access : Access, access.key = blob.pageKey page → allowed access

private theorem confined_loadPage {page : Nat} (hpage : blob.AllowsPage allowed page) :
    (blob.loadPage page).run.Confined allowed := by
  rw [run_loadPage]
  exact .ask (hpage _ rfl) fun _ => .done _

private theorem confined_storePage {page : Nat} (hpage : blob.AllowsPage allowed page)
    (data : Bytes) :
    (blob.storePage page data).run.Confined allowed := by
  refine .ask (hpage _ rfl) fun outcome : Outcome => ?_
  change Confined _ (if outcome.isAcknowledged = true then (pure () : Task Unit)
    else throw (.pageStore page outcome)).run
  split <;> exact .done _

private theorem confined_readSpans {spans : List Span}
    (hpages : ∀ span ∈ spans, blob.AllowsPage allowed span.page) :
    (blob.readSpans spans).run.Confined allowed := by
  induction spans with
  | nil => exact .done _
  | cons span rest ih =>
      obtain ⟨hpage, hrest⟩ := List.forall_mem_cons.mp hpages
      exact confined_bind (confined_loadPage hpage) fun _ =>
        confined_bind (ih hrest) fun _ => .done _

private theorem confined_writeSpans {spans : List Span}
    (hpages : ∀ span ∈ spans, blob.AllowsPage allowed span.page) (data : Bytes) :
    (blob.writeSpans spans data).run.Confined allowed := by
  induction spans generalizing data with
  | nil => exact .done _
  | cons span rest ih =>
      obtain ⟨hpage, hrest⟩ := List.forall_mem_cons.mp hpages
      rw [writeSpans_cons]
      refine confined_bind ?_ fun _ =>
        confined_bind (confined_storePage hpage _) fun _ => ih hrest _
      split
      case isTrue => exact .done _
      case isFalse => exact confined_loadPage hpage

/-- A call asks only for the pages that its range covers. -/
theorem Call.confined (call : Call)
    (hpages : ∀ span ∈ spans blob.pageSize blob.pageSize_pos call.offset call.length,
      blob.AllowsPage allowed span.page) : (call.task blob).run.Confined allowed := by
  have hbyte (offset : UInt64) (h : ∀ span ∈ spans blob.pageSize blob.pageSize_pos offset 1,
      blob.AllowsPage allowed span.page) : blob.AllowsPage allowed (blob.pageAt offset) := by
    rw [spans, dif_neg Nat.one_ne_zero] at h
    exact h _ List.mem_cons_self
  cases call with
  | readAt offset length =>
      refine confined_bind ?_ fun _ => .done _
      exact confined_bind (confined_checkRange offset length) fun _ => confined_readSpans hpages
  | writeAt offset data =>
      refine confined_bind ?_ fun _ => .done _
      exact confined_bind (confined_checkRange offset data.length) fun _ =>
        confined_writeSpans hpages data
  | readByteAt offset =>
      refine confined_bind ?_ fun _ => .done _
      exact confined_bind (confined_checkRange offset 1) fun _ =>
        confined_bind (confined_loadPage (hbyte offset hpages)) fun _ => .done _
  | writeByteAt offset byte =>
      refine confined_bind ?_ fun _ => .done _
      exact confined_bind (confined_checkRange offset 1) fun _ =>
        confined_bind (confined_loadPage (hbyte offset hpages)) fun _ =>
          confined_storePage (hbyte offset hpages) _

private theorem div_lt_pageCount {offset : Nat} (h : offset < blob.size.toNat) :
    offset / blob.pageSize < blob.pageCount := by
  have hpos := blob.pageSize_pos
  have hceil : blob.size.toNat + blob.pageSize - 1 < _ := Nat.lt_div_mul_add hpos
  rw [pageCount, Nat.div_lt_iff_lt_mul hpos]
  omega

namespace Tiles

variable {pageSize offset length : Nat} {tiles earlier later : List Span} {span : Span}

private theorem start_eq (h : Tiles pageSize offset length (earlier ++ span :: later)) :
    span.start pageSize = offset + (earlier.map Span.count).sum ∧
      span.start pageSize < offset + length := by
  induction earlier generalizing offset length with
  | nil =>
      obtain ⟨-, hstart, hpos, hle, -, -⟩ := h.cons_inv
      rw [hstart]
      exact ⟨rfl, by omega⟩
  | cons first rest ih =>
      obtain ⟨-, -, -, hle, -, hrest⟩ := h.cons_inv
      obtain ⟨hstart, hlt⟩ := ih hrest
      rw [List.map_cons, List.sum_cons]
      omega

private theorem page_lt_pageCount (h : Tiles blob.pageSize offset length tiles)
    (hrange : offset + length ≤ blob.size.toNat) : ∀ tile ∈ tiles, tile.page < blob.pageCount := by
  intro tile htile
  obtain ⟨index, hindex, hpage⟩ :=
    (h.touches_iff blob.pageSize_pos).mp (List.mem_map_of_mem htile)
  rw [← hpage]
  exact div_lt_pageCount (by omega)

end Tiles

namespace Call

/-- The bounds of a blob hold for a call: they are those of natural numbers, and where they are kept the
call stays on the pages of the blob. -/
structure IsBounded (blob : Blob) (call : Call) : Prop where
  passes : blob.checkRange call.offset call.length = .ok () ↔ call.IsWithin blob.size.toNat
  refused : ¬call.IsWithin blob.size.toNat →
    (call.task blob).run = .done (.error (call.outOfRange blob.size.toNat))
  /-- Each turn of the loop over the pages is at the offset that the turns before it have come to. -/
  turns : blob.checkRange call.offset call.length = .ok () → ∀ earlier span later,
    spans blob.pageSize blob.pageSize_pos call.offset call.length = earlier ++ span :: later →
      let position := call.offset.toNat + (earlier.map Span.count).sum
      position < 2 ^ 64 ∧ span.start blob.pageSize = position ∧ span.page < blob.pageCount
  accesses : (call.task blob).run.Confined blob.Owns

variable {call : Call}

private theorem IsWithin.tiles (h : call.IsWithin blob.size.toNat) :
    Tiles blob.pageSize call.offset.toNat call.length
      (spans blob.pageSize blob.pageSize_pos call.offset call.length) :=
  tiles_spans blob.pageSize_pos call.offset call.length (Nat.lt_of_le_of_lt h blob.size.toNat_lt)

theorem IsWithin.confined (h : call.IsWithin blob.size.toNat) :
    (call.task blob).run.Confined blob.Owns :=
  call.confined fun span hspan _ hkey => ⟨span.page, h.tiles.page_lt_pageCount h span hspan, hkey⟩

private theorem IsWithin.isBounded (h : call.IsWithin blob.size.toNat) : call.IsBounded blob where
  passes := ⟨fun _ => h, fun _ => checkRange_of_le blob h⟩
  refused hnot := absurd h hnot
  turns _ earlier span later hspans := by
    have htiles := h.tiles
    have hpages := htiles.page_lt_pageCount h
    rw [hspans] at htiles hpages
    obtain ⟨hstart, hlt⟩ := htiles.start_eq
    have hsize := blob.size.toNat_lt
    have hwithin : call.offset.toNat + call.length ≤ blob.size.toNat := h
    exact ⟨by omega, hstart, hpages span List.mem_append_cons_self⟩
  accesses := h.confined

private theorem isBounded_of_refused (h : ¬call.IsWithin blob.size.toNat)
    (hcheck : blob.checkRange call.offset call.length =
      .error (call.outOfRange blob.size.toNat)) : call.IsBounded blob where
  passes := by simp [hcheck, h]
  refused _ := run_task_of_refused hcheck
  turns hok := by rw [hcheck] at hok; cases hok
  accesses := by
    rw [run_task_of_refused hcheck]
    exact .done _

/-- Every call on every blob is bounded, if it does not begin within the largest of all sizes and go beyond
it. -/
theorem isBounded_iff (blob : Blob) (call : Call) :
    call.IsBounded blob ↔ ¬call.Escapes blob.size.toNat := by
  have hcheck := checkRange_eq blob call
  constructor
  · intro hbounded hescapes
    rw [if_pos (.inr hescapes)] at hcheck
    exact Nat.not_le.mpr hescapes.2.2 (hbounded.passes.mp hcheck)
  · intro hstays
    by_cases hwithin : call.IsWithin blob.size.toNat
    · exact hwithin.isBounded
    · rw [if_neg (by simp [hwithin, hstays])] at hcheck
      exact isBounded_of_refused hwithin hcheck

/-- Reading two bytes at the last but one of all offsets, where the last byte of the blob is, reads a page
that the blob does not have. -/
theorem readAt_escapes_largest_blob :
    let blob : Blob := ⟨[98], 0xFFFFFFFFFFFFFFFF, 1, .one, by decide⟩
    let call : Call := .readAt 0xFFFFFFFFFFFFFFFE 2
    ¬call.IsWithin blob.size.toNat ∧ blob.checkRange 0xFFFFFFFFFFFFFFFE 2 = .ok () ∧
      (call.task blob).run.Yields
        [⟨.load (blob.pageKey (blob.pageCount - 1)) .one, (.failure 1 1 : Replication.State)⟩,
          ⟨.load (blob.pageKey blob.pageCount) .one, (.failure 1 1 : Replication.State)⟩]
        (.ok (.bytes [0, 0])) := by
  intro blob call
  have hcheck : blob.checkRange 0xFFFFFFFFFFFFFFFE 2 = .ok () :=
    (checkRange_eq blob call).trans (if_pos (by decide))
  have hspans : spans 1 blob.pageSize_pos 0xFFFFFFFFFFFFFFFE 2 =
      [⟨blob.pageCount - 1, 0, 1⟩, ⟨blob.pageCount, 0, 1⟩] := by
    simp [spans, blob, pageCount]
  have hread : (call.task blob).run =
      ((blob.readSpans [⟨blob.pageCount - 1, 0, 1⟩, ⟨blob.pageCount, 0, 1⟩]) >>= fun bytes =>
        (pure (.bytes bytes) : Task Reply)).run := by
    rw [← hspans]
    change ((blob.readAt _ _) >>= _).run = _
    rw [Blob.readAt, hcheck]
    rfl
  refine ⟨by decide, hcheck, ?_⟩
  rw [hread]
  exact .ask _ (.ask _ (.done _))

end Call

end ReplicaRing.Blob
