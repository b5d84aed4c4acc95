import ReplicaRing.Proofs.Blob.PageKey
import ReplicaRing.Proofs.Blob.Steps
import ReplicaRing.Proofs.Client.Interleaving

/-! Writes that have no page in common, side by side on one service. -/

namespace ReplicaRing

private theorem Replication.State.not_isAllNacked_of_value? {state : State} {bytes : Bytes}
    (h : state.value? = some bytes) : ¬state.isAllNacked = true := by
  intro hnacked
  cases state with
  | failure => cases h
  | _ => cases hnacked

namespace Blob

variable {blob : Blob} {page : Nat} {held : Holdings}

/-- What is held for the page is not longer than a page. -/
def HasRoom (blob : Blob) (held : Holdings) (page : Nat) : Prop :=
  ∀ bytes, held (blob.pageKey page) = some bytes → bytes.length ≤ blob.pageSize

def pageIn (blob : Blob) (held : Holdings) (page : Nat) : Bytes :=
  let bytes := (held (blob.pageKey page)).getD []
  bytes ++ List.replicate (blob.pageSize - bytes.length) 0

private theorem readPage_of_admits {level : Level} {state : Replication.State}
    (hroom : blob.HasRoom held page)
    (h : Access.Admits held (.load (blob.pageKey page) level) state) :
    blob.readPage page state = .ok (blob.pageIn held page) := by
  cases h with
  | @found _ bytes _ _ hheld hvalue =>
      have hlength : ¬blob.pageSize < bytes.length := Nat.not_lt.mpr (hroom bytes hheld)
      rw [readPage, if_neg (Replication.State.not_isAllNacked_of_value? hvalue), hvalue, pageIn, hheld]
      exact if_neg hlength
  | missing hheld hnacked =>
      rw [readPage, if_pos hnacked, pageIn, hheld]
      rfl

private theorem follows_storeThen {bytes : Bytes} {rest : Accesses (Except BlobError Unit)}
    {accesses : List Access} {result : Except BlobError Unit}
    (h : Follows ((Access.store (blob.pageKey page) bytes blob.level).apply held) accesses rest
      result) :
    Follows held (.store (blob.pageKey page) bytes blob.level :: accesses)
      (blob.storeThen page bytes rest) result := by
  refine .ask fun answer hadmits => ?_
  cases hadmits with
  | stored hack =>
      simp only [hack]
      exact h

/-- On a service that keeps what is stored, what a write asks for depends on its own pages only. -/
theorem follows_writeSpans {spans : List Span} (data : Bytes)
    (hsorted : (spans.map Span.page).Pairwise (· < ·))
    (hroom : ∀ page ∈ spans.map Span.page, blob.HasRoom held page) :
    ∃ accesses, Follows held accesses (blob.writeSpans spans data).run (.ok ()) ∧
      ∀ access ∈ accesses, ∃ page ∈ spans.map Span.page, access.key = blob.pageKey page := by
  induction spans generalizing held data with
  | nil => exact ⟨[], .done held _, List.forall_mem_nil _⟩
  | cons span rest ih =>
      rw [List.map_cons, List.pairwise_cons] at hsorted
      rw [List.map_cons, List.forall_mem_cons] at hroom
      -- The pages of the other spans come later, so storing this one leaves them as they are.
      have hstored (bytes : Bytes) : ∀ page ∈ rest.map Span.page,
          blob.HasRoom ((Access.store (blob.pageKey span.page) bytes blob.level).apply held)
            page := by
        intro page hpage
        have hkey : blob.pageKey page ≠ blob.pageKey span.page :=
          fun heq => Nat.ne_of_gt (hsorted.1 page hpage) (blob.pageKey_injective heq)
        intro found hfound
        have hsame := Access.apply_of_ne held
          (.store (blob.pageKey span.page) bytes blob.level) hkey
        exact hroom.2 page hpage found (hsame.symm.trans hfound)
      have hgoOn (bytes : Bytes) : ∃ accesses,
          Follows held accesses (blob.storeThen span.page bytes
            (blob.writeSpans rest (data.drop span.count)).run) (.ok ()) ∧
          ∀ access ∈ accesses, ∃ page ∈ (span :: rest).map Span.page,
            access.key = blob.pageKey page := by
        obtain ⟨accesses, hfollows, hkeys⟩ :=
          ih (data.drop span.count) hsorted.2 (hstored bytes)
        refine ⟨_, follows_storeThen hfollows, List.forall_mem_cons.mpr ⟨?_, ?_⟩⟩
        · exact ⟨span.page, List.mem_cons_self, rfl⟩
        · intro access haccess
          obtain ⟨page, hpage, hkey⟩ := hkeys access haccess
          exact ⟨page, List.mem_cons_of_mem _ hpage, hkey⟩
      rw [run_writeSpans_cons]
      simp only
      split
      case isTrue => exact hgoOn _
      case isFalse =>
        obtain ⟨accesses, hfollows, hkeys⟩ :=
          hgoOn (span.write (blob.pageIn held span.page) data)
        refine ⟨.load (blob.pageKey span.page) blob.level :: accesses, ?_,
          List.forall_mem_cons.mpr ⟨⟨span.page, List.mem_cons_self, rfl⟩, hkeys⟩⟩
        refine .ask fun state hadmits => ?_
        simp only [readPage_of_admits hroom.1 hadmits]
        exact hfollows

structure Writing where
  blob : Blob
  offset : UInt64
  data : Bytes

namespace Writing

def program (writing : Writing) : Accesses (Except BlobError Unit) :=
  (writing.blob.writeAt writing.offset writing.data).run

def TouchesPage (writing : Writing) (page : Nat) : Prop :=
  Touches writing.blob.pageSize writing.offset.toNat writing.data.length page

def TouchesKey (writing : Writing) (key : Bytes) : Prop :=
  ∃ page, writing.TouchesPage page ∧ key = writing.blob.pageKey page

/-- The range is within the size, and no page of it is longer than the handle takes it to be. -/
structure IsReady (writing : Writing) (held : Holdings) : Prop where
  within : writing.offset.toNat + writing.data.length ≤ writing.blob.size.toNat
  room : ∀ page, writing.TouchesPage page → writing.blob.HasRoom held page

private theorem IsReady.follows {writing : Writing} (h : writing.IsReady held) :
    ∃ accesses, Follows held accesses writing.program (.ok ()) ∧
      ∀ access ∈ accesses, writing.TouchesKey access.key := by
  have htiles := tiles_spans writing.blob.pageSize_pos writing.offset writing.data.length
    (Nat.lt_of_le_of_lt h.within writing.blob.size.toNat_lt)
  obtain ⟨accesses, hfollows, hkeys⟩ := follows_writeSpans writing.data
    (htiles.sorted writing.blob.pageSize_pos)
    fun page hpage => h.room page ((htiles.touches_iff writing.blob.pageSize_pos).mp hpage)
  refine ⟨accesses, ?_, fun access haccess => ?_⟩
  · rw [program, run_writeAt _ h.within]
    exact hfollows
  · obtain ⟨page, hpage, hkey⟩ := hkeys access haccess
    exact ⟨page, (htiles.touches_iff writing.blob.pageSize_pos).mp hpage, hkey⟩

end Writing

/-- Two writes with no page in common succeed however their accesses are mixed, and leave what they leave
one after the other, in either order. -/
theorem writes_of_disjoint_pages (one other : Writing) (held : Holdings) (hone : one.IsReady held)
    (hother : other.IsReady held) (hdisjoint : ∀ key, one.TouchesKey key → ¬other.TouchesKey key) :
    ∃ after total,
      (∀ results last, InTurn one.program other.program held results last ↔
        results = (.ok (), .ok ()) ∧ last = after) ∧
      (∀ results last, InTurn other.program one.program held results last ↔
        results = (.ok (), .ok ()) ∧ last = after) ∧
      (∀ key, ¬one.TouchesKey key → ¬other.TouchesKey key → after key = held key) ∧
      ∀ count reached, Duet.Runs count ⟨one.program, other.program, held⟩ reached →
        count ≤ total ∧ (count < total → ∃ next, Duet.Step reached next) ∧
        (count = total → reached = ⟨.done (.ok ()), .done (.ok ()), after⟩) := by
  obtain ⟨firsts, hfirst, hfirstKeys⟩ := hone.follows
  obtain ⟨seconds, hsecond, hsecondKeys⟩ := hother.follows
  have hapart : Access.Apart firsts seconds := by
    intro first hfirstMem second hsecondMem hkey
    exact hdisjoint first.key (hfirstKeys first hfirstMem)
      (hkey ▸ hsecondKeys second hsecondMem)
  refine ⟨Access.applyAll held (firsts ++ seconds), firsts.length + seconds.length, ?_, ?_, ?_, ?_⟩
  · intro results last
    exact inTurn_iff hfirst hsecond hapart
  · intro results last
    rw [Access.applyAll_comm held hapart]
    exact inTurn_iff hsecond hfirst hapart.symm
  · intro key hnotOne hnotOther
    apply Access.applyAll_of_forall_ne
    intro access haccess heq
    subst heq
    rcases List.mem_append.mp haccess with hmem | hmem
    · exact hnotOne (hfirstKeys access hmem)
    · exact hnotOther (hsecondKeys access hmem)
  · intro count reached hrun
    have hheads : Duet.Heads (.ok (), .ok ()) (Access.applyAll held (firsts ++ seconds))
        (firsts.length + seconds.length) ⟨one.program, other.program, held⟩ :=
      .intro hfirst hsecond hapart rfl
    obtain ⟨left, hleft, hreached⟩ := hheads.runs hrun
    refine ⟨by omega, fun hless => hreached.exists_step (by omega), fun hcount => ?_⟩
    obtain rfl : left = 0 := by omega
    exact hreached.eq_of_zero

theorem writes_of_disjoint_pages_through_two_handles :
    let one : Writing := ⟨⟨[98], 10, 4, .one, by decide⟩, 2, [1, 2, 3]⟩
    let other : Writing := ⟨⟨[98], 10, 4, .all, by decide⟩, 9, [4]⟩
    let held : Holdings := fun key => if key = one.blob.pageKey 2 then some [5] else none
    one.IsReady held ∧ other.IsReady held ∧
      (∀ key, one.TouchesKey key → ¬other.TouchesKey key) ∧
      ∃ after total, ∀ count reached,
        Duet.Runs count ⟨one.program, other.program, held⟩ reached →
          count ≤ total ∧ (count < total → ∃ next, Duet.Step reached next) ∧
          (count = total → reached = ⟨.done (.ok ()), .done (.ok ()), after⟩) := by
  intro one other held
  have hroom : ∀ (blob : Blob) page, blob.pageSize = 4 → blob.HasRoom held page := by
    intro blob page hsize bytes hheld
    simp only [held] at hheld
    split at hheld
    case isTrue =>
      cases hheld
      rw [hsize]
      decide
    case isFalse => cases hheld
  have hone : one.IsReady held := ⟨by decide, fun page _ => hroom _ page rfl⟩
  have hother : other.IsReady held := ⟨by decide, fun page _ => hroom _ page rfl⟩
  have hdisjoint : ∀ key, one.TouchesKey key → ¬other.TouchesKey key := by
    rintro key ⟨page, ⟨index, hindex, hpage⟩, rfl⟩
      ⟨otherPage, ⟨otherIndex, hotherIndex, hotherPage⟩, hkey⟩
    have hsame : page = otherPage := one.blob.pageKey_injective hkey
    have hfirst : index < 3 := hindex
    have hsecond : otherIndex < 1 := hotherIndex
    have hlow : (2 + index) / 4 = page := hpage
    have hhigh : (9 + otherIndex) / 4 = otherPage := hotherPage
    omega
  obtain ⟨after, total, -, -, -, hruns⟩ := writes_of_disjoint_pages one other held hone hother hdisjoint
  exact ⟨hone, hother, hdisjoint, after, total, hruns⟩

end Blob

end ReplicaRing
