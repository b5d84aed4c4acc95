import ReplicaRing.Proofs.Blob.Bounds

/-!
Blobs with different keys have no page in common, and no page of a blob is the record of its own size.  So
no call on a blob comes near that record or near the pages of another blob.  The record of another blob can
be a page, since any key may end in a dot and digits.
-/

namespace ReplicaRing.Blob

variable {blob : Blob} {page : Nat} {offset : UInt64}

def OnPage (blob : Blob) (page : Nat) (offset : UInt64) : Prop :=
  page * blob.pageSize ≤ offset.toNat ∧ offset.toNat < (page + 1) * blob.pageSize

private theorem onPage_iff : blob.OnPage page offset ↔ blob.pageAt offset = page := by
  have hpos := blob.pageSize_pos
  rw [OnPage, pageAt, ← Nat.le_div_iff_mul_le hpos, ← Nat.div_lt_iff_lt_mul hpos]
  omega

/-- The access is to none of the other blob's pages, unless the blobs have the same key, and not to the
record of the size. -/
def Spares (blob other : Blob) (access : Access) : Prop :=
  access.key ≠ blob.key ∧ (blob.key ≠ other.key → ∀ number, access.key ≠ other.pageKey number)

private theorem allowsPage_spares (blob other : Blob) (page : Nat) :
    blob.AllowsPage (blob.Spares other) page := by
  intro access hkey
  rw [Spares, hkey]
  exact ⟨blob.pageKey_ne_key page, fun hkeys number hshared => hkeys (pageKey_inj.mp hshared).1⟩

/-- The keys of pages tell both the blob and the page.  No page is under the key of the blob, two offsets
have the same key if one page covers both, and whatever a call on a blob is answered, it asks neither for
the record of the size nor for a page of a blob with another key. -/
theorem pageKeys_distinct (blob other : Blob) (page number : Nat) (offset position : UInt64)
    (call : Call) :
    (blob.pageKey page = other.pageKey number ↔ blob.key = other.key ∧ page = number) ∧
    blob.pageKey page ≠ blob.key ∧
    (blob.pageKey (blob.pageAt offset) = blob.pageKey (blob.pageAt position) ↔
      ∃ shared, blob.OnPage shared offset ∧ blob.OnPage shared position) ∧
    (call.task blob).run.Confined (blob.Spares other) := by
  refine ⟨pageKey_inj, blob.pageKey_ne_key page, ?_, ?_⟩
  · constructor
    · intro hkey
      have hpage := blob.pageKey_injective hkey
      exact ⟨blob.pageAt position, onPage_iff.mpr hpage, onPage_iff.mpr rfl⟩
    · rintro ⟨shared, hoffset, hposition⟩
      rw [onPage_iff.mp hoffset, onPage_iff.mp hposition]
  · exact call.confined fun span _ => allowsPage_spares blob other span.page

/-- The key of a page that is also that of a blob named so. -/
example : (⟨Bytes.ofText "disk", 2000, 512, .one, by decide⟩ : Blob).pageKey 3 =
    Bytes.ofText "disk.00000003" := by
  cbv

end ReplicaRing.Blob
