import ReplicaRing.Proofs.Blob.Flat
import ReplicaRing.Proofs.Blob.PageKey
import ReplicaRing.Proofs.Blob.Service

/-! The pages of a blob on a service, as the pages of a flat array. -/

namespace ReplicaRing.Blob

variable {service : Service} {blob : Blob} {flat : Bytes} {state after : service.State}

/-- The service holds the array under the blob's keys; a page of zeros may be missing. -/
structure Represents (service : Service) (blob : Blob) (flat : Bytes) (state : service.State) :
    Prop where
  size : flat.length = blob.size.toNat
  root : service.held state blob.key = some (Root.encode ⟨blob.size⟩)
  page : ∀ page, service.held state (blob.pageKey page) =
      some (pageOf flat blob.pageSize page) ∨
    service.held state (blob.pageKey page) = none ∧
      pageOf flat blob.pageSize page = blob.blank

namespace Represents

theorem congr (h : Represents service blob flat state)
    (hheld : ∀ key, service.held after key = service.held state key) :
    Represents service blob flat after where
  size := h.size
  root := (hheld _).trans h.root
  page page := by
    rw [hheld]
    exact h.page page

theorem relevel (h : Represents service blob flat state) {other : Blob}
    (hkey : other.key = blob.key) (hsize : other.size = blob.size)
    (hpageSize : other.pageSize = blob.pageSize) : Represents service other flat state := by
  obtain ⟨key, size, pageSize, level, hpos⟩ := blob
  obtain ⟨otherKey, otherSize, otherPageSize, otherLevel, hotherPos⟩ := other
  cases hkey
  cases hsize
  cases hpageSize
  exact ⟨h.size, h.root, h.page⟩

theorem store (h : Represents service blob flat state) {page : Nat} {changed : Bytes}
    (hsize : changed.length = flat.length)
    (hothers : ∀ other, other ≠ page →
      pageOf changed blob.pageSize other = pageOf flat blob.pageSize other)
    (hheld : ∀ key, service.held after key =
      if key = blob.pageKey page then some (pageOf changed blob.pageSize page)
      else service.held state key) :
    Represents service blob changed after where
  size := hsize.trans h.size
  root := by
    rw [hheld, if_neg (blob.pageKey_ne_key page).symm]
    exact h.root
  page other := by
    rw [hheld]
    by_cases hother : other = page
    · subst hother
      rw [if_pos rfl]
      exact .inl rfl
    · rw [if_neg fun hkey => hother (blob.pageKey_injective hkey), hothers other hother]
      exact h.page other

end Represents

theorem perform_loadPage (h : Represents service blob flat state) (page : Nat) :
    ∃ after, service.perform (blob.loadPage page) state =
        (.ok (pageOf flat blob.pageSize page), after) ∧
      ∀ key, service.held after key = service.held state key := by
  refine ⟨(service.load (blob.pageKey page) blob.level state).2, ?_,
    service.held_load _ blob.level state⟩
  rw [loadPage, service.perform_bind_of_ok (service.perform_loadKey _ _ _)]
  rcases h.page page with hfound | ⟨hmissing, hblank⟩
  · rw [service.load_found _ blob.level state _ hfound,
      if_neg (by simp [Replication.State.isAllNacked])]
    simp only [Replication.State.value?, Replication.State.receipt?, Option.bind_some,
      Receipt.value?, length_pageOf, Nat.lt_irrefl, if_false, Nat.sub_self, List.replicate_zero,
      List.append_nil]
    rfl
  · obtain ⟨targets, hfailure⟩ := service.load_missing _ blob.level state hmissing
    rw [hfailure, hblank, if_pos (by simp [Replication.State.isAllNacked])]
    rfl

theorem perform_storePage (blob : Blob) (page : Nat) (state : service.State) {data : Bytes}
    (hdata : data.length ≤ service.maxValueSize) :
    ∃ after, service.perform (blob.storePage page data) state = (.ok (), after) ∧
      ∀ key, service.held after key =
        if key = blob.pageKey page then some data else service.held state key := by
  refine ⟨(service.store (blob.pageKey page) data blob.level state).2, ?_,
    fun key => service.held_store _ data blob.level state key hdata⟩
  rw [storePage, service.perform_bind_of_ok (service.perform_storeKey _ _ _ _),
    if_pos (service.store_acknowledged _ data blob.level state hdata)]
  rfl

end ReplicaRing.Blob
