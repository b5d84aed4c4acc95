import ReplicaRing.Proofs.Blob.Calls
import ReplicaRing.Proofs.Codec.Record

/-! A blob, opened again and again, behaves as one flat array of bytes that are zero at first. -/

namespace ReplicaRing.Blob

inductive Use
  | reopen (level : Level)
  | call (handle : Nat) (call : Call)

inductive Answer
  | opened (size : UInt64)
  | refused (error : BlobError)
  | replied (reply : Except BlobError Reply)
  | noHandle

/-- The handles of one blob that were obtained so far, and the service that holds it. -/
structure Desk (service : Service) where
  handles : List Blob
  state : service.State

namespace Desk

variable {service : Service}

def use (key : Bytes) (pageSize : Nat) (desk : Desk service) : Use → Answer × Desk service
  | .reopen level =>
      match service.perform (Blob.reopen key pageSize level) desk.state with
      | (.ok blob, state) => (.opened blob.size, ⟨desk.handles ++ [blob], state⟩)
      | (.error error, state) => (.refused error, { desk with state })
  | .call handle call =>
      match desk.handles[handle]? with
      | none => (.noHandle, desk)
      | some blob =>
          let (reply, state) := service.perform (call.task blob) desk.state
          (.replied reply, { desk with state })

def useAll (key : Bytes) (pageSize : Nat) (desk : Desk service) :
    List Use → List Answer × Desk service
  | [] => ([], desk)
  | first :: rest =>
      let (answer, desk) := desk.use key pageSize first
      let (answers, desk) := desk.useAll key pageSize rest
      (answer :: answers, desk)

end Desk

structure FlatDesk where
  handles : Nat
  flat : Bytes

namespace FlatDesk

def use (size : UInt64) (desk : FlatDesk) : Use → Answer × FlatDesk
  | .reopen _ => (.opened size, { desk with handles := desk.handles + 1 })
  | .call handle call =>
      if handle < desk.handles then
        let (reply, flat) := call.answerOn size.toNat desk.flat
        (.replied reply, { desk with flat })
      else (.noHandle, desk)

def useAll (size : UInt64) (desk : FlatDesk) : List Use → List Answer × FlatDesk
  | [] => ([], desk)
  | first :: rest =>
      let (answer, desk) := desk.use size first
      let (answers, desk) := desk.useAll size rest
      (answer :: answers, desk)

end FlatDesk

section Refinement

variable {service : Service} {key : Bytes} {size : UInt64} {pageSize : Nat}

/-- Every handle is one of the blob, and the service holds the array. -/
structure Refines (service : Service) (key : Bytes) (size : UInt64) (pageSize : Nat)
    (desk : Desk service) (flat : FlatDesk) : Prop where
  handles : desk.handles.length = flat.handles
  represents : ∀ blob ∈ desk.handles, blob.key = key ∧ blob.size = size ∧
    blob.pageSize = pageSize ∧ Represents service blob flat.flat desk.state

private theorem perform_create (state : service.State) (level : Level) (hpos : 0 < pageSize)
    (hroot : (Root.encode ⟨size⟩).length ≤ service.maxValueSize)
    (hfresh : ∀ page, service.held state ((⟨key, size, pageSize, level, hpos⟩ : Blob).pageKey page) =
      none) :
    ∃ after, service.perform (create key size pageSize level) state =
        (.ok ⟨key, size, pageSize, level, hpos⟩, after) ∧
      Represents service ⟨key, size, pageSize, level, hpos⟩ (List.replicate size.toNat 0) after := by
  let blob : Blob := ⟨key, size, pageSize, level, hpos⟩
  let value := Root.encode ⟨size⟩
  have hput := fun other => service.held_store key value level state other hroot
  refine ⟨(service.store key value level state).2, ?_, ?_⟩
  · rw [create, dif_pos hpos, service.perform_bind_of_ok (service.perform_storeKey _ _ _ _),
      if_pos (service.store_acknowledged key value level state hroot)]
    rfl
  · exact {
      size := List.length_replicate
      root := (hput key).trans (if_pos rfl)
      page := fun page => .inr ⟨by
        rw [hput, if_neg (blob.pageKey_ne_key page)]
        exact hfresh page, pageOf_zeros _ _⟩ }

private theorem perform_reopen {blob : Blob} {flat : Bytes} {state : service.State}
    (h : Represents service blob flat state) (level : Level) :
    ∃ after, service.perform (reopen blob.key blob.pageSize level) state =
        (.ok { blob with level }, after) ∧
      Represents service blob flat after := by
  refine ⟨(service.load blob.key level state).2, ?_,
    h.congr fun key => service.held_load blob.key level state key⟩
  have hdecode : Root.decode? (Root.encode ⟨blob.size⟩) = some ⟨blob.size⟩ := by
    simpa using Root.decode?_encode ⟨blob.size⟩ []
  rw [reopen, dif_pos blob.pageSize_pos,
    service.perform_bind_of_ok (service.perform_loadKey _ _ _),
    service.load_found _ level state _ h.root]
  simp only [Replication.State.value?, Replication.State.receipt?, Option.bind_some,
    Receipt.value?, hdecode]
  rfl

private theorem Refines.use {desk : Desk service} {flat : FlatDesk}
    (h : Refines service key size pageSize desk flat) (hsome : 0 < flat.handles)
    (hpage : pageSize ≤ service.maxValueSize) (hsize : size.toNat < UInt64.size - 1) (use : Use) :
    (desk.use key pageSize use).1 = (flat.use size use).1 ∧
      Refines service key size pageSize (desk.use key pageSize use).2 (flat.use size use).2 ∧
      flat.handles ≤ (flat.use size use).2.handles := by
  cases use with
  | reopen level =>
      have hfirst : 0 < desk.handles.length := h.handles.symm ▸ hsome
      obtain ⟨hkey, hblobSize, hpageSize, hrep⟩ :=
        h.represents desk.handles[0] (List.getElem_mem hfirst)
      generalize desk.handles[0] = blob at *
      subst hkey hblobSize hpageSize
      obtain ⟨after, hperform, hafter⟩ := perform_reopen hrep level
      have huse : desk.use blob.key blob.pageSize (.reopen level) =
          (.opened blob.size, ⟨desk.handles ++ [{ blob with level }], after⟩) := by
        rw [Desk.use, hperform]
      rw [huse]
      refine ⟨rfl, ⟨?_, ?_⟩, Nat.le_succ _⟩
      · rw [FlatDesk.use, List.length_append, h.handles]
        rfl
      · intro other hother
        rcases List.mem_append.mp hother with hold | hnew
        · obtain ⟨hotherKey, hotherSize, hotherPageSize, -⟩ := h.represents other hold
          exact ⟨hotherKey, hotherSize, hotherPageSize,
            hafter.relevel hotherKey hotherSize hotherPageSize⟩
        · rw [List.mem_singleton] at hnew
          subst hnew
          exact ⟨rfl, rfl, rfl, hafter.relevel rfl rfl rfl⟩
  | call handle call =>
      by_cases hhandle : handle < flat.handles
      · have hlt : handle < desk.handles.length := h.handles.symm ▸ hhandle
        obtain ⟨hkey, hblobSize, hpageSize, hrep⟩ :=
          h.represents desk.handles[handle] (List.getElem_mem hlt)
        obtain ⟨after, hperform, hafter, -⟩ :=
          perform_call hrep (hpageSize ▸ hpage) (hblobSize ▸ hsize) call
        have huse : desk.use key pageSize (.call handle call) =
            (.replied (call.answerOn size.toNat flat.flat).1, { desk with state := after }) := by
          rw [Desk.use, List.getElem?_eq_getElem hlt]
          simp only [hperform, hblobSize]
        rw [huse, FlatDesk.use, if_pos hhandle]
        refine ⟨rfl, ⟨h.handles, ?_⟩, Nat.le_refl _⟩
        intro other hother
        obtain ⟨hotherKey, hotherSize, hotherPageSize, -⟩ := h.represents other hother
        rw [hblobSize] at hafter
        exact ⟨hotherKey, hotherSize, hotherPageSize, hafter.relevel (hotherKey.trans hkey.symm)
          (hotherSize.trans hblobSize.symm) (hotherPageSize.trans hpageSize.symm)⟩
      · have hout : desk.handles[handle]? = none :=
          List.getElem?_eq_none (h.handles ▸ Nat.le_of_not_lt hhandle)
        have huse : desk.use key pageSize (.call handle call) = (.noHandle, desk) := by
          rw [Desk.use, hout]
        rw [huse, FlatDesk.use, if_neg hhandle]
        exact ⟨rfl, h, Nat.le_refl _⟩

private theorem Refines.useAll {desk : Desk service} {flat : FlatDesk}
    (h : Refines service key size pageSize desk flat) (hsome : 0 < flat.handles)
    (hpage : pageSize ≤ service.maxValueSize) (hsize : size.toNat < UInt64.size - 1)
    (uses : List Use) :
    (desk.useAll key pageSize uses).1 = (flat.useAll size uses).1 ∧
      Refines service key size pageSize (desk.useAll key pageSize uses).2
        (flat.useAll size uses).2 := by
  induction uses generalizing desk flat with
  | nil => exact ⟨rfl, h⟩
  | cons first rest ih =>
      obtain ⟨hanswer, hnext, hmore⟩ := h.use hsome hpage hsize first
      obtain ⟨hanswers, hlast⟩ := ih hnext (Nat.lt_of_lt_of_le hsome hmore)
      rw [Desk.useAll, FlatDesk.useAll]
      exact ⟨congrArg₂ List.cons hanswer hanswers, hlast⟩

/-- Whatever is done with a new blob, every answer is that of a flat array, and a call beyond the size
leaves the service alone. -/
theorem refines_flat_array (service : Service) (key : Bytes) (size : UInt64) (pageSize : Nat)
    (level : Level) (start : service.State) (hpos : 0 < pageSize)
    (hpage : pageSize ≤ service.maxValueSize) (hsize : size.toNat < UInt64.size - 1)
    (hroot : (Root.encode ⟨size⟩).length ≤ service.maxValueSize)
    (hfresh : ∀ page, service.held start ((⟨key, size, pageSize, level, hpos⟩ : Blob).pageKey page) =
      none) :
    ∃ blob state, service.perform (create key size pageSize level) start = (.ok blob, state) ∧
      blob.size = size ∧
      ∀ uses,
        let done := Desk.useAll key pageSize ⟨[blob], state⟩ uses
        done.1 = (FlatDesk.useAll size ⟨1, List.replicate size.toNat 0⟩ uses).1 ∧
        ∀ handle ∈ done.2.handles, ∀ call : Call, ¬call.IsWithin size.toNat →
          service.perform (call.task handle) done.2.state =
            (.error (call.outOfRange size.toNat), done.2.state) := by
  obtain ⟨state, hcreate, hrep⟩ := perform_create start level hpos hroot hfresh
  refine ⟨_, state, hcreate, rfl, fun uses => ?_⟩
  have hrefines : Refines service key size pageSize
      ⟨[⟨key, size, pageSize, level, hpos⟩], state⟩ ⟨1, List.replicate size.toNat 0⟩ := by
    refine ⟨rfl, fun blob hblob => ?_⟩
    rw [List.mem_singleton] at hblob
    subst hblob
    exact ⟨rfl, rfl, rfl, hrep⟩
  obtain ⟨hanswers, hlast⟩ := hrefines.useAll Nat.one_pos hpage hsize uses
  refine ⟨hanswers, fun handle hhandle call hout => ?_⟩
  obtain ⟨-, hhandleSize, hhandlePageSize, hhandleRep⟩ := hlast.represents handle hhandle
  obtain ⟨after, hperform, -, hsame⟩ :=
    perform_call hhandleRep (hhandlePageSize ▸ hpage) (hhandleSize ▸ hsize) call
  rw [hhandleSize] at hperform hsame
  rw [hperform, hsame hout, Call.answerOn, if_neg hout]

end Refinement

/-- A service whose replicas all have the same memory. -/
def inMemory (maxValueSize : Nat) : Service where
  State := MemoryStore
  maxValueSize
  load key _ store :=
    (match store.find? key with
      | some value => .success (.found value)
      | none => .failure 1 1, store)
  store key value _ store := (.success, store.insert key value)
  held := Table.find?
  store_acknowledged _ _ _ _ _ := rfl
  held_store key value _ store other _ := Table.find?_insert store key other value
  load_found _ _ _ _ h := by rw [h]
  load_missing _ _ _ h := ⟨1, by rw [h]⟩
  held_load _ _ _ _ := rfl

theorem refines_flat_array_across_pages :
    ∃ blob state, (inMemory 64).perform (create [98] 10 4 .one) Table.empty = (.ok blob, state) ∧
      ((⟨[blob], state⟩ : Desk (inMemory 64)).useAll [98] 4
        [.call 0 (.writeAt 2 [1, 2, 3, 4, 5, 6, 7]), .reopen .quorum, .call 1 (.readAt 0 10),
          .call 1 (.writeByteAt 10 8), .call 0 (.readByteAt 8)]).1 =
        [.replied (.ok .written), .opened 10,
          .replied (.ok (.bytes [0, 0, 1, 2, 3, 4, 5, 6, 7, 0])),
          .replied (.error (.outOfRange 10 11 10)), .replied (.ok (.byte 7))] := by
  obtain ⟨blob, state, hcreate, -, huses⟩ :=
    refines_flat_array (inMemory 64) [98] 10 4 .one Table.empty (by decide) (by decide)
      (by decide) (by decide) fun _ => rfl
  exact ⟨blob, state, hcreate, (huses _).1.trans rfl⟩

end ReplicaRing.Blob
