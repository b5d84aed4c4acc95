import Mathlib.Data.List.Basic
import ReplicaRing.Proofs.Replication.Verdict

/-! The tally of a replication records the standing of every target. -/

namespace ReplicaRing.Replication

/-- How targets stand after one more input: what settled a target stays. -/
def standingAfter (request : Request) (standing : String → Standing) (input : Input) :
    String → Standing :=
  fun name => (standing name).or (input.verdict? request name)

namespace Tally

/-- Every target is pending or counted exactly once, and there is a receipt exactly when there is an
acknowledgement. -/
structure Records (tally : Tally) (names : List String) (standing : String → Standing) : Prop where
  targets : tally.targets = names.length
  pending : tally.pending = names.filter fun name => standing name = none
  acks : tally.acks = names.countP fun name => (standing name).isAck
  nacks : tally.nacks = names.countP fun name => (standing name).isNack
  strays : tally.strays = names.countP fun name => (standing name).isStray
  failed : tally.failed = names.countP fun name => (standing name).isUnsent
  received : ∀ receipt, tally.receipt = some receipt →
    ∃ name ∈ names, standing name = some (.reply (some (.ack receipt)))
  unreceived : tally.receipt = none → tally.acks = 0

namespace Records

variable {tally : Tally} {names : List String} {standing : String → Standing}

theorem mem_pending (h : tally.Records names standing) {name : String} :
    name ∈ tally.pending ↔ name ∈ names ∧ standing name = none := by
  rw [h.pending, List.mem_filter, decide_eq_true_eq]

theorem pending_isEmpty (h : tally.Records names standing) :
    tally.pending.isEmpty = true ↔ ∀ name ∈ names, standing name ≠ none := by
  rw [h.pending, List.isEmpty_iff, List.filter_eq_nil_iff]
  simp

theorem congr {other : String → Standing} (h : tally.Records names standing)
    (hother : ∀ name ∈ names, other name = standing name) : tally.Records names other where
  targets := h.targets
  pending := by
    rw [h.pending]
    exact List.filter_congr fun name hname => by rw [hother name hname]
  acks := by
    rw [h.acks]
    exact List.countP_congr fun name hname => by rw [hother name hname]
  nacks := by
    rw [h.nacks]
    exact List.countP_congr fun name hname => by rw [hother name hname]
  strays := by
    rw [h.strays]
    exact List.countP_congr fun name hname => by rw [hother name hname]
  failed := by
    rw [h.failed]
    exact List.countP_congr fun name hname => by rw [hother name hname]
  received receipt hreceipt := by
    obtain ⟨name, hname, hstanding⟩ := h.received receipt hreceipt
    exact ⟨name, hname, (hother name hname).trans hstanding⟩
  unreceived := h.unreceived

theorem acks_eq_targets (h : tally.Records names standing) :
    tally.acks = tally.targets ↔ ∀ name ∈ names, (standing name).isAck = true := by
  rw [h.acks, h.targets, List.countP_eq_length]

theorem acks_pos (h : tally.Records names standing) :
    0 < tally.acks ↔ ∃ name ∈ names, (standing name).isAck = true := by
  rw [h.acks, List.countP_pos_iff]

theorem failed_eq_targets (h : tally.Records names standing) :
    tally.failed = tally.targets ↔ ∀ name ∈ names, (standing name).isUnsent = true := by
  rw [h.failed, h.targets, List.countP_eq_length]

end Records

end Tally

section Settling

variable {names : List String} {standing : String → Standing} {name : String}

private theorem countP_update (counted : Standing → Bool) (hnone : counted none = false)
    (hnodup : names.Nodup) (hname : name ∈ names) (hstanding : standing name = none)
    (verdict : Verdict) :
    (names.countP fun other => counted (Function.update standing name (some verdict) other)) =
      (names.countP fun other => counted (standing other)) +
        if counted (some verdict) then 1 else 0 := by
  induction names with
  | nil => cases hname
  | cons first rest ih =>
      obtain ⟨hfirst, hrest⟩ := List.nodup_cons.mp hnodup
      rw [List.countP_cons, List.countP_cons]
      rcases List.mem_cons.mp hname with rfl | hmem
      · have hothers : (rest.countP fun other =>
            counted (Function.update standing name (some verdict) other)) =
              rest.countP fun other => counted (standing other) :=
          List.countP_congr fun other hother => by
            have hne : other ≠ name := fun heq => hfirst (heq ▸ hother)
            rw [Function.update_of_ne hne]
        rw [hothers, Function.update_self, hstanding, hnone]
        simp
      · have hne : first ≠ name := fun heq => hfirst (heq ▸ hmem)
        rw [ih hrest hmem, Function.update_of_ne hne]
        omega

private theorem filter_update (verdict : Verdict) :
    (names.filter fun other => Function.update standing name (some verdict) other = none) =
      (names.filter fun other => standing other = none).filter (· ≠ name) := by
  rw [List.filter_filter]
  refine List.filter_congr fun other _ => ?_
  by_cases hother : other = name
  · subst hother
    simp
  · rw [Function.update_of_ne hother]
    simp [hother]

theorem standingAfter_eq_update {request : Request} {input : Input} {verdict : Verdict}
    (hstanding : standing name = none) (hinput : input.verdict? request name = some verdict)
    (hothers : ∀ other, other ≠ name → input.verdict? request other = none) :
    standingAfter request standing input = Function.update standing name (some verdict) := by
  funext other
  unfold standingAfter
  by_cases hother : other = name
  · subst hother
    rw [hstanding, hinput, Function.update_self]
    rfl
  · rw [hothers other hother, Function.update_of_ne hother, Option.or_none]

end Settling

namespace Tally.Records

variable {tally : Tally} {names : List String} {standing : String → Standing} {name : String}

/-- One target more is settled, and a tally that adds its verdict still agrees. -/
private theorem settle (h : tally.Records names standing) (hnodup : names.Nodup)
    (hname : name ∈ tally.pending) (verdict : Verdict) {after : Tally}
    (htargets : after.targets = tally.targets)
    (hpending : after.pending = tally.pending.filter (· ≠ name))
    (hacks : after.acks = tally.acks + if Standing.isAck (some verdict) then 1 else 0)
    (hnacks : after.nacks = tally.nacks + if Standing.isNack (some verdict) then 1 else 0)
    (hstrays : after.strays = tally.strays + if Standing.isStray (some verdict) then 1 else 0)
    (hfailed : after.failed = tally.failed + if Standing.isUnsent (some verdict) then 1 else 0)
    (hreceipt : after.receipt = tally.receipt.or verdict.receipt?) :
    after.Records names (Function.update standing name (some verdict)) := by
  obtain ⟨hmem, hstanding⟩ := h.mem_pending.mp hname
  have hcount := fun counted hnone => countP_update counted hnone hnodup hmem hstanding verdict
  exact {
    targets := htargets.trans h.targets
    pending := by rw [hpending, filter_update, ← h.pending]
    acks := by rw [hacks, h.acks, hcount Standing.isAck rfl]
    nacks := by rw [hnacks, h.nacks, hcount Standing.isNack rfl]
    strays := by rw [hstrays, h.strays, hcount Standing.isStray rfl]
    failed := by rw [hfailed, h.failed, hcount Standing.isUnsent rfl]
    received := by
      intro receipt hafter
      rw [hreceipt, Option.or_eq_some_iff] at hafter
      rcases hafter with hbefore | ⟨-, hnow⟩
      · obtain ⟨other, hother, hack⟩ := h.received receipt hbefore
        have hne : other ≠ name := by
          rintro rfl
          simp [hstanding] at hack
        exact ⟨other, hother, by rw [Function.update_of_ne hne, hack]⟩
      · exact ⟨name, hmem, by
          rw [Function.update_self, Standing.eq_of_receipt? hnow]⟩
    unreceived := by
      intro hnone
      rw [hreceipt, Option.or_eq_none_iff] at hnone
      rw [hacks, h.unreceived hnone.1, Standing.isAck_of_receipt?_eq_none hnone.2]
      rfl }

theorem count (h : tally.Records names standing) (hnodup : names.Nodup)
    (hname : name ∈ tally.pending) (vote : Option Vote) :
    ((tally.settleTarget name).count vote).Records names
      (Function.update standing name (some (.reply vote))) := by
  rcases vote with _ | ⟨receipt⟩ | _
  · exact h.settle hnodup hname (.reply none) rfl rfl rfl rfl rfl rfl (Option.or_none).symm
  · exact h.settle hnodup hname (.reply (some (.ack receipt))) rfl rfl rfl rfl rfl rfl rfl
  · exact h.settle hnodup hname (.reply (some .nack)) rfl rfl rfl rfl rfl rfl (Option.or_none).symm

theorem fail (h : tally.Records names standing) (hnodup : names.Nodup)
    (hname : name ∈ tally.pending) :
    { tally.settleTarget name with failed := tally.failed + 1 : Tally }.Records names
      (Function.update standing name (some .unsent)) :=
  h.settle hnodup hname .unsent rfl rfl rfl rfl rfl rfl (Option.or_none).symm

end Tally.Records

end ReplicaRing.Replication
