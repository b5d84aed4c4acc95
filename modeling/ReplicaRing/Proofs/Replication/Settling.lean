import ReplicaRing.Proofs.Replication.Sending
import ReplicaRing.Proofs.Replication.Waiting

/-! However a replication comes to its end, that end is justified by how its targets stand. -/

namespace ReplicaRing.Replication

/-- What a state says of the targets. -/
def State.Fits (names : List String) (standing : String → Standing) : State → Prop
  | .fullAck => ∀ name ∈ names, (standing name).isAck = true
  | .partialAck => ∃ name ∈ names, (standing name).isAck = true
  | .success receipt => (∀ name ∈ names, (standing name).isAck = true) ∧
      ∃ name ∈ names, standing name = some (.reply (some (.ack receipt)))
  | .partialSuccess receipt =>
      ∃ name ∈ names, standing name = some (.reply (some (.ack receipt)))
  | .failure nacks targets => nacks = (names.countP fun name => (standing name).isNack) ∧
      targets = names.length
  | _ => True

namespace State

variable {names : List String} {standing : String → Standing} {state : State}

theorem exists_receipt (h : state.outcome.isAcknowledged = true) :
    ∃ receipt, state.receipt? = some receipt := by
  cases state with
  | success receipt => exact ⟨receipt, rfl⟩
  | partialSuccess receipt => exact ⟨receipt, rfl⟩
  | _ => cases h

namespace Fits

theorem acknowledged (h : state.Fits names standing) {receipt : Receipt}
    (hreceipt : state.receipt? = some receipt) :
    ∃ name ∈ names, standing name = some (.reply (some (.ack receipt))) := by
  cases state with
  | success received =>
      cases hreceipt
      exact h.2
  | partialSuccess received =>
      cases hreceipt
      exact h
  | _ => cases hreceipt

theorem success (h : state.Fits names standing) (houtcome : state.outcome = .success) :
    ∀ name ∈ names, (standing name).isAck = true := by
  cases state with
  | success receipt => exact h.1
  | _ => cases houtcome

theorem allNacked (h : state.Fits names standing) (hnacked : state.isAllNacked = true) :
    ∀ name ∈ names, (standing name).isNack = true := by
  cases state with
  | failure nacks targets =>
      obtain ⟨hnacks, htargets⟩ := h
      have heq : nacks = targets := by simpa [isAllNacked] using hnacked
      rw [heq, htargets] at hnacks
      exact List.countP_eq_length.mp hnacks.symm
  | _ => cases hnacked

end Fits

end State

/-- The tally and the state agree with how the targets stand. -/
structure Settles (names : List String) (standing : String → Standing) (tally : Tally)
    (state : State) : Prop where
  records : tally.Records names standing
  fits : state.Fits names standing

namespace Settles

variable {names : List String} {standing : String → Standing} {tally : Tally}

private theorem conclude (h : tally.Records names standing) :
    Settles names standing tally.conclude.memory tally.conclude.state := by
  rw [h.conclude_eq]
  refine ⟨h, ?_⟩
  unfold conclusion
  simp only
  split
  · trivial
  · split
    case isTrue hacks => exact hacks
    case isFalse =>
      split
      case isTrue hack => exact hack
      case isFalse => trivial

private theorem settleWith (h : tally.Records names standing) {wrap : Receipt → State}
    (hwrap : ∀ receipt, (∃ name ∈ names, standing name = some (.reply (some (.ack receipt)))) →
      (wrap receipt).Fits names standing) :
    Settles names standing (tally.settleWith wrap).memory (tally.settleWith wrap).state := by
  unfold Tally.settleWith
  split
  case h_1 receipt hreceipt => exact ⟨h, hwrap receipt (h.received receipt hreceipt)⟩
  case h_2 => exact ⟨h, trivial⟩

/-- An input keeps the agreement; a target that it settles is one that it is about. -/
theorem react {state : State} (h : Settles names standing tally state) (hnodup : names.Nodup)
    (hsent : state.IsSent) (host : Host) (request : Request) (id : UInt64) (roster : Roster)
    (input : Input) :
    ∃ later, Settles names later
        (Replication.react host request id roster tally state input).memory
        (Replication.react host request id roster tally state input).state ∧
      ∀ name verdict, later name = some verdict →
        standing name = some verdict ∨ input.verdict? request name = some verdict := by
  cases state with
  | start => exact absurd rfl hsent.1
  | sending => exact absurd rfl hsent.2
  | waiting =>
      by_cases hinput : input.isExternal = true
      · refine ⟨standingAfter request standing input, ?_, fun name verdict hlater => ?_⟩
        · have hrecords := h.records.hear hnodup request input
          rcases react_waiting_cases hinput with hreact | hreact
          · rw [hreact]
            exact ⟨hrecords, trivial⟩
          · rw [hreact]
            exact conclude hrecords
        · rw [standingAfter, Option.or_eq_some_iff] at hlater
          exact hlater.imp_right And.right
      · refine ⟨standing, ?_, fun _ _ => .inl⟩
        cases input with
        | reply | sendFailed | timeout => exact absurd rfl hinput
        | _ => exact ⟨h.records, trivial⟩
  | fullAck =>
      refine ⟨standing, ?_, fun _ _ => .inl⟩
      cases input with
      | settle => exact settleWith h.records fun receipt hreceipt => ⟨h.fits, hreceipt⟩
      | reply | sendFailed | timeout => exact h
      | _ => exact ⟨h.records, trivial⟩
  | partialAck =>
      refine ⟨standing, ?_, fun _ _ => .inl⟩
      cases input with
      | settle => exact settleWith h.records fun receipt hreceipt => hreceipt
      | reply | sendFailed | timeout => exact h
      | _ => exact ⟨h.records, trivial⟩
  | noAck =>
      refine ⟨standing, ?_, fun _ _ => .inl⟩
      cases input with
      | settle => exact ⟨h.records, h.records.nacks, h.records.targets⟩
      | _ => exact ⟨h.records, trivial⟩
  | _ => exact ⟨standing, ⟨h.records, trivial⟩, fun _ _ => .inl⟩

end Settles

end ReplicaRing.Replication
