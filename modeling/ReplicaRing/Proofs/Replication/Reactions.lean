import ReplicaRing.Replication

/-! What one reaction of a replication does to its count. -/

namespace ReplicaRing.Replication

variable {host : Host} {request : Request} {id : UInt64} {roster : Roster} {tally : Tally}
  {state : State} {input : Input}

namespace Tally

@[simp] theorem conclude_memory (tally : Tally) : tally.conclude.memory = tally := by
  unfold conclude
  split <;> rfl

@[simp] theorem awaitRest_memory (tally : Tally) : tally.awaitRest.memory = tally := by
  unfold awaitRest
  split
  · exact tally.conclude_memory
  · rfl

@[simp] theorem settleWith_memory (tally : Tally) (wrap : Receipt → State) :
    (tally.settleWith wrap).memory = tally := by
  unfold settleWith
  split <;> rfl

private theorem count_nacks {vote : Option Vote} (h : vote ≠ some .nack) :
    (tally.count vote).nacks = tally.nacks := by
  rcases vote with _ | ⟨receipt⟩ | _
  · rfl
  · rfl
  · exact absurd rfl h

private theorem count_acks {vote : Option Vote} (h : (tally.count vote).acks ≠ tally.acks) :
    (∃ receipt, vote = some (.ack receipt)) ∧ (tally.count vote).acks = tally.acks + 1 := by
  rcases vote with _ | ⟨receipt⟩ | _
  · exact absurd rfl h
  · exact ⟨⟨receipt, rfl⟩, rfl⟩
  · exact absurd rfl h

private theorem count_receipt {vote : Option Vote}
    (h : (tally.count vote).receipt ≠ tally.receipt) :
    ∃ receipt, vote = some (.ack receipt) ∧ tally.receipt = none ∧
      (tally.count vote).receipt = some receipt ∧ (tally.count vote).acks = tally.acks + 1 := by
  rcases vote with _ | ⟨receipt⟩ | _
  · exact absurd rfl h
  · cases hreceipt : tally.receipt with
    | none =>
        refine ⟨receipt, rfl, rfl, ?_, rfl⟩
        change tally.receipt.or (some receipt) = some receipt
        rw [hreceipt]
        rfl
    | some first =>
        refine absurd ?_ h
        change tally.receipt.or (some receipt) = tally.receipt
        rw [hreceipt]
        rfl
  · exact absurd rfl h

end Tally

private theorem counts_of_react :
    (react host request id roster tally state input).memory.nacks = tally.nacks ∧
        (react host request id roster tally state input).memory.receipt = tally.receipt ∧
        (react host request id roster tally state input).memory.acks = tally.acks ∨
      state = .waiting ∧ ∃ message, input = .reply message ∧ message.replyTo ∈ tally.pending ∧
        (react host request id roster tally state input).memory =
          (tally.settleTarget message.replyTo).count (request.classify message) := by
  unfold react
  split
  case h_2 => split <;> exact .inl ⟨rfl, rfl, rfl⟩
  case h_3 message =>
    split
    case isTrue hpending =>
      exact .inr ⟨rfl, message, rfl, hpending, Tally.awaitRest_memory _⟩
    case isFalse => exact .inl ⟨rfl, rfl, rfl⟩
  case h_4 peer =>
    split
    · rw [Tally.awaitRest_memory]
      exact .inl ⟨rfl, rfl, rfl⟩
    · rw [Tally.awaitRest_memory]
      exact .inl ⟨rfl, rfl, rfl⟩
  case h_5 =>
    rw [Tally.conclude_memory]
    exact .inl ⟨rfl, rfl, rfl⟩
  case h_6 =>
    rw [Tally.settleWith_memory]
    exact .inl ⟨rfl, rfl, rfl⟩
  case h_7 =>
    rw [Tally.settleWith_memory]
    exact .inl ⟨rfl, rfl, rfl⟩
  all_goals exact .inl ⟨rfl, rfl, rfl⟩

theorem nack_of_react
    (h : (react host request id roster tally state input).memory.nacks ≠ tally.nacks) :
    state = .waiting ∧ ∃ message, input = .reply message ∧ message.replyTo ∈ tally.pending ∧
      request.classify message = some .nack := by
  rcases counts_of_react with ⟨hnacks, -⟩ | ⟨hwaiting, message, hinput, hpending, hmemory⟩
  · exact absurd hnacks h
  · rw [hmemory] at h
    by_cases hvote : request.classify message = some .nack
    · exact ⟨hwaiting, message, hinput, hpending, hvote⟩
    · exact absurd (Tally.count_nacks hvote) h

theorem ack_of_react
    (h : (react host request id roster tally state input).memory.acks ≠ tally.acks) :
    state = .waiting ∧ ∃ message receipt, input = .reply message ∧
      message.replyTo ∈ tally.pending ∧ request.classify message = some (.ack receipt) ∧
      (react host request id roster tally state input).memory.acks = tally.acks + 1 := by
  rcases counts_of_react with ⟨-, -, hacks⟩ | ⟨hwaiting, message, hinput, hpending, hmemory⟩
  · exact absurd hacks h
  · rw [hmemory] at h
    obtain ⟨⟨receipt, hvote⟩, hacks⟩ := Tally.count_acks h
    exact ⟨hwaiting, message, receipt, hinput, hpending, hvote, hmemory ▸ hacks⟩

theorem receipt_of_react
    (h : (react host request id roster tally state input).memory.receipt ≠ tally.receipt) :
    state = .waiting ∧ tally.receipt = none ∧ ∃ message receipt, input = .reply message ∧
      message.replyTo ∈ tally.pending ∧ request.classify message = some (.ack receipt) ∧
      (react host request id roster tally state input).memory.receipt = some receipt ∧
      (react host request id roster tally state input).memory.acks = tally.acks + 1 := by
  rcases counts_of_react with ⟨-, hreceipt, -⟩ | ⟨hwaiting, message, hinput, hpending, hmemory⟩
  · exact absurd hreceipt h
  · rw [hmemory] at h
    obtain ⟨receipt, hvote, hnone, hfirst, hacks⟩ := Tally.count_receipt h
    exact ⟨hwaiting, hnone, message, receipt, hinput, hpending, hvote, hmemory ▸ hfirst,
      hmemory ▸ hacks⟩

end ReplicaRing.Replication
