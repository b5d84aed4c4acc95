import ReplicaRing.Proofs.Replication.Waiting

/-! A replication ends exactly as the verdicts of its targets say. -/

namespace ReplicaRing.Replication

/-- The final state that fits the standing of the targets. -/
structure Classified (names : List String) (standing : String → Standing) (state : State) :
    Prop where
  error : state = .error ↔ ∀ name ∈ names, (standing name).isUnsent = true
  success : (∃ receipt, state = .success receipt) ↔ ∀ name ∈ names, (standing name).isAck = true
  partialSuccess : (∃ receipt, state = .partialSuccess receipt) ↔
    (∃ name ∈ names, (standing name).isAck = true) ∧
      ∃ name ∈ names, (standing name).isAck = false
  failure : ∀ nacks targets, state = .failure nacks targets ↔
    (∀ name ∈ names, (standing name).isAck = false) ∧
      (∃ name ∈ names, (standing name).isUnsent = false) ∧
      nacks = (names.countP fun name => (standing name).isNack) ∧ targets = names.length

private theorem Standing.isAck_eq_false_of_isUnsent {standing : Standing}
    (h : standing.isUnsent = true) : standing.isAck = false := by
  rw [isUnsent_eq_true] at h
  rw [h]
  rfl

namespace Classified

variable {names : List String} {standing : String → Standing}

private theorem of_unsent (hnames : names ≠ [])
    (h : ∀ name ∈ names, (standing name).isUnsent = true) :
    Classified names standing .error := by
  obtain ⟨first, hfirst⟩ := List.exists_mem_of_ne_nil names hnames
  have hnever : ∀ name ∈ names, (standing name).isAck ≠ true := fun name hname => by
    rw [Standing.isAck_eq_false_of_isUnsent (h name hname)]
    exact Bool.false_ne_true
  exact {
    error := iff_of_true rfl h
    success := iff_of_false nofun fun hall => hnever first hfirst (hall first hfirst)
    partialSuccess := iff_of_false nofun fun ⟨⟨name, hname, hack⟩, _⟩ => hnever name hname hack
    failure := fun _ _ => iff_of_false nofun fun ⟨_, ⟨name, hname, hsent⟩, _⟩ =>
      Bool.false_ne_true (hsent.symm.trans (h name hname)) }

private theorem of_all_acks (hnames : names ≠ []) (h : ∀ name ∈ names, (standing name).isAck = true)
    (receipt : Receipt) : Classified names standing (.success receipt) := by
  obtain ⟨first, hfirst⟩ := List.exists_mem_of_ne_nil names hnames
  exact {
    error := iff_of_false nofun fun hall => Bool.false_ne_true
      ((Standing.isAck_eq_false_of_isUnsent (hall first hfirst)).symm.trans (h first hfirst))
    success := iff_of_true ⟨receipt, rfl⟩ h
    partialSuccess := iff_of_false nofun fun ⟨_, name, hname, hnot⟩ =>
      Bool.false_ne_true (hnot.symm.trans (h name hname))
    failure := fun _ _ => iff_of_false nofun fun ⟨hnone, _⟩ =>
      Bool.false_ne_true ((hnone first hfirst).symm.trans (h first hfirst)) }

private theorem of_some_acks {acked lacking : String} (hacked : acked ∈ names)
    (hack : (standing acked).isAck = true) (hlacking : lacking ∈ names)
    (hlack : (standing lacking).isAck = false) (receipt : Receipt) :
    Classified names standing (.partialSuccess receipt) where
  error := iff_of_false nofun fun hall => Bool.false_ne_true
    ((Standing.isAck_eq_false_of_isUnsent (hall acked hacked)).symm.trans hack)
  success := iff_of_false nofun fun hall =>
    Bool.false_ne_true (hlack.symm.trans (hall lacking hlacking))
  partialSuccess := iff_of_true ⟨receipt, rfl⟩ ⟨⟨acked, hacked, hack⟩, lacking, hlacking, hlack⟩
  failure _ _ := iff_of_false nofun fun ⟨hnone, _⟩ =>
    Bool.false_ne_true ((hnone acked hacked).symm.trans hack)

private theorem of_no_acks {sent : String} (hsent : sent ∈ names)
    (hout : (standing sent).isUnsent = false)
    (h : ∀ name ∈ names, (standing name).isAck = false) :
    Classified names standing
      (.failure (names.countP fun name => (standing name).isNack) names.length) where
  error := iff_of_false nofun fun hall => Bool.false_ne_true (hout.symm.trans (hall sent hsent))
  success := iff_of_false nofun fun hall =>
    Bool.false_ne_true ((h sent hsent).symm.trans (hall sent hsent))
  partialSuccess := iff_of_false nofun fun ⟨⟨name, hname, hack⟩, _⟩ =>
    Bool.false_ne_true ((h name hname).symm.trans hack)
  failure nacks targets := by
    rw [State.failure.injEq, eq_comm, eq_comm (b := targets)]
    exact ⟨fun hboth => ⟨h, ⟨sent, hsent, hout⟩, hboth⟩, fun hall => hall.2.2⟩

end Classified

namespace Tally.Records

variable {tally : Tally} {names : List String} {standing : String → Standing}

private theorem receipt_of_acks_pos (h : tally.Records names standing) (hpos : 0 < tally.acks) :
    ∃ receipt, tally.receipt = some receipt := by
  cases hreceipt : tally.receipt with
  | none =>
      have hzero := h.unreceived hreceipt
      omega
  | some receipt => exact ⟨receipt, rfl⟩

theorem settle_conclusion (h : tally.Records names standing) (hnames : names ≠ []) (host : Host)
    (request : Request) (id : UInt64) (roster : Roster) :
    Classified names standing
      (react host request id roster tally (conclusion names standing) .settle).state := by
  obtain ⟨first, hfirst⟩ := List.exists_mem_of_ne_nil names hnames
  unfold conclusion
  by_cases hunsent : ∀ name ∈ names, (standing name).isUnsent = true
  · rw [if_pos hunsent]
    exact .of_unsent hnames hunsent
  rw [if_neg hunsent]
  by_cases hacks : ∀ name ∈ names, (standing name).isAck = true
  · obtain ⟨receipt, hreceipt⟩ :=
      h.receipt_of_acks_pos (h.acks_pos.mpr ⟨first, hfirst, hacks first hfirst⟩)
    rw [if_pos hacks, react, settleWith, hreceipt]
    exact .of_all_acks hnames hacks receipt
  rw [if_neg hacks]
  obtain ⟨lacking, hlacking, hlack⟩ : ∃ name ∈ names, (standing name).isAck = false := by
    simpa using hacks
  by_cases hack : ∃ name ∈ names, (standing name).isAck = true
  · obtain ⟨receipt, hreceipt⟩ := h.receipt_of_acks_pos (h.acks_pos.mpr hack)
    obtain ⟨acked, hacked, hyes⟩ := hack
    rw [if_pos ⟨acked, hacked, hyes⟩, react, settleWith, hreceipt]
    exact .of_some_acks hacked hyes hlacking hlack receipt
  · obtain ⟨sent, hsent, hout⟩ : ∃ name ∈ names, (standing name).isUnsent = false := by
      simpa using hunsent
    rw [if_neg hack, react, h.nacks, h.targets]
    exact .of_no_acks hsent hout (by simpa using hack)

end Tally.Records

end ReplicaRing.Replication
