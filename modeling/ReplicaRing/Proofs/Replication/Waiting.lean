import Mathlib.Data.List.Nodup
import ReplicaRing.Proofs.Replication.Records

/-! The wait for replies, the verdict at its end, and what the automaton does with it. -/

namespace ReplicaRing.Replication

namespace Tally

/-- The tally after an input, whether or not the input ends the wait. -/
def hear (request : Request) (tally : Tally) : Input → Tally
  | .reply message =>
      if message.replyTo ∈ tally.pending then
        (tally.settleTarget message.replyTo).count (request.classify message)
      else tally
  | .sendFailed peer =>
      if peer ∈ tally.pending then
        { tally.settleTarget peer with failed := tally.failed + 1 }
      else tally
  | _ => tally

theorem hear_of_not_pending {request : Request} {tally : Tally} {input : Input}
    (h : ∀ name, input.subject? = some name → name ∉ tally.pending) :
    tally.hear request input = tally := by
  cases input with
  | reply message => exact if_neg (h _ rfl)
  | sendFailed peer => exact if_neg (h _ rfl)
  | _ => rfl

namespace Records

variable {tally : Tally} {names : List String} {standing : String → Standing}

private theorem standingAfter_eq (h : tally.Records names standing) (request : Request)
    {input : Input}
    (hinput : ∀ name, input.subject? = some name → name ∉ tally.pending) :
    ∀ name ∈ names, standingAfter request standing input name = standing name := by
  intro name hname
  cases hstanding : standing name with
  | some verdict => rw [standingAfter, hstanding, Option.some_or]
  | none =>
      have hpending : name ∈ tally.pending := h.mem_pending.mpr ⟨hname, hstanding⟩
      rw [standingAfter, hstanding, Option.none_or]
      exact Input.verdict?_of_subject?_ne fun hsubject => hinput name hsubject hpending

theorem hear (h : tally.Records names standing) (hnodup : names.Nodup) (request : Request)
    (input : Input) :
    (tally.hear request input).Records names (standingAfter request standing input) := by
  by_cases hpending : ∃ name ∈ tally.pending, input.subject? = some name
  · obtain ⟨name, hname, hsubject⟩ := hpending
    have hstanding := (h.mem_pending.mp hname).2
    have hothers : ∀ other, other ≠ name → input.verdict? request other = none := by
      intro other hother
      refine Input.verdict?_of_subject?_ne fun heq => hother ?_
      rw [hsubject] at heq
      exact (Option.some.inj heq).symm
    cases input with
    | reply message =>
        cases hsubject
        have hverdict : (Input.reply message).verdict? request message.replyTo =
            some (.reply (request.classify message)) := if_pos rfl
        rw [standingAfter_eq_update hstanding hverdict hothers, Tally.hear, if_pos hname]
        exact h.count hnodup hname _
    | sendFailed peer =>
        cases hsubject
        have hverdict : (Input.sendFailed name).verdict? request name = some .unsent :=
          if_pos rfl
        rw [standingAfter_eq_update hstanding hverdict hothers, Tally.hear, if_pos hname]
        exact h.fail hnodup hname
    | _ => cases hsubject
  · have hnot : ∀ name, input.subject? = some name → name ∉ tally.pending :=
      fun name hsubject hname => hpending ⟨name, hname, hsubject⟩
    rw [hear_of_not_pending hnot]
    exact h.congr (h.standingAfter_eq request hnot)

end Records

private theorem foldl_await {names pending : List String} (h : (pending ++ names).Nodup) :
    names.foldl await pending = pending ++ names := by
  induction names generalizing pending with
  | nil => rw [List.foldl_nil, List.append_nil]
  | cons first rest ih =>
      have hfirst : first ∉ pending := by
        intro hmem
        exact (List.disjoint_of_nodup_append h) hmem (.head _)
      rw [List.foldl_cons, await, if_neg hfirst, ih (by simpa using h)]
      simp

end Tally

theorem fanOut_records (id : UInt64) {targets : List Peer} (message : Message)
    (h : (targets.map Peer.name).Nodup) :
    (fanOut {} id targets message).memory.Records (targets.map Peer.name) fun _ => none where
  targets := (List.length_map _).symm
  pending := by
    have hnames : targets.foldl (fun pending peer => Tally.await pending peer.name) [] =
        targets.map Peer.name := by
      rw [← List.foldl_map, Tally.foldl_await (by simpa using h), List.nil_append]
    simpa [fanOut] using hnames
  acks := by simp [fanOut, Standing.isAck]
  nacks := by simp [fanOut, Standing.isNack]
  strays := by simp [fanOut, Standing.isStray]
  failed := by simp [fanOut, Standing.isUnsent]
  received receipt hreceipt := by cases hreceipt
  unreceived _ := rfl

def conclusion (names : List String) (standing : String → Standing) : State :=
  if ∀ name ∈ names, (standing name).isUnsent = true then .error
  else if ∀ name ∈ names, (standing name).isAck = true then .fullAck
  else if ∃ name ∈ names, (standing name).isAck = true then .partialAck
  else .noAck

theorem Tally.Records.conclude_eq {tally : Tally} {names : List String}
    {standing : String → Standing} (h : tally.Records names standing) :
    tally.conclude =
      { memory := tally
        state := conclusion names standing
        queued := if conclusion names standing = .error then [] else [.settle] } := by
  unfold Tally.conclude conclusion
  simp only [h.failed_eq_targets, h.acks_eq_targets, h.acks_pos]
  by_cases hunsent : ∀ name ∈ names, (standing name).isUnsent = true
  · rw [if_pos hunsent, if_pos hunsent, if_pos rfl]
  · rw [if_neg hunsent, if_neg hunsent]
    by_cases hacks : ∀ name ∈ names, (standing name).isAck = true
    · rw [if_pos hacks, if_neg (by simp)]
    · rw [if_neg hacks]
      by_cases hack : ∃ name ∈ names, (standing name).isAck = true
      · rw [if_pos hack, if_neg (by simp)]
      · rw [if_neg hack, if_neg (by simp)]

section Reacting

variable {host : Host} {request : Request} {id : UInt64} {roster : Roster} {tally : Tally}
  {input : Input}

theorem react_waiting (hinput : input.isExternal = true) (hpending : tally.pending ≠ []) :
    react host request id roster tally .waiting input =
      if input = .timeout then (tally.hear request input).conclude
      else (tally.hear request input).awaitRest := by
  have hrest : tally.awaitRest = { memory := tally, state := .waiting } := by
    rw [Tally.awaitRest, if_neg (by simpa using hpending)]
  cases input with
  | reply message =>
      rw [if_neg (by simp), Tally.hear, react]
      split
      · rfl
      · exact hrest.symm
  | sendFailed peer =>
      rw [if_neg (by simp), Tally.hear, react]
      split <;> rfl
  | timeout => rfl
  | _ => cases hinput

theorem react_waiting_cases (hinput : input.isExternal = true) :
    react host request id roster tally .waiting input =
        { memory := tally.hear request input, state := .waiting } ∨
      react host request id roster tally .waiting input =
        (tally.hear request input).conclude := by
  cases input with
  | reply message =>
      rw [react, Tally.hear]
      split
      · rw [Tally.awaitRest]
        split
        · exact .inr rfl
        · exact .inl rfl
      · exact .inl rfl
  | sendFailed peer =>
      rw [react, Tally.hear]
      split
      · rw [Tally.awaitRest]
        split
        · exact .inr rfl
        · exact .inl rfl
      · rw [Tally.awaitRest]
        split
        · exact .inr rfl
        · exact .inl rfl
  | timeout => exact .inr rfl
  | _ => cases hinput

theorem react_late {state : State} (hinput : input.isExternal = true)
    (hstate : state = .fullAck ∨ state = .partialAck ∨ state = .noAck ∨ state = .error) :
    react host request id roster tally state input = { memory := tally, state } := by
  rcases hstate with rfl | rfl | rfl | rfl <;> cases input <;> first | rfl | cases hinput

end Reacting

end ReplicaRing.Replication
