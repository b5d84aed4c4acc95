import Mathlib.Data.List.Induction
import ReplicaRing.Proofs.Replication.Classification

/-!
Whatever replies, failed sends and timeouts a waiting replication hears, it leaves the wait when the
last target is settled or the first timeout comes, and then ends as the verdicts say.
-/

namespace ReplicaRing

private theorem Run.feed_eq_self {View Memory State Input Effect : Type} [DecidableEq State]
    {automaton : Automaton View Memory State Input Effect} {view : View} {now : Nat}
    {run : Run Memory State Input} {input : Input}
    (h : automaton.react view run.memory run.state input =
      { memory := run.memory, state := run.state }) :
    run.feed automaton view now input = (run, []) := by
  simp [feed, h]

namespace Replication

structure Hearing where
  roster : Roster
  now : Nat
  input : Input

def awaiting (id : UInt64) (targets : List Peer) (message : Message) : Run Tally State Input where
  memory := (fanOut {} id targets message).memory
  state := (fanOut {} id targets message).state

section Hearing

variable (host : Host) (request : Request) (id : UInt64)

def hear (run : Run Tally State Input) (hearing : Hearing) : Run Tally State Input :=
  (run.feed (automaton host request id) hearing.roster hearing.now hearing.input).1

def hearAll (run : Run Tally State Input) (heard : List Hearing) : Run Tally State Input :=
  heard.foldl (hear host request id) run

end Hearing

/-- No timeout has come, and some target has no verdict. -/
def IsOpen (request : Request) (names : List String) (inputs : List Input) : Prop :=
  .timeout ∉ inputs ∧ ∃ name ∈ names, verdict? request inputs name = none

/-- The run has taken account of the inputs. -/
structure Accounts (request : Request) (names : List String) (inputs : List Input)
    (run : Run Tally State Input) : Prop where
  records : run.memory.Records names (verdict? request inputs)
  earliest : ∀ receipt, run.memory.receipt = some receipt →
    EarliestAck request names inputs receipt
  waits : IsOpen request names inputs → run.state = .waiting ∧ run.queue = []
  decided : ¬IsOpen request names inputs →
    run.state = conclusion names (verdict? request inputs) ∧
      run.queue = if run.state = .error then [] else [.input .settle]

private theorem verdict?_append_of_no_timeout {request : Request} {inputs : List Input}
    (h : .timeout ∉ inputs) (input : Input) :
    verdict? request (inputs ++ [input]) = standingAfter request (verdict? request inputs) input := by
  funext name
  rw [verdict?_append_singleton, if_neg h]
  rfl

private theorem verdict?_append_of_not_isOpen {request : Request} {names : List String}
    {inputs : List Input} (h : ¬IsOpen request names inputs) (input : Input) :
    ∀ name ∈ names, verdict? request (inputs ++ [input]) name = verdict? request inputs name := by
  intro name hname
  rw [verdict?_append_singleton]
  by_cases htimeout : .timeout ∈ inputs
  · rw [if_pos htimeout, Option.or_none]
  · cases hverdict : verdict? request inputs name with
    | none => exact absurd ⟨htimeout, name, hname, hverdict⟩ h
    | some verdict => rw [Option.some_or]

private theorem IsOpen.of_append {request : Request} {names : List String} {inputs : List Input}
    {input : Input} (h : IsOpen request names (inputs ++ [input])) :
    IsOpen request names inputs := by
  obtain ⟨htimeout, name, hname, hverdict⟩ := h
  rw [List.mem_append, not_or] at htimeout
  rw [verdict?_append_singleton, Option.or_eq_none_iff] at hverdict
  exact ⟨htimeout.1, name, hname, hverdict.1⟩

private theorem conclusion_congr {names : List String} {standing other : String → Standing}
    (h : ∀ name ∈ names, other name = standing name) :
    conclusion names other = conclusion names standing := by
  unfold conclusion
  have hunsent : (∀ name ∈ names, (other name).isUnsent = true) ↔
      ∀ name ∈ names, (standing name).isUnsent = true :=
    forall₂_congr fun name hname => by rw [h name hname]
  have hacks : (∀ name ∈ names, (other name).isAck = true) ↔
      ∀ name ∈ names, (standing name).isAck = true :=
    forall₂_congr fun name hname => by rw [h name hname]
  have hack : (∃ name ∈ names, (other name).isAck = true) ↔
      ∃ name ∈ names, (standing name).isAck = true :=
    exists_congr fun name => and_congr_right fun hname => by rw [h name hname]
  simp only [hunsent, hacks, hack]

private theorem conclusion_cases (names : List String) (standing : String → Standing) :
    conclusion names standing = .fullAck ∨ conclusion names standing = .partialAck ∨
      conclusion names standing = .noAck ∨ conclusion names standing = .error := by
  unfold conclusion
  repeat' split
  all_goals simp

namespace Tally

private theorem receipt_of_hear {request : Request} {tally : Tally} {input : Input}
    {receipt : Receipt}
    (h : (tally.hear request input).receipt = some receipt) :
    tally.receipt = some receipt ∨ tally.receipt = none ∧ ∃ message, input = .reply message ∧
      message.replyTo ∈ tally.pending ∧ request.classify message = some (.ack receipt) := by
  cases input with
  | reply message =>
      rw [hear] at h
      split at h
      case isFalse => exact .inl h
      case isTrue hpending =>
        rcases hvote : request.classify message with _ | ⟨brought⟩ | _
        · exact .inl (by simpa [hvote, count, settleTarget] using h)
        · simp only [hvote, count, settleTarget, Option.or_eq_some_iff, Option.some.injEq] at h
          rcases h with hbefore | ⟨hnone, rfl⟩
          · exact .inl hbefore
          · exact .inr ⟨hnone, message, rfl, hpending, hvote⟩
        · exact .inl (by simpa [hvote, count, settleTarget] using h)
  | sendFailed peer =>
      rw [hear] at h
      split at h <;> exact .inl h
  | _ => exact .inl h

end Tally

private theorem Tally.settleWith_final (tally : Tally) {wrap : Receipt → State}
    (hwrap : ∀ receipt, (wrap receipt).isTerminal = true)
    (hreceipt : ∀ receipt, (wrap receipt).receipt? = some receipt) :
    (tally.settleWith wrap).state.isTerminal = true ∧
      ∀ receipt, (tally.settleWith wrap).state.receipt? = some receipt →
        tally.receipt = some receipt := by
  unfold settleWith
  cases tally.receipt with
  | none => exact ⟨rfl, nofun⟩
  | some kept => exact ⟨hwrap kept, fun receipt hsome => (hreceipt kept).symm.trans hsome⟩

private theorem settle_conclusion_final (host : Host) (request : Request) (id : UInt64)
    (roster : Roster)
    (tally : Tally) (names : List String) (standing : String → Standing) :
    (react host request id roster tally (conclusion names standing) .settle).state.isTerminal =
        true ∧
      ∀ receipt, (react host request id roster tally (conclusion names standing)
        .settle).state.receipt? = some receipt → tally.receipt = some receipt := by
  rcases conclusion_cases names standing with h | h | h | h <;> rw [h]
  · exact tally.settleWith_final (fun _ => rfl) fun _ => rfl
  · exact tally.settleWith_final (fun _ => rfl) fun _ => rfl
  · exact ⟨rfl, nofun⟩
  · exact ⟨rfl, nofun⟩

namespace Accounts

variable {host : Host} {request : Request} {id : UInt64} {names : List String}
  {inputs : List Input} {run : Run Tally State Input}

private theorem pending_ne_nil (h : Accounts request names inputs run)
    (hopen : IsOpen request names inputs) : run.memory.pending ≠ [] := by
  obtain ⟨-, name, hname, hverdict⟩ := hopen
  exact List.ne_nil_of_mem (h.records.mem_pending.mpr ⟨hname, hverdict⟩)

private theorem feed_decided (h : Accounts request names inputs run)
    (hdecided : ¬IsOpen request names inputs) (roster : Roster) (now : Nat) {input : Input}
    (hinput : input.isExternal = true) :
    run.feed (automaton host request id) roster now input = (run, []) := by
  apply Run.feed_eq_self
  apply react_late hinput
  rw [(h.decided hdecided).1]
  exact conclusion_cases _ _

private theorem feed_unrelated (h : Accounts request names inputs run) (roster : Roster) (now : Nat)
    {input : Input} {name : String} (hsubject : input.subject? = some name)
    (hname : name ∉ names ∨ verdict? request inputs name ≠ none) :
    run.feed (automaton host request id) roster now input = (run, []) := by
  have hinput : input.isExternal = true := by
    cases input <;> first | rfl | cases hsubject
  by_cases hopen : IsOpen request names inputs
  · have hnot : ∀ other, input.subject? = some other → other ∉ run.memory.pending := by
      intro other hother hpending
      obtain ⟨hmem, hnone⟩ := h.records.mem_pending.mp hpending
      rw [hsubject, Option.some.injEq] at hother
      subst hother
      rcases hname with hout | hsettled
      · exact hout hmem
      · exact hsettled hnone
    have htimeout : input ≠ .timeout := by
      rintro rfl
      cases hsubject
    apply Run.feed_eq_self
    have hpending := h.pending_ne_nil hopen
    rw [(h.waits hopen).1]
    exact (react_waiting hinput hpending).trans (by
      rw [if_neg htimeout, Tally.hear_of_not_pending hnot, Tally.awaitRest,
        if_neg (by simpa using hpending)])
  · exact h.feed_decided hopen roster now hinput

private theorem earliest_hear (h : Accounts request names inputs run)
    (hopen : IsOpen request names inputs) (input : Input) {receipt : Receipt}
    (hreceipt : (run.memory.hear request input).receipt = some receipt) :
    EarliestAck request names (inputs ++ [input]) receipt := by
  rcases Tally.receipt_of_hear hreceipt with
    hbefore | ⟨hnone, message, rfl, hpending, hvote⟩
  · exact (h.earliest receipt hbefore).append input
  · obtain ⟨hname, hverdict⟩ := h.records.mem_pending.mp hpending
    refine ⟨inputs, message, [], ?_, hname, hverdict, hvote, ?_⟩
    · rw [beforeTimeout_append_singleton, if_neg hopen.1, if_neg (by simp)]
    · have hzero := h.records.unreceived hnone
      rw [h.records.acks, List.countP_eq_zero] at hzero
      exact fun other hother => by simpa using hzero other hother

private theorem records_hear (h : Accounts request names inputs run) (hnodup : names.Nodup)
    (hopen : IsOpen request names inputs) (input : Input) :
    (run.memory.hear request input).Records names (verdict? request (inputs ++ [input])) := by
  rw [verdict?_append_of_no_timeout hopen.1]
  exact h.records.hear hnodup request input

private theorem react_open (host : Host) (id : UInt64) (h : Accounts request names inputs run)
    (hnodup : names.Nodup)
    (hopen : IsOpen request names inputs) {input : Input} (hinput : input.isExternal = true)
    (roster : Roster) :
    react host request id roster run.memory run.state input =
      open Classical in
      if IsOpen request names (inputs ++ [input]) then
        { memory := run.memory.hear request input, state := .waiting }
      else (run.memory.hear request input).conclude := by
  have hrest := (h.records_hear hnodup hopen input).pending_isEmpty
  rw [(h.waits hopen).1, react_waiting hinput (h.pending_ne_nil hopen)]
  by_cases htimeout : input = .timeout
  · rw [if_pos htimeout, if_neg]
    exact fun hafter => hafter.1 (List.mem_append_right _ (by simp [htimeout]))
  · rw [if_neg htimeout, Tally.awaitRest]
    by_cases hafter : IsOpen request names (inputs ++ [input])
    · rw [if_pos hafter, if_neg]
      obtain ⟨-, name, hname, hverdict⟩ := hafter
      exact fun hempty => hrest.mp hempty name hname hverdict
    · rw [if_neg hafter, if_pos]
      refine hrest.mpr fun name hname hverdict => hafter ⟨?_, name, hname, hverdict⟩
      rw [List.mem_append, not_or, List.mem_singleton]
      exact ⟨hopen.1, Ne.symm htimeout⟩

private theorem hear (h : Accounts request names inputs run) (hnodup : names.Nodup)
    {hearing : Hearing}
    (hinput : hearing.input.isExternal = true) :
    Accounts request names (inputs ++ [hearing.input])
      (Replication.hear host request id run hearing) := by
  by_cases hopen : IsOpen request names inputs
  case neg =>
    have hsame := verdict?_append_of_not_isOpen hopen hearing.input
    have hrun : Replication.hear host request id run hearing = run :=
      congrArg Prod.fst (h.feed_decided hopen hearing.roster hearing.now hinput)
    rw [hrun]
    exact {
      records := h.records.congr hsame
      earliest := fun receipt hreceipt => (h.earliest receipt hreceipt).append hearing.input
      waits := fun hafter => absurd hafter.of_append hopen
      decided := fun _ => by
        rw [conclusion_congr hsame]
        exact h.decided hopen }
  case pos =>
    have hrecords := h.records_hear hnodup hopen hearing.input
    have hreact := h.react_open host id hnodup hopen hinput hearing.roster
    have hqueue := (h.waits hopen).2
    by_cases hafter : IsOpen request names (inputs ++ [hearing.input])
    case pos =>
      rw [if_pos hafter] at hreact
      have hmemory : (Replication.hear host request id run hearing).memory =
          run.memory.hear request hearing.input := congrArg Reaction.memory hreact
      exact {
        records := hmemory ▸ hrecords
        earliest := fun receipt hreceipt =>
          h.earliest_hear hopen hearing.input (hmemory ▸ hreceipt)
        waits := fun _ => ⟨congrArg Reaction.state hreact, by
          simp [Replication.hear, Run.feed, automaton, hreact, hqueue]⟩
        decided := fun hclosed => absurd hafter hclosed }
    case neg =>
      rw [if_neg hafter, hrecords.conclude_eq] at hreact
      have hmemory : (Replication.hear host request id run hearing).memory =
          run.memory.hear request hearing.input := congrArg Reaction.memory hreact
      have hstate : (Replication.hear host request id run hearing).state =
          conclusion names (verdict? request (inputs ++ [hearing.input])) :=
        congrArg Reaction.state hreact
      exact {
        records := hmemory ▸ hrecords
        earliest := fun receipt hreceipt =>
          h.earliest_hear hopen hearing.input (hmemory ▸ hreceipt)
        waits := fun hstill => absurd hstill hafter
        decided := fun _ => ⟨hstate, by
          rw [hstate]
          simp only [Replication.hear, Run.feed, automaton, hreact, hqueue, List.nil_append]
          split <;> rfl⟩ }

end Accounts

section Run

variable (host : Host) (request : Request) (id : UInt64) {targets : List Peer} (message : Message)

private theorem accounts_awaiting (hnodup : (targets.map Peer.name).Nodup) (hne : targets ≠ []) :
    Accounts request (targets.map Peer.name) [] (awaiting id targets message) where
  records := fanOut_records id message hnodup
  earliest _ hreceipt := by cases hreceipt
  waits _ := ⟨rfl, rfl⟩
  decided hclosed := by
    obtain ⟨first, hfirst⟩ := List.exists_mem_of_ne_nil _ hne
    exact absurd ⟨by simp, first.name, List.mem_map_of_mem hfirst, rfl⟩ hclosed

private theorem accounts_hearAll (hnodup : (targets.map Peer.name).Nodup) (hne : targets ≠ [])
    (heard : List Hearing) (hexternal : ∀ hearing ∈ heard, hearing.input.isExternal = true) :
    Accounts request (targets.map Peer.name) (heard.map Hearing.input)
      (hearAll host request id (awaiting id targets message) heard) := by
  induction heard using List.reverseRecOn with
  | nil => exact accounts_awaiting request id message hnodup hne
  | append_singleton earlier hearing ih =>
      have hearlier := ih fun other hother => hexternal other (List.mem_append_left _ hother)
      rw [hearAll, List.foldl_append, List.map_append]
      exact hearlier.hear hnodup (hexternal hearing (by simp))

/-- The targets' verdicts decide when the wait ends, where the replication ends, and what it brings;
nothing else that is heard matters. -/
theorem classification_exact (hnodup : (targets.map Peer.name).Nodup) (hne : targets ≠ [])
    (heard : List Hearing) (hexternal : ∀ hearing ∈ heard, hearing.input.isExternal = true) :
    let names := targets.map Peer.name
    let inputs := heard.map Hearing.input
    let run := hearAll host request id (awaiting id targets message) heard
    (run.state = .waiting ↔
      .timeout ∉ inputs ∧ ∃ name ∈ names, verdict? request inputs name = none) ∧
    (run.state ≠ .waiting → run.queue = if run.state = .error then [] else [.input .settle]) ∧
    (run.state ≠ .waiting → ∀ roster now,
      let final := (run.feed (automaton host request id) roster now .settle).1.state
      final.isTerminal = true ∧ Classified names (verdict? request inputs) final ∧
        ∀ receipt, final.receipt? = some receipt → EarliestAck request names inputs receipt) ∧
    (∀ hearing name, hearing.input.subject? = some name →
      (name ∉ names ∨ verdict? request inputs name ≠ none) →
        hear host request id run hearing = run) := by
  intro names inputs run
  have haccounts : Accounts request names inputs run :=
    accounts_hearAll host request id message hnodup hne heard hexternal
  have hclosed : run.state ≠ .waiting → ¬IsOpen request names inputs :=
    fun hstate hopen => hstate (haccounts.waits hopen).1
  refine ⟨⟨?_, fun hopen => (haccounts.waits hopen).1⟩, ?_, ?_, ?_⟩
  · intro hstate
    by_contra hdecided
    have hconclusion := (haccounts.decided hdecided).1
    rcases conclusion_cases names (verdict? request inputs) with h | h | h | h <;>
      simp [hstate, h] at hconclusion
  · exact fun hstate => (haccounts.decided (hclosed hstate)).2
  · intro hstate roster now final
    have hfinal : final = (react host request id roster run.memory
        (conclusion names (verdict? request inputs)) .settle).state := by
      rw [← (haccounts.decided (hclosed hstate)).1]
      rfl
    have hend := settle_conclusion_final host request id roster run.memory names
      (verdict? request inputs)
    rw [hfinal]
    refine ⟨hend.1, ?_, fun receipt hreceipt =>
      haccounts.earliest receipt (hend.2 receipt hreceipt)⟩
    exact haccounts.records.settle_conclusion (by simpa [names] using hne) host request id roster
  · intro hearing name hsubject hname
    exact congrArg Prod.fst
      (haccounts.feed_unrelated hearing.roster hearing.now hsubject hname)

/-- One of three targets acknowledges twice, one does not hold the key, a stranger acknowledges, and
the third target stays silent. -/
theorem classification_exact_of_mixed_replies :
    let host : Host := ⟨"a", {}⟩
    let request : Request := .load [7] .two
    let targets := ["a", "b", "c"].map fun name => (⟨name, .localhost 9991, 1⟩ : Peer)
    let reply := fun (name : String) (verb : UInt8) (value : Bytes) => Input.reply
      { (host.request .load verb) with
        replyTo := name, payload := Entry.written { key := [7], value } }
    let heard := [reply "b" Verb.getNack [], reply "x" Verb.getAck [1], reply "a" Verb.getAck [2],
      reply "a" Verb.getAck [3], .timeout, reply "c" Verb.getAck [4]].map fun input =>
        (⟨{}, 0, input⟩ : Hearing)
    let run := hearAll host request 5 (awaiting 5 targets (host.request .load Verb.get)) heard
    let final := (run.feed (automaton host request 5) {} 0 .settle).1.state
    Classified ["a", "b", "c"] (verdict? request (heard.map Hearing.input)) final ∧
      final = .partialSuccess (.found [2]) := by
  intro host request targets reply heard run final
  have hnodup : (targets.map Peer.name).Nodup := by decide
  have hexact := classification_exact host request 5 (host.request .load Verb.get) hnodup
    (by decide) heard (by decide)
  exact ⟨(hexact.2.2.1 (by decide +kernel) {} 0).2.1, by decide +kernel⟩

end Run

end Replication

end ReplicaRing
