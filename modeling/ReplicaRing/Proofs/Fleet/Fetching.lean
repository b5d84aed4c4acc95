import ReplicaRing.Proofs.Fleet.Findings
import ReplicaRing.Proofs.Fleet.Sparing

/-! Loads up to the moment when their targets have been heard and they go on with what they found. -/

namespace ReplicaRing.Fleet.Execution

open Replication (Tally State Plans)
open Simulation (Answer Call)

variable {Member S : Type} [DecidableEq Member] [Storage S] {e : Execution Member S}
  {time later since turn caller : Nat} {client : Caller Member} {member server : Member}
  {index : Nat} {call : Call} {key other : Bytes} {level : Level} {roster : Roster}
  {targets : List Peer} {run : Run Tally State Replication.Input}

/-- A client calls for a load, and nobody else writes under its key until it has its answer. -/
structure Loads (e : Execution Member S) (since : Nat) (member : Member) (call : Call) (key : Bytes)
    (level : Level) : Prop where
  action : e.schedule since = .call member call
  load : call = .load key level ∨ call = .loadState key level
  spares : e.Spares since key (e.after since).callers.length

/-- The targets of a key are members whose storages work, and they can be asked for it. -/
structure Manned (e : Execution Member S) (roster : Roster) (key : Bytes) (level : Level)
    (targets : List Peer) : Prop where
  replicas : roster.replicas (.hash key) level = .ok targets
  works : ∀ peer ∈ targets, ∃ server, e.Plays server peer ∧
    ∀ time, Storage.Works (e.node time server).storage
  request : ({ key } : Entry).Fits

theorem Manned.tended_store {id : UInt64} {value : Bytes} (h : e.Manned roster key level targets)
    (hlawful : e.Lawful) (hagrees : e.Agrees roster) (hreliable : e.Reliable)
    (hfits : ({ key, value } : Entry).Fits)
    (hasked : e.operation? time member index =
      some (.replication (.store key value level) id run)) :
    e.Tended member index (.store key value level) := by
  refine hreliable.tended hagrees h.replicas hfits hasked fun message hplans peer hpeer => ?_
  obtain ⟨server, hplays, hworks⟩ := h.works peer hpeer
  exact ⟨server, hplays, fun time _ _ _ => hagrees.heeds_put hlawful hplans (hworks time)⟩

theorem Tended.proceeds {request : Request} {id : UInt64} {next : State → Exchanges Answer}
    (h : e.Tended member index request) (hlawful : e.Lawful) (hreliable : e.Reliable)
    (hwaits : (e.after since).callers[caller]? = some ⟨member, call, .replicating index next⟩)
    (hoperation : e.operation? since member index = some (.replication request id run)) :
    ∃ turn number last, since ≤ turn ∧
      e.Idle since turn caller ⟨member, call, .replicating index next⟩ ∧
      e.Proceeds turn caller ⟨member, call, .replicating index next⟩ (next last.state) ∧
      e.operation? turn member index = some (.replication request number last) ∧
      last.isOver = true := by
  obtain ⟨done, final, -, hfinal, hfinished⟩ := h.ends hlawful hoperation
  obtain ⟨turn, program, hturn, hidle, hproceeds⟩ := exists_proceeds hwaits
    (fun time hsame => hreliable.resumes time _ _ hsame rfl)
    ⟨done, fun time htime =>
      ⟨_, .replicated index next _ _ final (isOver_mono hfinal hfinished htime) hfinished⟩⟩
  have hready := hproceeds.ready
  cases hready with
  | replicated _ _ asked number last hlast hover =>
      cases request?_congr hlast hoperation
      exact ⟨turn, number, last, hturn, hidle, hproceeds, hlast, hover⟩

/-- The client of a load waits for the operation that it has made with some turn. -/
structure Fetching (e : Execution Member S) (since turn caller index : Nat)
    (client : Caller Member) (key : Bytes) (level : Level) : Prop where
  absent : ∀ time, time ≤ since → (e.after time).callers[caller]? = none
  called : ∀ time, since < time → time ≤ turn → ∃ waiting till next,
    (e.after time).callers[caller]? = some waiting ∧ waiting.session = .pausing till next
  waits : (e.after (turn + 1)).callers[caller]? = some client
  session : client.session =
    .replicating index (client.call.mend (e.host client.member) key level)
  past : since ≤ turn
  new : e.operation? turn client.member index = none
  asks : ∃ id run, e.operation? (turn + 1) client.member index =
    some (.replication (.load key level) id run)

private theorem Loads.called (h : e.Loads since member call key level) :
    (e.after (since + 1)).callers[(e.after since).callers.length]? =
      some ⟨member, call, .pausing (e.after since).now
        (call.program (e.host member) (e.roster since member))⟩ := by
  rw [after, h.action, step, List.getElem?_append_right (Nat.le_refl _), Nat.sub_self,
    ← e.host_node since member]
  rfl

private theorem Loads.fetching (h : e.Loads since member call key level) (hreliable : e.Reliable) :
    ∃ turn index, e.Fetching since turn (e.after since).callers.length index
      ⟨member, call, .replicating index (call.mend (e.host member) key level)⟩ key level := by
  have hclient := h.called
  rw [Call.program_load h.load] at hclient
  obtain ⟨turn, program, hturn, hidle, hproceeds⟩ := exists_proceeds hclient
    (fun time hsame => hreliable.resumes time _ _ hsame rfl)
    ⟨since, fun time htime => ⟨_, .rested _ _ (e.extends_after htime).now⟩⟩
  have hhere := hidle turn hturn (Nat.le_refl turn)
  obtain rfl : program = .ask (.replicate (.load key level)) (call.mend (e.host member) key level) := by
    have hready := hproceeds.ready
    cases hready
    rfl
  obtain ⟨index, id, run, hafter, hnew, hoperation⟩ := hproceeds.replicate hhere
  refine ⟨turn, index, fun time htime => ?_, fun time hafter hbefore => ?_, hafter, rfl,
    Nat.le_of_succ_le hturn, hnew, id, run, hoperation⟩
  · exact List.getElem?_eq_none (e.length_callers_mono htime)
  · exact ⟨_, _, _, hidle time hafter hbefore, rfl⟩

namespace Fetching

variable (h : e.Fetching since turn caller index client key level)

include h

private theorem request?_eq {operation : Operation}
    (hoperation : e.operation? time client.member index = some operation) :
    operation.request? = some (.load key level) := by
  obtain ⟨id, run, hasked⟩ := h.asks
  exact request?_congr hoperation hasked

variable (hidle : e.Idle (turn + 1) later caller client)

include hidle

private theorem going (hle : time ≤ later) : e.Going time caller := by
  intro waiting hwaiting
  rcases Nat.lt_or_ge since time with hsince | hearly
  · rcases Nat.lt_or_ge turn time with hturn | hbefore
    · rw [hidle time hturn hle] at hwaiting
      cases hwaiting
      rw [h.session]
      rfl
    · obtain ⟨called, till, next, hcalled, hsession⟩ := h.called time hsince hbefore
      rw [hcalled] at hwaiting
      cases hwaiting
      rw [hsession]
      rfl
  · rw [h.absent time hearly] at hwaiting
    cases hwaiting

private theorem made {asker : Member} {asked : Nat} (hmade : e.Made time caller asker asked)
    (hle : time ≤ later) : asker = client.member ∧ asked = index := by
  obtain ⟨earlier, waiting, next, hearlier, hwaiting, rfl, hsession⟩ := hmade
  rcases Nat.lt_or_ge since earlier with hsince | hearly
  · rcases Nat.lt_or_ge turn earlier with hturn | hbefore
    · rw [hidle earlier hturn (Nat.le_trans hearlier hle)] at hwaiting
      cases hwaiting
      rw [h.session] at hsession
      cases hsession
      exact ⟨rfl, rfl⟩
    · obtain ⟨called, till, rest, hcalled, hpauses⟩ := h.called earlier hsince hbefore
      rw [hcalled] at hwaiting
      cases hwaiting
      rw [hpauses] at hsession
      cases hsession
  · rw [h.absent earlier hearly] at hwaiting
    cases hwaiting

private theorem not_writes {value : Bytes} (hle : time ≤ later) :
    ¬e.Writes time caller other value := by
  rintro ⟨asker, asked, operation, level, hmade, hoperation, hrequest⟩
  obtain ⟨rfl, rfl⟩ := h.made hidle hmade hle
  rw [h.request?_eq hoperation] at hrequest
  cases hrequest

private theorem get_eq [LawfulStorage S] (hspares : e.Spares since other caller)
    (hsince : since ≤ time)
    (hle : time ≤ later) (server : Member) :
    Storage.get (e.node time server).storage other =
      Storage.get (e.node since server).storage other :=
  hspares.get_eq hsince (fun _ hlt => h.going hidle (Nat.le_trans (Nat.le_of_lt hlt) hle))
    (fun _ _ hlt => h.not_writes hidle (Nat.le_trans (Nat.le_of_lt hlt) hle)) server

omit hidle in
private theorem idle {operation : Operation} (hturn : turn < time)
    (hoperation : e.operation? time client.member index = some operation)
    (hover : operation.isOver = false) : e.Idle (turn + 1) time caller client := by
  rcases idle_or_proceeds h.waits hturn with hidle | ⟨early, program, -, hearly, -, hproceeds⟩
  · exact hidle
  · exfalso
    have hready := hproceeds.ready
    rw [h.session] at hready
    cases hready with
    | replicated _ _ request id run hrunning hdone =>
        have hstill := isOver_mono hrunning hdone (Nat.le_of_lt hearly)
        rw [hoperation] at hstill
        cases hstill
        rw [show run.isOver = false from hover] at hdone
        cases hdone

omit hidle in
private theorem tended [LawfulStorage S] (hlawful : e.Lawful) (hagrees : e.Agrees roster)
    (hreliable : e.Reliable) (hmanned : e.Manned roster key level targets)
    (hspares : e.Spares since key caller)
    (hfits : ∀ peer ∈ targets, ∀ value, e.Keeps since peer key (some value) →
      ({ key, value } : Entry).Fits) : e.Tended client.member index (.load key level) := by
  obtain ⟨id, first, hasked⟩ := h.asks
  refine hreliable.tended hagrees hmanned.replicas hmanned.request hasked ?_
  intro message hplans peer hpeer
  obtain ⟨server, hplays, hworks⟩ := hmanned.works peer hpeer
  refine ⟨server, hplays, fun time operation hoperation hover => ?_⟩
  obtain ⟨held, hheld⟩ := (hworks time).reads key
  have hturn : turn < time := lt_of_new h.new hoperation
  have hsame := h.get_eq (h.idle hturn hoperation hover) hspares
    (Nat.le_trans h.past (Nat.le_of_lt hturn)) (Nat.le_refl time) server
  refine hagrees.heeds_get hlawful hplans hheld fun value hvalue => ?_
  exact hfits peer hpeer value ⟨server, hplays, hsame.symm.trans (hvalue ▸ hheld)⟩

end Fetching

structure Fetched (e : Execution Member S) (since time caller index : Nat)
    (client : Caller Member) (key : Bytes) (level : Level) (targets : List Peer)
    (run : Run Tally State Replication.Input) : Prop where
  concluded : e.Concluded since time client.member index key level targets run
  waits : (e.after time).callers[caller]? = some client
  proceeds : e.Proceeds time caller client
    (client.call.mend (e.host client.member) key level run.state)
  past : since ≤ time
  made : ∀ earlier asker asked, earlier ≤ time → e.Made earlier caller asker asked →
    asker = client.member ∧ asked = index
  made_index : e.Made time caller client.member index
  quiet : ∀ moment other server, since ≤ moment → moment ≤ time → e.Spares since other caller →
    Storage.get (e.node moment server).storage other =
      Storage.get (e.node since server).storage other

theorem Loads.fetched [LawfulStorage S] (h : e.Loads since member call key level)
    (hlawful : e.Lawful) (hagrees : e.Agrees roster) (hreliable : e.Reliable)
    (hmanned : e.Manned roster key level targets)
    (hfits : ∀ peer ∈ targets, ∀ value, e.Keeps since peer key (some value) →
      ({ key, value } : Entry).Fits) :
    ∃ time index client run, client.member = member ∧ client.call = call ∧
      e.Fetched since time (e.after since).callers.length index client key level targets run := by
  obtain ⟨turn, index, hfetching⟩ := h.fetching hreliable
  obtain ⟨id, first, hasked⟩ := hfetching.asks
  have htended := hfetching.tended hlawful hagrees hreliable hmanned h.spares hfits
  obtain ⟨time, number, run, htime, hidle, hproceeds, hoperation, hover⟩ :=
    htended.proceeds hlawful hreliable hfetching.waits hasked
  have hquiet := fun other (hspares : e.Spares since other (e.after since).callers.length) moment
      (hafter : since ≤ moment) (hbefore : moment ≤ time) =>
    hfetching.get_eq hidle hspares hafter hbefore
  obtain ⟨fanOut, peers, -, -, hfansOut, -⟩ := htended.replies hlawful hoperation hover
  obtain rfl := hagrees.eq_replicas hoperation hmanned.replicas hfansOut
  refine ⟨time, index, ⟨member, call, .replicating index (call.mend (e.host member) key level)⟩,
    run, rfl, rfl, ?_⟩
  exact {
    concluded := {
      tended := htended
      plays := fun peer hpeer => (hmanned.works peer hpeer).imp fun _ => And.left
      fansOut := ⟨fanOut, hfansOut⟩
      new := new_anti hfetching.new hfetching.past
      operation := ⟨number, hoperation⟩
      isOver := hover
      same := fun moment server hafter hbefore =>
        hquiet key h.spares moment hafter hbefore server }
    waits := hidle time htime (Nat.le_refl time)
    proceeds := hproceeds
    past := Nat.le_trans hfetching.past (Nat.le_of_succ_le htime)
    made := fun earlier asker asked hle hmade => hfetching.made hidle hmade hle
    made_index := ⟨turn + 1, _, _, htime, hfetching.waits, rfl, rfl⟩
    quiet := fun moment other server hafter hbefore hspares =>
      hquiet other hspares moment hafter hbefore server }

end ReplicaRing.Fleet.Execution
