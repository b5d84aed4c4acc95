import ReplicaRing.Proofs.Fleet.Finite
import ReplicaRing.Proofs.Fleet.Served
import ReplicaRing.Proofs.Fleet.Sessions

/-!
What clients are told is true: of the puts that the targets of a store have done, and of what the
targets of a load have held.
-/

namespace ReplicaRing.Fleet.Execution

open Replication (Tally State Standing)
open Simulation (Answer)

variable {Member S : Type} [DecidableEq Member] [Storage S] {e : Execution Member S}
  {time fanOut stop caller : Nat} {client : Caller Member} {member : Member} {index : Nat}
  {id : UInt64} {key value : Bytes} {level : Level}

/-- Something happened at a peer between two moments. -/
def Within (e : Execution Member S) (fanOut stop : Nat) (peer : Peer)
    (happened : Member → Nat → Prop) : Prop :=
  ∃ server moment, (e.host server).name = peer.name ∧ fanOut < moment ∧ moment < stop ∧
    happened server moment

namespace Justified

variable {standing : String → Standing} {peer : Peer} {run : Run Tally State Replication.Input}

private theorem puts (h : e.Justified fanOut stop member index (.store key value level) standing)
    (hlawful : e.Lawful)
    (hoperation : e.operation? stop member index =
      some (.replication (.store key value level) id run))
    (hack : (standing peer.name).isAck = true) :
    e.Within fanOut stop peer fun server moment => e.Puts moment server member index key value := by
  obtain ⟨receipt, hvote⟩ := Standing.isAck_eq_true.mp hack
  obtain ⟨server, moment, answer, hafter, hbefore, hname, hanswered, -⟩ := h peer.name _ hvote
  exact ⟨server, moment, hname, hafter, hbefore,
    hanswered.puts hlawful hoperation (Nat.le_of_lt hbefore)⟩

theorem found (h : e.Justified fanOut stop member index (.load key level) standing)
    (hoperation : e.operation? stop member index = some (.replication (.load key level) id run))
    {receipt : Receipt} (hvote : standing peer.name = some (.reply (some (.ack receipt)))) :
    ∃ held, receipt = .found held ∧
      e.Within fanOut stop peer fun server moment => e.Holds moment server key (some held) := by
  obtain ⟨server, moment, answer, hafter, hbefore, hname, hanswered, hclassify⟩ :=
    h peer.name _ hvote
  rcases hanswered.holds hoperation (Nat.le_of_lt hbefore) with
    ⟨held, hheld, hfound⟩ | ⟨-, hnack⟩
  · rw [hclassify] at hfound
    cases hfound
    exact ⟨held, rfl, server, moment, hname, hafter, hbefore, hheld⟩
  · rw [hclassify] at hnack
    cases hnack

theorem missing (h : e.Justified fanOut stop member index (.load key level) standing)
    (hoperation : e.operation? stop member index = some (.replication (.load key level) id run))
    (hvote : standing peer.name = some (.reply (some .nack))) :
    e.Within fanOut stop peer fun server moment => e.Holds moment server key none := by
  obtain ⟨server, moment, answer, hafter, hbefore, hname, hanswered, hclassify⟩ :=
    h peer.name _ hvote
  rcases hanswered.holds hoperation (Nat.le_of_lt hbefore) with
    ⟨held, -, hfound⟩ | ⟨hlacks, -⟩
  · rw [hclassify] at hfound
    cases hfound
  · exact ⟨server, moment, hname, hafter, hbefore, hlacks⟩

end Justified

/-- An operation that a client has made, from its fan-out to its end. -/
structure Spans (e : Execution Member S) (time caller : Nat) (member : Member) (index : Nat)
    (request : Request) (state : State) (fanOut stop : Nat) (targets : List Peer) : Prop where
  performed : e.Performed time caller member index request state
  fansOut : e.FansOut fanOut member index targets
  stops : e.Stops stop member index
  past : stop < time

theorem Performed.spans (hlawful : e.Lawful) {request : Request} {state : State}
    (h : e.Performed time caller member index request state) (hstate : state.outcome ≠ .error) :
    ∃ fanOut stop targets, e.Spans time caller member index request state fanOut stop targets ∧
      ∃ id run standing,
        e.operation? stop member index = some (.replication request id run) ∧
        state.Fits (targets.map Peer.name) standing ∧
        e.Justified fanOut stop member index request standing := by
  obtain ⟨id, run, hoperation, hover, rfl⟩ := h.finished
  obtain ⟨stop, before, hstop, hstops, hbefore, -, hsame⟩ :=
    stops_of_isOver hlawful hoperation hover
  have hstage := stage hlawful hbefore
  rw [hsame] at hstage
  cases hstage with
  | unsent hunsent =>
      refine absurd ⟨?_, ?_⟩ hunsent
      · intro hstart
        exact hstate (congrArg State.outcome hstart)
      · intro hsending
        exact hstate (congrArg State.outcome hsending)
  | failed hfailed => exact absurd (congrArg State.outcome hfailed) hstate
  | sent fanOut targets standing _ _ hfansOut hsettles hjustified =>
      exact ⟨fanOut, stop, targets, ⟨h, hfansOut, hstops, hstop⟩, id, before, standing, hbefore,
        hsettles.fits, hjustified⟩

/-- A store that is acknowledged was done by one of its targets, and one that succeeds by all. -/
theorem store_sound (hlawful : e.Lawful) {outcome : Outcome} {ended : Nat}
    (hclient : (e.after time).callers[caller]? = some client)
    (hcall : client.call = .store key value level)
    (hended : client.session = .ended (.outcome outcome) ended)
    (hacknowledged : outcome.isAcknowledged = true) :
    ∃ index state fanOut stop targets,
      e.Spans time caller client.member index (.store key value level) state fanOut stop targets ∧
      outcome = state.outcome ∧
      (∃ peer ∈ targets, e.Within fanOut stop peer fun server moment =>
        e.Puts moment server client.member index key value) ∧
      (outcome = .success → ∀ peer ∈ targets, e.Within fanOut stop peer fun server moment =>
        e.Puts moment server client.member index key value) := by
  obtain ⟨roster, hleads⟩ := leads_of_ended hlawful hclient hended
  rw [hcall] at hleads
  rcases Simulation.Call.leads_store hleads with herror | ⟨state, ⟨index, hperformed⟩, houtcome⟩
  · cases herror
    cases hacknowledged
  · cases houtcome
    have hstate : state.outcome ≠ .error := by
      intro herror
      rw [herror] at hacknowledged
      cases hacknowledged
    obtain ⟨fanOut, stop, targets, hspans, id, run, standing, hoperation, hfits, hjustified⟩ :=
      hperformed.spans hlawful hstate
    refine ⟨index, state, fanOut, stop, targets, hspans, rfl, ?_, ?_⟩
    · obtain ⟨receipt, hreceipt⟩ := State.exists_receipt hacknowledged
      obtain ⟨name, hname, hvote⟩ := hfits.acknowledged hreceipt
      obtain ⟨peer, hpeer, rfl⟩ := List.mem_map.mp hname
      exact ⟨peer, hpeer, hjustified.puts hlawful hoperation (by rw [hvote]; rfl)⟩
    · intro hsuccess peer hpeer
      exact hjustified.puts hlawful hoperation
        (hfits.success hsuccess peer.name (List.mem_map_of_mem hpeer))

theorem store_sound_of_one_target :
    let request := (((Pair.host false).request .store Verb.put).withRequestId 0).withPayload
      (Entry.written { key := [1], value := [2] })
    let e := ofList Pair.fleet (Pair.exchange (.store [1] [2] .zero) request
      ((Pair.host true).reply request Verb.putAck))
    ∃ index state fanOut stop targets,
      e.Spans 11 0 false index (.store [1] [2] .zero) state fanOut stop targets ∧
      state.outcome = .success ∧
      ∀ peer ∈ targets, e.Within fanOut stop peer fun server moment =>
        e.Puts moment server false index [1] [2] := by
  intro request e
  have htold : (e.after 11).callers[0]?.bind Caller.told? =
      some (false, .store [1] [2] .zero, .outcome .success, 0) := by decide +kernel
  obtain ⟨client, hclient, hclientTold⟩ := Option.bind_eq_some_iff.mp htold
  obtain ⟨hmember, hcall, hended⟩ := Caller.told?_eq_some hclientTold
  obtain ⟨index, state, fanOut, stop, targets, hspans, houtcome, -, hall⟩ :=
    store_sound (Pair.lawful _ (by decide) (by decide)) hclient hcall hended rfl
  rw [hmember] at hspans hall
  exact ⟨index, state, fanOut, stop, targets, hspans, houtcome.symm, hall rfl⟩

/-- What a load finds was held by one of its targets; when it succeeds, every target held something;
and when all refuse, every target lacked the key. -/
theorem load_sound (hlawful : e.Lawful) {answer : Answer} {ended : Nat}
    (hclient : (e.after time).callers[caller]? = some client)
    (hcall : client.call = .load key level ∨ client.call = .loadState key level)
    (hended : client.session = .ended answer ended) :
    ∃ index state, e.Performed time caller client.member index (.load key level) state ∧
      answer = client.call.report state ∧
      (state.outcome ≠ .error → ∃ fanOut stop targets,
        e.Spans time caller client.member index (.load key level) state fanOut stop targets ∧
        targets ≠ [] ∧
        (∀ receipt, state.receipt? = some receipt → ∃ held, receipt = .found held ∧
          ∃ peer ∈ targets, e.Within fanOut stop peer fun server moment =>
            e.Holds moment server key (some held)) ∧
        (state.outcome = .success → ∀ peer ∈ targets, ∃ held,
          e.Within fanOut stop peer fun server moment =>
            e.Holds moment server key (some held)) ∧
        (state.isAllNacked = true → ∀ peer ∈ targets,
          e.Within fanOut stop peer fun server moment => e.Holds moment server key none)) := by
  obtain ⟨roster, hleads⟩ := leads_of_ended hlawful hclient hended
  obtain ⟨state, ⟨index, hperformed⟩, hanswer⟩ := Simulation.Call.leads_load hcall hleads
  refine ⟨index, state, hperformed, hanswer, fun hstate => ?_⟩
  obtain ⟨fanOut, stop, targets, hspans, id, run, standing, hoperation, hfits, hjustified⟩ :=
    hperformed.spans hlawful hstate
  refine ⟨fanOut, stop, targets, hspans, hspans.fansOut.ne_nil, ?_, ?_, ?_⟩
  · intro receipt hreceipt
    obtain ⟨name, hname, hvote⟩ := hfits.acknowledged hreceipt
    obtain ⟨peer, hpeer, rfl⟩ := List.mem_map.mp hname
    obtain ⟨held, hfound, hwithin⟩ := hjustified.found hoperation hvote
    exact ⟨held, hfound, peer, hpeer, hwithin⟩
  · intro hsuccess peer hpeer
    have hack := hfits.success hsuccess peer.name (List.mem_map_of_mem hpeer)
    obtain ⟨receipt, hvote⟩ := Standing.isAck_eq_true.mp hack
    obtain ⟨held, -, hwithin⟩ := hjustified.found hoperation hvote
    exact ⟨held, hwithin⟩
  · intro hnacked peer hpeer
    have hnack := hfits.allNacked hnacked peer.name (List.mem_map_of_mem hpeer)
    exact hjustified.missing hoperation (Standing.isNack_eq_true.mp hnack)

theorem load_sound_of_one_target :
    let request := (((Pair.host false).request .load Verb.get).withRequestId 0).withPayload
      (Entry.written { key := [5] })
    let e := ofList Pair.fleet (Pair.exchange (.loadState [5] .zero) request
      (((Pair.host true).reply request Verb.getAck).withPayload
        (Entry.written { key := [5], value := [6] })))
    ∃ index fanOut stop targets,
      e.Spans 11 0 false index (.load [5] .zero) (.success (.found [6])) fanOut stop targets ∧
      ∃ peer ∈ targets, e.Within fanOut stop peer fun server moment =>
        e.Holds moment server [5] (some [6]) := by
  intro request e
  have htold : (e.after 11).callers[0]?.bind Caller.told? =
      some (false, .loadState [5] .zero, .state (.success (.found [6])), 0) := by decide +kernel
  obtain ⟨client, hclient, hclientTold⟩ := Option.bind_eq_some_iff.mp htold
  obtain ⟨hmember, hcall, hended⟩ := Caller.told?_eq_some hclientTold
  obtain ⟨index, state, hperformed, hanswer, hspan⟩ :=
    load_sound (Pair.lawful _ (by decide) (by decide)) hclient (.inr hcall) hended
  rw [hcall] at hanswer
  cases hanswer
  obtain ⟨fanOut, stop, targets, hspans, -, hfound, -, -⟩ := hspan nofun
  obtain ⟨held, hheld, hwithin⟩ := hfound _ rfl
  cases hheld
  rw [hmember] at hspans
  exact ⟨index, fanOut, stop, targets, hspans, hwithin⟩

end ReplicaRing.Fleet.Execution
