import ReplicaRing.Proofs.Fleet.Receipts
import ReplicaRing.Proofs.Fleet.Reliability

/-! What loads find whose targets all answer. -/

namespace ReplicaRing.Fleet.Execution

open Replication (Tally State Standing)

variable {Member S : Type} [DecidableEq Member] [Storage S] {e : Execution Member S}
  {time since : Nat} {member server : Member} {index : Nat} {id : UInt64}
  {run : Run Tally State Replication.Input} {targets : List Peer} {peer : Peer} {key : Bytes}
  {level : Level}

def Keeps (e : Execution Member S) (time : Nat) (peer : Peer) (key : Bytes) (held : Option Bytes) :
    Prop :=
  ∃ server, e.Plays server peer ∧ e.Holds time server key held

theorem Plays.eq {other : Member} (h : e.Plays server peer) (hlawful : e.Lawful)
    (hname : (e.host other).name = peer.name) : other = server :=
  hlawful.names (hname.trans h.name.symm)

theorem Keeps.eq {held other : Option Bytes} (h : e.Keeps time peer key held) (hlawful : e.Lawful)
    (hother : e.Keeps time peer key other) : held = other := by
  obtain ⟨server, hplays, hholds⟩ := h
  obtain ⟨second, hsecond, hothers⟩ := hother
  obtain rfl := hplays.eq hlawful hsecond.name
  exact hholds.eq hothers

theorem Tended.puts {value : Bytes} (h : e.Tended member index (.store key value level))
    (hlawful : e.Lawful)
    (hoperation : e.operation? time member index =
      some (.replication (.store key value level) id run)) (hover : run.isOver = true) :
    ∃ fanOut targets, e.FansOut fanOut member index targets ∧
      ∀ peer ∈ targets, e.Within fanOut time peer fun server moment =>
        e.Puts moment server member index key value := by
  obtain ⟨fanOut, targets, standing, -, hfansOut, -, hjustified, hreplies⟩ :=
    h.replies hlawful hoperation hover
  refine ⟨fanOut, targets, hfansOut, fun peer hpeer => ?_⟩
  obtain ⟨vote, hvote⟩ := hreplies peer hpeer
  obtain ⟨server, moment, reply, hafter, hbefore, hname, hanswered, -⟩ :=
    hjustified peer.name vote hvote
  exact ⟨server, moment, hname, hafter, hbefore,
    hanswered.puts hlawful hoperation (Nat.le_of_lt hbefore)⟩

/-- The first target whose acknowledgement an operation counts, and what it had. -/
def FindsFirst (e : Execution Member S) (since : Nat) (member : Member) (index : Nat)
    (targets : List Peer) (key value : Bytes) : Prop :=
  ∃ moment server, ∃ peer ∈ targets, e.AcksFirst moment member index server (.found value) ∧
    e.Plays server peer ∧ e.Holds since server key (some value)

/-- A load whose targets have all answered, and have had the same under its key all along. -/
structure Concluded (e : Execution Member S) (since time : Nat) (member : Member) (index : Nat)
    (key : Bytes) (level : Level) (targets : List Peer)
    (run : Run Tally State Replication.Input) : Prop where
  tended : e.Tended member index (.load key level)
  plays : ∀ peer ∈ targets, ∃ server, e.Plays server peer
  fansOut : ∃ fanOut, e.FansOut fanOut member index targets
  new : e.operation? since member index = none
  operation : ∃ id, e.operation? time member index = some (.replication (.load key level) id run)
  isOver : run.isOver = true
  same : ∀ moment server, since ≤ moment → moment ≤ time →
    Storage.get (e.node moment server).storage key = Storage.get (e.node since server).storage key

namespace Concluded

variable (h : e.Concluded since time member index key level targets run) (hlawful : e.Lawful)

include h hlawful

private theorem votes : ∃ standing, run.memory.Records (targets.map Peer.name) standing ∧
    ∀ peer ∈ targets,
      (∀ value, e.Keeps since peer key (some value) → (standing peer.name).isAck = true) ∧
        (e.Keeps since peer key none → (standing peer.name).isNack = true) := by
  obtain ⟨id, hoperation⟩ := h.operation
  obtain ⟨fanOut, peers, standing, -, hfansOut, hrecords, hjustified, hreplies⟩ :=
    h.tended.replies hlawful hoperation h.isOver
  obtain ⟨other, hother⟩ := h.fansOut
  obtain ⟨rfl, rfl⟩ := hother.unique hfansOut hlawful
  refine ⟨standing, hrecords, fun peer hpeer => ?_⟩
  obtain ⟨vote, hvote⟩ := hreplies peer hpeer
  obtain ⟨server, moment, answer, hafter, hbefore, hname, hanswered, hclassify⟩ :=
    hjustified peer.name vote hvote
  obtain ⟨player, hplays⟩ := h.plays peer hpeer
  obtain rfl := hplays.eq hlawful hname
  have hsince : since ≤ moment :=
    Nat.le_of_lt (Nat.lt_of_le_of_lt (hfansOut.le_of_new h.new) hafter)
  have hsame := h.same moment server hsince (Nat.le_of_lt hbefore)
  rcases hanswered.holds hoperation (Nat.le_of_lt hbefore) with
    ⟨value, hheld, hfound⟩ | ⟨hlacks, hnack⟩
  · have hkept : e.Keeps since peer key (some value) := ⟨server, hplays, hsame.symm.trans hheld⟩
    refine ⟨fun _ _ => ?_, fun hnone => by cases hkept.eq hlawful hnone⟩
    rw [hvote, ← hclassify, hfound]
    rfl
  · have hkept : e.Keeps since peer key none := ⟨server, hplays, hsame.symm.trans hlacks⟩
    refine ⟨fun other hother => (by cases hkept.eq hlawful hother), fun _ => ?_⟩
    rw [hvote, ← hclassify, hnack]
    rfl

private theorem findsFirst {receipt : Receipt} (hreceipt : run.memory.receipt = some receipt) :
    ∃ value, receipt = .found value ∧ e.FindsFirst since member index targets key value := by
  obtain ⟨id, hoperation⟩ := h.operation
  obtain ⟨moment, server, hmoment, hfirst⟩ := exists_acksFirst hlawful hoperation hreceipt
  obtain ⟨request, number, before, after, message, rest, earlier, hbefore, hwaiting, hnobody, hqueue,
    hpending, hvote, hearlier, hanswered, hafter, hacks⟩ := hfirst
  obtain ⟨later, hlater⟩ := replication?_mono hbefore (Nat.le_of_lt hmoment)
  rw [hoperation] at hlater
  cases hlater
  obtain ⟨fanOut, hfansOut⟩ := h.fansOut
  have hlt := hfansOut.lt_of_answered hanswered
  have hstage := stage hlawful hbefore
  cases hstage with
  | unsent hunsent =>
      exact absurd (hfansOut.isSent hlawful (Nat.lt_trans hlt hearlier) hbefore) hunsent
  | failed herror => cases hwaiting.symm.trans herror
  | sent other peers standing _ _ hother hsettles =>
      obtain ⟨rfl, rfl⟩ := hfansOut.unique hother hlawful
      obtain ⟨hname, -⟩ := hsettles.records.mem_pending.mp hpending
      obtain ⟨peer, hpeer, hname⟩ := List.mem_map.mp hname
      obtain ⟨player, hplays⟩ := h.plays peer hpeer
      obtain rfl := hplays.eq hlawful (hanswered.replyTo_eq.symm.trans hname.symm)
      have hsame := h.same earlier server
        (Nat.le_of_lt (Nat.lt_of_le_of_lt (hfansOut.le_of_new h.new) hlt))
        (Nat.le_of_lt (Nat.lt_trans hearlier hmoment))
      rcases hanswered.holds hoperation (Nat.le_of_lt (Nat.lt_trans hearlier hmoment)) with
        ⟨value, hheld, hfound⟩ | ⟨-, hnack⟩
      · rw [hvote] at hfound
        cases hfound
        exact ⟨value, rfl, moment, server, peer, hpeer,
          ⟨_, _, before, after, message, rest, earlier, hbefore, hwaiting, hnobody, hqueue, hpending,
            hvote, hearlier, hanswered, hafter, hacks⟩, hplays, hsame.symm.trans hheld⟩
      · rw [hvote] at hnack
        cases hnack

private theorem terminal :
    run.memory.acks = 0 ∧ run.state = .failure run.memory.nacks run.memory.targets ∨
      run.memory.acks = run.memory.targets ∧
        (∃ receipt, run.memory.receipt = some receipt ∧ run.state = .success receipt) ∨
      run.memory.acks ≠ run.memory.targets ∧ 0 < run.memory.acks ∧
        ∃ receipt, run.memory.receipt = some receipt ∧ run.state = .partialSuccess receipt := by
  obtain ⟨id, hoperation⟩ := h.operation
  exact (h.tended.unhindered hlawful hoperation).tells.terminal
    ((orderly hlawful hoperation).final h.isOver)

theorem eq_failure (hnone : ∀ peer ∈ targets, e.Keeps since peer key none) :
    run.state = .failure targets.length targets.length := by
  obtain ⟨standing, hrecords, hvotes⟩ := h.votes hlawful
  have hnack : ∀ name ∈ targets.map Peer.name, (standing name).isNack = true := by
    intro name hname
    obtain ⟨peer, hpeer, rfl⟩ := List.mem_map.mp hname
    exact (hvotes peer hpeer).2 (hnone peer hpeer)
  have hacks : ¬0 < run.memory.acks := by
    rw [hrecords.acks_pos]
    rintro ⟨name, hname, hack⟩
    rw [Standing.isNack_eq_true.mp (hnack name hname)] at hack
    cases hack
  have hnacks : run.memory.nacks = targets.length := by
    rw [hrecords.nacks, List.countP_eq_length.mpr hnack, List.length_map]
  have htargets : run.memory.targets = targets.length := by
    rw [hrecords.targets, List.length_map]
  obtain ⟨fanOut, hfansOut⟩ := h.fansOut
  have hpos := List.length_pos_of_ne_nil hfansOut.ne_nil
  rcases h.terminal hlawful with ⟨-, hstate⟩ | ⟨hall, -⟩ | ⟨-, hsome, -⟩
  · rw [hstate, hnacks, htargets]
  · omega
  · exact absurd hsome hacks

theorem eq_success
    (hall : ∀ peer ∈ targets, ∃ value, e.Keeps since peer key (some value)) :
    ∃ value, run.state = .success (.found value) ∧
      e.FindsFirst since member index targets key value := by
  obtain ⟨standing, hrecords, hvotes⟩ := h.votes hlawful
  have hacks : run.memory.acks = run.memory.targets := by
    rw [hrecords.acks_eq_targets]
    intro name hname
    obtain ⟨peer, hpeer, rfl⟩ := List.mem_map.mp hname
    obtain ⟨value, hvalue⟩ := hall peer hpeer
    exact (hvotes peer hpeer).1 value hvalue
  have htargets : run.memory.targets = targets.length := by
    rw [hrecords.targets, List.length_map]
  obtain ⟨fanOut, hfansOut⟩ := h.fansOut
  have hpos := List.length_pos_of_ne_nil hfansOut.ne_nil
  rcases h.terminal hlawful with
    ⟨hnobody, -⟩ | ⟨-, receipt, hreceipt, hstate⟩ | ⟨hnotAll, -⟩
  · omega
  · obtain ⟨value, rfl, hfirst⟩ := h.findsFirst hlawful hreceipt
    exact ⟨value, hstate, hfirst⟩
  · exact absurd hacks hnotAll

theorem eq_partialSuccess (hlacks : ∃ peer ∈ targets, e.Keeps since peer key none)
    (hhas : ∃ peer ∈ targets, ∃ value, e.Keeps since peer key (some value)) :
    ∃ value, run.state = .partialSuccess (.found value) ∧
      e.FindsFirst since member index targets key value := by
  obtain ⟨standing, hrecords, hvotes⟩ := h.votes hlawful
  have hnotAll : run.memory.acks ≠ run.memory.targets := by
    intro heq
    obtain ⟨peer, hpeer, hnone⟩ := hlacks
    have hack := hrecords.acks_eq_targets.mp heq peer.name (List.mem_map_of_mem hpeer)
    rw [Standing.isNack_eq_true.mp ((hvotes peer hpeer).2 hnone)] at hack
    cases hack
  have hsome : 0 < run.memory.acks := by
    rw [hrecords.acks_pos]
    obtain ⟨peer, hpeer, value, hvalue⟩ := hhas
    exact ⟨peer.name, List.mem_map_of_mem hpeer, (hvotes peer hpeer).1 value hvalue⟩
  rcases h.terminal hlawful with
    ⟨hnobody, -⟩ | ⟨hall, -⟩ | ⟨-, -, receipt, hreceipt, hstate⟩
  · omega
  · exact absurd hall hnotAll
  · obtain ⟨value, rfl, hfirst⟩ := h.findsFirst hlawful hreceipt
    exact ⟨value, hstate, hfirst⟩

end Concluded

end ReplicaRing.Fleet.Execution
