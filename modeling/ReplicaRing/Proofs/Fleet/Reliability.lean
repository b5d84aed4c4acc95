import ReplicaRing.Proofs.Fleet.Completion
import ReplicaRing.Proofs.Fleet.ReadBack

/-! Fleets whose members agree with each other, on a network that can be relied on. -/

namespace ReplicaRing

namespace Fleet.Execution

open Replication (Tally State plan Plans)

variable {Member S : Type} [DecidableEq Member] [Storage S] {e : Execution Member S}
  {time : Nat} {member server : Member} {index : Nat} {request : Request} {id : UInt64}
  {run : Run Tally State Replication.Input} {roster : Roster} {targets : List Peer}
  {message : Message} {key value : Bytes} {level : Level}

/-- All members have the same roster, with each of them in it, and speak the same version. -/
structure Agrees (e : Execution Member S) (roster : Roster) : Prop where
  rosters : ∀ time member, e.roster time member = roster
  members : ∀ member, ∃ peer, roster.find? (e.host member).name = some peer
  versions : ∀ server member,
    (e.host server).protocol.version = (e.host member).protocol.version
  names : ∀ member, (e.host member).HasFitName

/-- Nothing is lost, everything comes before the timeouts, and everybody gets their turns. -/
structure Reliable (e : Execution Member S) : Prop where
  accepts : ∀ time parcel, ¬e.Refuses time parcel
  exchanges : ∀ time, ∀ parcel ∈ (e.after time).outbox, ∃ later, e.Exchanged later parcel
  prompt : ∀ time member index request id run due input,
    e.operation? time member index = some (.replication request id run) →
    run.deadline = some (due, input) → due ≤ (e.after time).now →
    ∀ parcel ∈ (e.after time).outbox, parcel.sender = member → parcel.operation = index →
      e.Exchanged time parcel
  turns : ∀ time member index operation, e.operation? time member index = some operation →
    operation.isOver = false → ∃ turn, time ≤ turn ∧ e.schedule turn = .advance member index
  resumes : ∀ time caller client, (e.after time).callers[caller]? = some client →
    client.session.result? = none → ∃ turn, time ≤ turn ∧ e.schedule turn = .resume caller

namespace Agrees

variable (h : e.Agrees roster) (hlawful : e.Lawful)

include h hlawful

theorem heeds_get
    (hplans : Plans (e.host member) (.load key level) id roster targets message)
    {held : Option Bytes} (hheld : e.Holds time server key held)
    (hfits : ∀ value, held = some value → ({ key, value } : Entry).Fits) :
    e.Heeds time server member message := by
  intro datagram hencode
  obtain ⟨peer, hpeer⟩ := h.members member
  have haddress : peer.address = e.address member :=
    hlawful.rosters 0 server member peer (by rw [h.rosters]; exact hpeer)
  have hnode := e.host_node time server
  have hroster : (e.node time server).membership.roster = roster := h.rosters time server
  rw [Node.response, hnode, hroster, ← haddress]
  exact Server.receive_get (Message.decode_of_encode hencode)
    (hplans.version.trans (h.versions member server)) hplans.role hplans.entry (h.names server)
    (hplans.replyTo ▸ hpeer) hheld hfits

theorem heeds_put
    (hplans : Plans (e.host member) (.store key value level) id roster targets message)
    (hworks : Storage.Works (e.node time server).storage) :
    e.Heeds time server member message := by
  intro datagram hencode
  obtain ⟨peer, hpeer⟩ := h.members member
  have haddress : peer.address = e.address member :=
    hlawful.rosters 0 server member peer (by rw [h.rosters]; exact hpeer)
  have hnode := e.host_node time server
  have hroster : (e.node time server).membership.roster = roster := h.rosters time server
  obtain ⟨after, hput⟩ := hworks.writes key value
  rw [Node.response, hnode, hroster, ← haddress]
  exact Server.receive_put (Message.decode_of_encode hencode)
    (hplans.version.trans (h.versions member server)) hplans.role hplans.entry (h.names server)
    (hplans.replyTo ▸ hpeer) hput

end Agrees

theorem Agrees.eq_replicas {fanOut : Nat} {peers : List Peer} (h : e.Agrees roster)
    (hoperation : e.operation? time member index = some (.replication request id run))
    (hreplicas : roster.replicas (.hash request.key) request.level = .ok targets)
    (hfansOut : e.FansOut fanOut member index peers) : peers = targets := by
  have hpeers := hfansOut.replicas hoperation rfl
  rw [h.rosters, hreplicas] at hpeers
  exact (Except.ok.inj hpeers).symm

theorem Reliable.tended (h : e.Reliable) (hagrees : e.Agrees roster)
    (hreplicas : roster.replicas (.hash request.key) request.level = .ok targets)
    (hfits : request.entry.Fits)
    (hoperation : e.operation? time member index = some (.replication request id run))
    (hheeds : ∀ message, Plans (e.host member) request (e.requestId member index) roster targets
      message → ∀ peer ∈ targets, ∃ server, e.Plays server peer ∧ ∀ time operation,
        e.operation? time member index = some operation → operation.isOver = false →
        e.Heeds time server member message) :
    e.Tended member index request where
  versions := hagrees.versions
  plans time := by
    obtain ⟨message, hplan⟩ := Replication.exists_plan hreplicas hfits (hagrees.names member)
      (e.requestId member index)
    exact ⟨targets, message, by rw [hagrees.rosters, hplan]⟩
  heeds fanOut peers message hfansOut hplan := by
    obtain rfl := hagrees.eq_replicas hoperation hreplicas hfansOut
    rw [hagrees.rosters] at hplan
    exact hheeds message (Replication.plan_eq_ok hplan)
  accepts time parcel _ _ := h.accepts time parcel
  exchanges time parcel hparcel _ _ := h.exchanges time parcel hparcel
  prompt time id run due input := h.prompt time member index request id run due input
  turns time := h.turns time member index

end Fleet.Execution

end ReplicaRing
