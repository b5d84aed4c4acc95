import ReplicaRing.Proofs.Client.Programs
import ReplicaRing.Proofs.Fleet.Operations

/-! Clients of a fleet carry out the programs of their calls, with operations of their own. -/

namespace ReplicaRing.Fleet

open Replication (Tally State)
open Simulation (Answer Session)

variable {Member S : Type} [DecidableEq Member]

namespace Execution

variable [Storage S] {e : Execution Member S} {time caller : Nat} {client : Caller Member}
  {member : Member} {index : Nat} {request : Request} {id : UInt64}

inductive Turn (e : Execution Member S) (time caller : Nat) : Caller Member → Prop
  | stay (client : Caller Member) (hbefore : (e.after time).callers[caller]? = some client) :
      Turn e time caller client
  | call (member : Member) (call : Simulation.Call) :
      Turn e time caller ⟨member, call, .pausing (e.after time).now
        (call.program (e.node time member).host (e.roster time member))⟩
  | resume (client : Caller Member) (hbefore : (e.after time).callers[caller]? = some client)
      (hnodes : ∀ member, e.node (time + 1) member =
        ((e.after time).resume client.member client.session).2.nodes member) :
      Turn e time caller
        { client with session := ((e.after time).resume client.member client.session).1 }

theorem caller_succ (h : (e.after (time + 1)).callers[caller]? = some client) :
    Turn e time caller client := by
  cases haction : e.schedule time with
  | call member call =>
      rw [after, haction, step, List.getElem?_append] at h
      split at h
      case isTrue => exact .stay client h
      case isFalse =>
        rw [List.getElem?_singleton] at h
        split at h
        · cases h
          exact .call member call
        · cases h
  | resume resumed =>
      have hafter : e.after (time + 1) = (e.after time).step (.resume resumed) := by
        rw [after, haction]
      rw [step] at hafter
      split at hafter
      case h_1 =>
        rw [hafter] at h
        exact .stay client h
      case h_2 waiting hwaiting =>
        have hnodes : ∀ member, e.node (time + 1) member =
            ((e.after time).resume waiting.member waiting.session).2.nodes member := by
          intro member
          rw [node, hafter]
        rw [hafter] at h
        simp only [List.getElem?_set] at h
        split at h
        case isTrue hcaller =>
          subst hcaller
          split at h
          · cases h
            exact .resume waiting hwaiting hnodes
          · cases h
        case isFalse => exact .stay client h
  | advance advanced operation =>
      rw [after, haction, step] at h
      split at h <;> exact .stay client h
  | transmit taken =>
      rw [after, haction, step] at h
      split at h
      · exact .stay client h
      · simp only [transmit] at h
        split at h <;> exact .stay client h
  | refuse taken =>
      rw [after, haction, step] at h
      split at h <;> exact .stay client h
  | deliver receiver datagram =>
      rw [after, haction, step] at h
      split at h <;> exact .stay client h
  | _ =>
      rw [after, haction] at h
      exact .stay client h

private theorem operation?_succ_of_isOver {run : Run Tally State Replication.Input}
    (h : e.operation? time member index = some (.replication request id run))
    (hover : run.isOver = true) :
    e.operation? (time + 1) member index = some (.replication request id run) := by
  obtain ⟨moved, hmoved, hmove⟩ := operation?_succ_of_some h
  rw [hmoved]
  cases hmove with
  | nothing => rfl
  | advance _ effects _ hadvance =>
      obtain ⟨-, -, hnotOver, -⟩ := Operation.advance_replication hadvance
      rw [hover] at hnotOver
      cases hnotOver
  | fail parcel => rw [Operation.sendFailed, Run.push_of_isOver _ hover]
  | reply datagram message => rw [Operation.reply, Run.push_of_isOver _ hover]

theorem isOver_mono {later : Nat} {run : Run Tally State Replication.Input}
    (h : e.operation? time member index = some (.replication request id run))
    (hover : run.isOver = true) (hle : time ≤ later) :
    e.operation? later member index = some (.replication request id run) := by
  induction hle with
  | refl => exact h
  | step _ ih => exact operation?_succ_of_isOver ih hover

theorem isOver_of_later {later : Nat} {run after : Run Tally State Replication.Input}
    (h : e.operation? time member index = some (.replication request id run))
    (hafter : e.operation? later member index = some (.replication request id after))
    (hle : time ≤ later) (hover : after.isOver = false) : run.isOver = false := by
  cases hdone : run.isOver with
  | false => rfl
  | true =>
      have hstill := isOver_mono h hdone hle
      rw [hafter] at hstill
      cases hstill
      rw [hdone] at hover
      cases hover

/-- A client has made an operation, which has ended in the given state. -/
structure Performed (e : Execution Member S) (time caller : Nat) (member : Member) (index : Nat)
    (request : Request) (state : State) : Prop where
  awaited : ∃ earlier client next, earlier ≤ time ∧
    (e.after earlier).callers[caller]? = some client ∧ client.member = member ∧
    client.session = .replicating index next
  finished : ∃ id run, e.operation? time member index = some (.replication request id run) ∧
    run.isOver = true ∧ run.state = state

private theorem Performed.succ {state : State}
    (h : e.Performed time caller member index request state) :
    e.Performed (time + 1) caller member index request state where
  awaited := by
    obtain ⟨earlier, client, next, hearlier, hrest⟩ := h.awaited
    exact ⟨earlier, client, next, Nat.le_succ_of_le hearlier, hrest⟩
  finished := by
    obtain ⟨id, run, hoperation, hover, hstate⟩ := h.finished
    exact ⟨id, run, operation?_succ_of_isOver hoperation hover, hover, hstate⟩

def Learns (e : Execution Member S) (time caller : Nat) (member : Member) :
    (exchange : Exchange) → exchange.Result → Prop
  | .replicate request, state => ∃ index, e.Performed time caller member index request state
  | _, _ => True

private theorem Learns.succ {exchange : Exchange} {result : exchange.Result}
    (h : e.Learns time caller member exchange result) :
    e.Learns (time + 1) caller member exchange result := by
  cases exchange with
  | replicate request =>
      obtain ⟨index, hperformed⟩ := h
      exact ⟨index, hperformed.succ⟩
  | _ => trivial

/-- A session is what is left of a program. -/
inductive Pursues (e : Execution Member S) (time caller : Nat) (member : Member)
    (program : Exchanges Answer) : Session Answer → Prop
  | replicating (index : Nat) (next : State → Exchanges Answer) (request : Request)
      (hleads : program.Leads (e.Learns time caller member) (.ask (.replicate request) next))
      (hasked : ∃ operation, e.operation? time member index = some operation ∧
        operation.request? = some request) :
      Pursues e time caller member program (.replicating index next)
  | pinging (index : Nat) (next : Ping.State → Exchanges Answer) (name : String)
      (hleads : program.Leads (e.Learns time caller member) (.ask (.ping name) next)) :
      Pursues e time caller member program (.pinging index next)
  | pausing (till : Nat) (next : Exchanges Answer)
      (hleads : program.Leads (e.Learns time caller member) next) :
      Pursues e time caller member program (.pausing till next)
  | ended (answer : Answer) (ended : Nat)
      (hleads : program.Leads (e.Learns time caller member) (.done answer)) :
      Pursues e time caller member program (.ended answer ended)

namespace Pursues

variable {program rest : Exchanges Answer} {session : Session Answer}

private theorem succ (h : e.Pursues time caller member program session) :
    e.Pursues (time + 1) caller member program session := by
  cases h with
  | replicating index next request hleads hasked =>
      refine .replicating index next request (hleads.mono fun _ _ => Learns.succ) ?_
      obtain ⟨operation, hoperation, hrequest⟩ := hasked
      obtain ⟨later, hlater, hsame⟩ := operation?_mono hoperation (Nat.le_succ time)
      exact ⟨later, hlater, hsame.trans hrequest⟩
  | pinging index next name hleads =>
      exact .pinging index next name (hleads.mono fun _ _ => Learns.succ)
  | pausing till next hleads => exact .pausing till next (hleads.mono fun _ _ => Learns.succ)
  | ended answer ended hleads => exact .ended answer ended (hleads.mono fun _ _ => Learns.succ)

private theorem proceed {fleet : Fleet Member S}
    (h : program.Leads (e.Learns time caller member) rest)
    (hnode : e.node time member = (fleet.proceed member rest).2.nodes member) :
    e.Pursues time caller member program (fleet.proceed member rest).1 := by
  cases rest with
  | done answer => exact .ended answer fleet.now h
  | ask exchange next =>
      cases exchange with
      | replicate request =>
          refine .replicating _ next request h ⟨Operation.startReplication
            (fleet.nodes member).host fleet.now request (fleet.nodes member).nextId, ?_, rfl⟩
          rw [operation?, hnode]
          change ((fleet.setNode member _).nodes member).operations[_]? = _
          rw [setNode_nodes_self]
          exact (Node.getElem?_start _ _).trans (if_pos rfl)
      | ping name => exact .pinging _ next name h
      | pause pause => exact .pausing _ (next ()) (h.answer trivial)

private theorem resume (h : e.Pursues time caller member program session)
    (hcaller : ∃ client, (e.after time).callers[caller]? = some client ∧
      client.member = member ∧ client.session = session)
    (hnode : e.node (time + 1) member =
      ((e.after time).resume member session).2.nodes member) :
    e.Pursues (time + 1) caller member program ((e.after time).resume member session).1 := by
  have hresumes := (e.after time).resume_cases member session
  generalize (e.after time).resume member session = resumed at hresumes hnode
  cases hresumes with
  | wait => exact h.succ
  | replicated index next request id run hsession hoperation hover =>
      subst hsession
      cases h.succ with
      | replicating _ _ asked hleads hasked =>
          have hafter : e.operation? (time + 1) member index =
              some (.replication request id run) := operation?_succ_of_isOver hoperation hover
          obtain ⟨operation, hlater, hrequest⟩ := hasked
          rw [hafter] at hlater
          cases hlater
          cases hrequest
          obtain ⟨client, hclient, hmember, hwaits⟩ := hcaller
          have hperformed : e.Performed (time + 1) caller member index request run.state :=
            ⟨⟨time, client, next, Nat.le_succ time, hclient, hmember, hwaits⟩,
              ⟨id, run, hafter, hover, rfl⟩⟩
          exact proceed (hleads.answer ⟨index, hperformed⟩) hnode
  | pinged index next state hsession =>
      subst hsession
      cases h.succ with
      | pinging _ _ name hleads => exact proceed (hleads.answer trivial) hnode
  | rested till next hsession =>
      subst hsession
      cases h.succ with
      | pausing _ _ hleads => exact proceed hleads hnode

end Pursues

private theorem pursues (hlawful : e.Lawful) (h : (e.after time).callers[caller]? = some client) :
    ∃ roster, e.Pursues time caller client.member
      (client.call.program (e.host client.member) roster) client.session := by
  induction time generalizing client with
  | zero =>
      have hnone : (e.after 0).callers = [] := hlawful.fresh.noCallers
      rw [hnone] at h
      cases h
  | succ time ih =>
      cases caller_succ h with
      | stay _ hbefore =>
          obtain ⟨roster, hpursues⟩ := ih hbefore
          exact ⟨roster, hpursues.succ⟩
      | call member call =>
          rw [e.host_node]
          exact ⟨e.roster time member, .pausing _ _ (.refl _)⟩
      | resume before hbefore hnodes =>
          obtain ⟨roster, hpursues⟩ := ih hbefore
          exact ⟨roster, hpursues.resume ⟨before, hbefore, rfl, rfl⟩ (hnodes before.member)⟩

theorem leads_of_ended (hlawful : e.Lawful) {answer : Answer} {ended : Nat}
    (h : (e.after time).callers[caller]? = some client)
    (hended : client.session = .ended answer ended) :
    ∃ roster, (client.call.program (e.host client.member) roster).Leads
      (e.Learns time caller client.member) (.done answer) := by
  obtain ⟨roster, hpursues⟩ := pursues hlawful h
  rw [hended] at hpursues
  cases hpursues with
  | ended _ _ hleads => exact ⟨roster, hleads⟩

end Execution

end ReplicaRing.Fleet
