import ReplicaRing.Proofs.Fleet.Progress

/-! Clients that get their turns, from one wait to the next. -/

namespace ReplicaRing.Fleet.Execution

open Replication (Tally State)
open Simulation (Answer Session)

variable {Member S : Type} [DecidableEq Member] [Storage S] {e : Execution Member S}
  {time later since turn caller : Nat} {client : Caller Member} {member : Member} {index : Nat}
  {request : Request} {id : UInt64} {session : Session Answer} {program : Exchanges Answer}

def Going (e : Execution Member S) (time caller : Nat) : Prop :=
  ∀ client, (e.after time).callers[caller]? = some client → client.session.result? = none

def Made (e : Execution Member S) (time caller : Nat) (member : Member) (index : Nat) : Prop :=
  ∃ earlier client next, earlier ≤ time ∧ (e.after earlier).callers[caller]? = some client ∧
    client.member = member ∧ client.session = .replicating index next

/-- What a session waits for has come, and it can go on with the rest of its program. -/
inductive Ready (e : Execution Member S) (time : Nat) (member : Member) :
    Session Answer → Exchanges Answer → Prop
  | replicated (index : Nat) (next : State → Exchanges Answer) (request : Request) (id : UInt64)
      (run : Run Tally State Replication.Input)
      (hoperation : e.operation? time member index = some (.replication request id run))
      (hover : run.isOver = true) : Ready e time member (.replicating index next) (next run.state)
  | pinged (index : Nat) (next : Ping.State → Exchanges Answer) (target : String) (id : UInt64)
      (run : Run Ping.Memory Ping.State Ping.Input)
      (hoperation : e.operation? time member index = some (.ping target id run))
      (hover : run.isOver = true) : Ready e time member (.pinging index next) (next run.state)
  | rested (till : Nat) (next : Exchanges Answer) (htill : till ≤ (e.after time).now) :
      Ready e time member (.pausing till next) next

private theorem Ready.resume (h : e.Ready time member session program) :
    (e.after time).resume member session = (e.after time).proceed member program := by
  cases h with
  | replicated index next request id run hoperation hover =>
      rw [operation?, node] at hoperation
      simp only [Fleet.resume, hoperation, if_pos hover]
  | pinged index next target id run hoperation hover =>
      rw [operation?, node] at hoperation
      simp only [Fleet.resume, hoperation, if_pos hover]
  | rested till next htill => exact if_pos htill

theorem Ready.result? (h : e.Ready time member session program) : session.result? = none := by
  cases h <;> rfl

theorem ready_or_waits (e : Execution Member S) (time : Nat) (member : Member)
    (session : Session Answer) : (∃ program, e.Ready time member session program) ∨
      (e.after time).resume member session = (session, e.after time) := by
  cases session with
  | replicating index next =>
      rw [Fleet.resume]
      split
      case h_1 request id run hoperation =>
        split
        case isTrue hover => exact .inl ⟨_, .replicated index next request id run hoperation hover⟩
        case isFalse => exact .inr rfl
      case h_2 => exact .inr rfl
  | pinging index next =>
      rw [Fleet.resume]
      split
      case h_1 target id run hoperation =>
        split
        case isTrue hover => exact .inl ⟨_, .pinged index next target id run hoperation hover⟩
        case isFalse => exact .inr rfl
      case h_2 => exact .inr rfl
  | pausing till next =>
      rw [Fleet.resume]
      split
      case isTrue htill => exact .inl ⟨next, .rested till next htill⟩
      case isFalse => exact .inr rfl
  | ended => exact .inr rfl

def Idle (e : Execution Member S) (since later caller : Nat) (client : Caller Member) : Prop :=
  ∀ time, since ≤ time → time ≤ later → (e.after time).callers[caller]? = some client

structure Proceeds (e : Execution Member S) (turn caller : Nat) (client : Caller Member)
    (program : Exchanges Answer) : Prop where
  action : e.schedule turn = .resume caller
  ready : e.Ready turn client.member client.session program

theorem idle_or_proceeds (h : (e.after since).callers[caller]? = some client)
    (hle : since ≤ time) : e.Idle since time caller client ∨
      ∃ turn program, since ≤ turn ∧ turn < time ∧ e.Idle since turn caller client ∧
        e.Proceeds turn caller client program := by
  induction hle with
  | refl =>
      refine .inl fun moment hafter hbefore => ?_
      rwa [Nat.le_antisymm hbefore hafter]
  | @step time hle ih =>
      rcases ih with hidle | ⟨turn, program, hafter, hbefore, hrest⟩
      · have hhere := hidle time hle (Nat.le_refl time)
        have hstays : (e.after (time + 1)).callers[caller]? = some client →
            e.Idle since (time + 1) caller client := by
          intro hsame moment hafter hbefore
          rcases Nat.lt_or_eq_of_le hbefore with hlt | rfl
          · exact hidle moment hafter (Nat.le_of_lt_succ hlt)
          · exact hsame
        rcases caller_succ_of_some hhere with ⟨hsame, -⟩ | ⟨haction, hafter⟩
        · exact .inl (hstays hsame)
        · rcases e.ready_or_waits time client.member client.session with ⟨program, hready⟩ | hwaits
          · exact .inr ⟨time, program, hle, Nat.lt_succ_self time, hidle, haction, hready⟩
          · refine .inl (hstays ?_)
            rw [hafter, hwaits]
            obtain ⟨hlt, -⟩ := List.getElem?_eq_some_iff.mp hhere
            exact List.getElem?_set_self hlt
      · exact .inr ⟨turn, program, hafter, Nat.lt_succ_of_lt hbefore, hrest⟩

theorem exists_proceeds (h : (e.after since).callers[caller]? = some client)
    (hturns : ∀ time, (e.after time).callers[caller]? = some client →
      ∃ turn, time ≤ turn ∧ e.schedule turn = .resume caller)
    (hready : ∃ moment, ∀ time, moment ≤ time →
      ∃ program, e.Ready time client.member client.session program) :
    ∃ turn program, since ≤ turn ∧ e.Idle since turn caller client ∧
      e.Proceeds turn caller client program := by
  obtain ⟨moment, hready⟩ := hready
  rcases idle_or_proceeds h (Nat.le_max_left since moment) with
    hidle | ⟨turn, program, hafter, -, hrest⟩
  · obtain ⟨turn, hturn, haction⟩ := hturns _ (hidle _ (Nat.le_max_left ..) (Nat.le_refl _))
    have hsince : since ≤ turn := Nat.le_trans (Nat.le_max_left ..) hturn
    rcases idle_or_proceeds h hsince with hstill | ⟨early, program, hafter, -, hrest⟩
    · obtain ⟨program, hprogram⟩ := hready turn (Nat.le_trans (Nat.le_max_right ..) hturn)
      exact ⟨turn, program, hsince, hstill, haction, hprogram⟩
    · exact ⟨early, program, hafter, hrest⟩
  · exact ⟨turn, program, hafter, hrest⟩

namespace Proceeds

theorem after (h : e.Proceeds turn caller client program)
    (hclient : (e.after turn).callers[caller]? = some client) :
    e.after (turn + 1) = { ((e.after turn).proceed client.member program).2 with
      callers := (e.after turn).callers.set caller
        { client with session := ((e.after turn).proceed client.member program).1 } } := by
  rcases caller_succ_of_some hclient with ⟨-, hother⟩ | ⟨-, hafter⟩
  · exact absurd h.action hother
  · rw [hafter, h.ready.resume]

theorem callers (h : e.Proceeds turn caller client program)
    (hclient : (e.after turn).callers[caller]? = some client) :
    (e.after (turn + 1)).callers[caller]? =
      some { client with session := ((e.after turn).proceed client.member program).1 } := by
  obtain ⟨hlt, -⟩ := List.getElem?_eq_some_iff.mp hclient
  rw [h.after hclient]
  exact List.getElem?_set_self hlt

theorem replicate {next : State → Exchanges Answer}
    (h : e.Proceeds turn caller client (.ask (.replicate request) next))
    (hclient : (e.after turn).callers[caller]? = some client) :
    ∃ index id run, (e.after (turn + 1)).callers[caller]? =
        some { client with session := .replicating index next } ∧
      e.operation? turn client.member index = none ∧
      e.operation? (turn + 1) client.member index = some (.replication request id run) := by
  have hoperation : e.operation? (turn + 1) client.member
      (e.node turn client.member).operations.size =
        some (Operation.startReplication (e.node turn client.member).host (e.after turn).now request
          (e.node turn client.member).nextId) := by
    rw [operation?, node, h.after hclient]
    change (((e.after turn).setNode client.member _).nodes client.member).operations[_]? = _
    rw [setNode_nodes_self]
    exact (Node.getElem?_start _ _).trans (if_pos rfl)
  exact ⟨_, _, _, h.callers hclient, Array.getElem?_size, hoperation⟩

end Proceeds

end ReplicaRing.Fleet.Execution
