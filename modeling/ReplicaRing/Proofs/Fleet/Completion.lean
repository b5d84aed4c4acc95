import ReplicaRing.Proofs.Fleet.Hearing

/-! Operations that are tended come to their ends, and have heard of all their targets then. -/

namespace ReplicaRing.Fleet.Execution

open Replication (Tally State Standing Noted Unhindered Orderly plan)

variable {Member S : Type} [DecidableEq Member] [Storage S] {e : Execution Member S}
  {time later : Nat} {member : Member} {index : Nat} {request : Request} {id : UInt64}
  {run : Run Tally State Replication.Input} {targets : List Peer}

private theorem exists_common {α : Type} {P : Nat → α → Prop}
    (hmono : ∀ few many x, P few x → few ≤ many → P many x) (all : List α)
    (h : ∀ x ∈ all, ∃ n, P n x) : ∃ n, ∀ x ∈ all, P n x := by
  induction all with
  | nil => exact ⟨0, nofun⟩
  | cons first rest ih =>
      obtain ⟨here, hhere⟩ := h first List.mem_cons_self
      obtain ⟨there, hthere⟩ := ih fun x hx => h x (List.mem_cons_of_mem _ hx)
      refine ⟨max here there, fun x hx => ?_⟩
      rcases List.mem_cons.mp hx with rfl | hx
      · exact hmono _ _ _ hhere (Nat.le_max_left ..)
      · exact hmono _ _ _ (hthere x hx) (Nat.le_max_right ..)

/-- An operation that the network and its targets do everything for. -/
structure Tended (e : Execution Member S) (member : Member) (index : Nat) (request : Request) :
    Prop where
  versions : ∀ server member,
    (e.host server).protocol.version = (e.host member).protocol.version
  plans : ∀ time, ∃ targets message,
    plan (e.host member) request (e.requestId member index) (e.roster time member) =
      .ok (targets, message)
  heeds : ∀ fanOut targets message, e.FansOut fanOut member index targets →
    plan (e.host member) request (e.requestId member index) (e.roster fanOut member) =
      .ok (targets, message) →
    ∀ peer ∈ targets, ∃ server, e.Plays server peer ∧ ∀ time operation,
      e.operation? time member index = some operation → operation.isOver = false →
      e.Heeds time server member message
  accepts : ∀ time parcel, parcel.sender = member → parcel.operation = index →
    ¬e.Refuses time parcel
  exchanges : ∀ time, ∀ parcel ∈ (e.after time).outbox, parcel.sender = member →
    parcel.operation = index → ∃ later, e.Exchanged later parcel
  /-- All is exchanged by the time the operation would give up. -/
  prompt : ∀ time id run due input,
    e.operation? time member index = some (.replication request id run) →
    run.deadline = some (due, input) → due ≤ (e.after time).now →
    ∀ parcel ∈ (e.after time).outbox, parcel.sender = member → parcel.operation = index →
      e.Exchanged time parcel
  turns : ∀ time operation, e.operation? time member index = some operation →
    operation.isOver = false → ∃ turn, time ≤ turn ∧ e.schedule turn = .advance member index

def Ends (e : Execution Member S) (time : Nat) (member : Member) (index : Nat) (request : Request)
    (id : UInt64) : Prop :=
  ∃ later run, time ≤ later ∧
    e.operation? later member index = some (.replication request id run) ∧ run.isOver = true

private theorem Ends.of_isOver
    (h : e.operation? time member index = some (.replication request id run))
    (hover : run.isOver = true) : e.Ends time member index request id :=
  ⟨time, run, Nat.le_refl time, h, hover⟩

private theorem Ends.anti (h : e.Ends later member index request id) (hle : time ≤ later) :
    e.Ends time member index request id := by
  obtain ⟨last, run, hlast, hrest⟩ := h
  exact ⟨last, run, Nat.le_trans hle hlast, hrest⟩

namespace Tended

variable (h : e.Tended member index request) (hlawful : e.Lawful)

include h hlawful

private theorem noted {fanOut : Nat} (hfansOut : e.FansOut fanOut member index targets)
    (hbefore : fanOut < time)
    (hoperation : e.operation? time member index = some (.replication request id run))
    (hover : run.isOver = false)
    (hexchanged : ∀ parcel ∈ (e.after (fanOut + 1)).outbox, parcel.sender = member →
      parcel.operation = index → e.Exchanged time parcel) :
    ∃ first, ∀ name, Noted first run name := by
  obtain ⟨message, hparcels⟩ := hfansOut.parcel (Nat.lt_succ_self fanOut)
  have hheard : ∀ peer ∈ targets, ∃ first, Noted first run peer.name := by
    intro peer hpeer
    have hparcel := (e.extends_after hbefore).outbox.subset (hparcels peer hpeer)
    obtain ⟨other, peers, -, hother, hplan⟩ := planned_of_mem_outbox hlawful hparcel hoperation
    obtain ⟨rfl, rfl⟩ := hfansOut.unique hother hlawful
    rw [show id = e.requestId member index from operation_id hlawful hoperation] at hplan
    obtain ⟨server, hplays, hheeds⟩ := h.heeds fanOut targets message hfansOut hplan peer hpeer
    refine (hexchanged _ (hparcels peer hpeer) rfl rfl).noted hlawful h.versions hparcel hplays
      hfansOut ?_ hoperation hover
    intro arrival harrival hasked
    obtain ⟨operation, hearlier, -⟩ := hasked
    obtain ⟨before, rfl⟩ := replication_of_later hearlier (Nat.le_of_lt harrival) hoperation
    exact hheeds arrival _ hearlier
      (isOver_of_later hearlier hoperation (Nat.le_of_lt harrival) hover)
  obtain ⟨first, hfirst⟩ := exists_common
    (fun few many (peer : Peer) (hfew : Noted few run peer.name) => hfew.mono) targets hheard
  refine ⟨first, fun name hstate hpending => ?_⟩
  have hstage := stage hlawful hoperation
  cases hstage with
  | unsent hunsent => exact absurd (hfansOut.isSent hlawful hbefore hoperation) hunsent
  | failed herror =>
      rw [hstate] at herror
      cases herror
  | sent other peers standing _ hlt hother hsettles _ =>
      obtain ⟨rfl, rfl⟩ := hfansOut.unique hother hlawful
      obtain ⟨hmem, -⟩ := hsettles.records.mem_pending.mp hpending
      obtain ⟨peer, hpeer, rfl⟩ := List.mem_map.mp hmem
      exact hfirst peer hpeer hstate hpending

private theorem next_ne_expire
    (hoperation : e.operation? time member index = some (.replication request id run))
    (input : Replication.Input) :
    run.next (Replication.automaton (e.host member) request id) (e.after time).now ≠
      .expire input := by
  intro hnext
  have hchooses := run.next_cases (Replication.automaton (e.host member) request id)
    (e.after time).now
  rw [hnext] at hchooses
  cases hchooses with
  | expire due _ hover _ hqueue hdeadline hdue =>
      have horderly := orderly hlawful hoperation
      have hphase := horderly.phase
      rw [hdeadline] at hphase
      have hwaiting := hphase.eq_waiting.1
      have hstage := stage hlawful hoperation
      rw [hwaiting] at hstage
      cases hstage with
      | unsent hunsent => exact hunsent .waiting
      | failed herror => cases herror
      | sent fanOut targets standing _ hbefore hfansOut =>
          -- At the deadline all has been exchanged, but nobody can be noted in an empty queue.
          obtain ⟨first, hnoted⟩ := h.noted hlawful hfansOut hbefore hoperation hover
            fun parcel hparcel => h.prompt time id run due input hoperation hdeadline hdue parcel
              ((e.extends_after hbefore).outbox.subset hparcel)
          refine Noted.ne_waiting horderly (fun name hstate hpending => ?_) hwaiting
          obtain ⟨message, hmessage, -⟩ := hnoted name hstate hpending
          rw [hqueue, List.take_nil] at hmessage
          cases hmessage

theorem unhindered
    (hoperation : e.operation? time member index = some (.replication request id run)) :
    Unhindered run := by
  induction time generalizing run with
  | zero =>
      rw [operation?_zero hlawful] at hoperation
      cases hoperation
  | succ time ih =>
      cases came_of_succ hoperation with
      | start now => exact .start _ request id now
      | stay _ hbefore => exact ih hbefore
      | fail before parcel hbefore hsender hindex hrefuses =>
          exact absurd hrefuses (h.accepts time parcel hsender hindex)
      | reply before datagram answer hbefore hdelivers => exact (ih hbefore).reply answer
      | move before _ effects hbefore _ _ hadvance =>
          have hplan := h.plans time
          rw [← operation_id hlawful hbefore] at hplan
          exact (ih hbefore).advance (orderly hlawful hbefore) hplan hadvance
            (h.next_ne_expire hlawful hbefore)

private theorem exists_move
    (hoperation : e.operation? time member index = some (.replication request id run))
    (hover : run.isOver = false) (hready : run.state = .waiting → run.queue ≠ []) :
    ∃ turn more after effects, time ≤ turn ∧
      ({ run with queue := run.queue ++ more }).advance
          (Replication.automaton (e.host member) request id) (e.roster turn member)
          (e.after turn).now = some (after, effects) ∧
      e.operation? turn member index =
        some (.replication request id { run with queue := run.queue ++ more }) ∧
      e.operation? (turn + 1) member index = some (.replication request id after) := by
  obtain ⟨turn, more, hle, haction, hturn⟩ :=
    exists_turn hoperation (h.turns time _ hoperation hover)
  rcases operation?_turn haction hturn with ⟨hwait, -⟩ | ⟨after, effects, hadvance, hafter⟩
  · exfalso
    have hphase := (orderly hlawful hturn).phase
    have hchooses := ({ run with queue := run.queue ++ more }).next_cases
      (Replication.automaton (e.host member) request id) (e.after turn).now
    rw [hwait] at hchooses
    cases hchooses with
    | rest hdone =>
        rw [show run.isOver = true from hdone] at hover
        cases hover
    | wait _ hterminal hqueue =>
        obtain ⟨hnone, -⟩ := List.append_eq_nil_iff.mp hqueue
        obtain ⟨memory, state, queue, senders, deadline, isOver⟩ := run
        generalize queue ++ more = whole at hphase hqueue
        cases hphase with
        | start => cases hqueue
        | sending => cases hqueue
        | waiting => exact hready rfl hnone
        | decided => simp at hqueue
        | final _ _ hstate => exact Bool.eq_false_iff.mp hterminal hstate
  · exact ⟨turn, more, after, effects, hle, hadvance, hturn, hafter⟩

private theorem ends_of_terminal
    (hoperation : e.operation? time member index = some (.replication request id run))
    (hterminal : run.state.isTerminal = true) :
    e.Ends time member index request id := by
  cases hover : run.isOver with
  | true => exact .of_isOver hoperation hover
  | false =>
      obtain ⟨turn, more, after, effects, hle, hadvance, -, hafter⟩ :=
        h.exists_move hlawful hoperation hover fun hwaiting => by
          rw [hwaiting] at hterminal
          cases hterminal
      refine ⟨turn + 1, after, Nat.le_succ_of_le hle, hafter, ?_⟩
      cases Run.advance_cases hadvance with
      | take _ _ _ hgoing => exact absurd hterminal (Bool.eq_false_iff.mp hgoing)
      | expire _ _ _ hgoing => exact absurd hterminal (Bool.eq_false_iff.mp hgoing)
      | stop => rfl

section Decided

variable {before rest : List (Command Replication.Input)}

private theorem exists_decided_move
    (hoperation : e.operation? time member index = some (.replication request id run))
    (hover : run.isOver = false) (hdecided : run.state.isDecided = true)
    (hqueue : run.queue = before ++ .input .settle :: rest)
    (hreports : Replication.Reports before) :
    ∃ moment more after, time ≤ moment ∧
      e.operation? moment member index = some (.replication request id after) ∧
      (before = [] ∧ after.state.isTerminal = true ∨
        ∃ first others, before = first :: others ∧ after.state = run.state ∧
          after.queue = others ++ .input .settle :: (rest ++ more)) := by
  obtain ⟨turn, more, after, effects, hle, hadvance, hturn, hafter⟩ :=
    h.exists_move hlawful hoperation hover fun _ => by simp [hqueue]
  have hwhole : run.queue ++ more = before ++ .input .settle :: (rest ++ more) := by
    rw [hqueue, List.append_assoc]
    rfl
  exact ⟨turn + 1, more, after, Nat.le_succ_of_le hle, hafter,
    (orderly hlawful hturn).advance_decided hdecided hwhole hreports hadvance⟩

private theorem ends_of_decided
    (hoperation : e.operation? time member index = some (.replication request id run))
    (hdecided : run.state.isDecided = true)
    (hqueue : run.queue = before ++ .input .settle :: rest)
    (hreports : Replication.Reports before) :
    e.Ends time member index request id := by
  induction before generalizing time run rest with
  | nil =>
      cases hover : run.isOver with
      | true => exact .of_isOver hoperation hover
      | false =>
          obtain ⟨moment, more, after, hle, hafter, ⟨-, hterminal⟩ | ⟨_, _, hcons, -⟩⟩ :=
            h.exists_decided_move hlawful hoperation hover hdecided hqueue hreports
          · exact (h.ends_of_terminal hlawful hafter hterminal).anti hle
          · cases hcons
  | cons first others ih =>
      cases hover : run.isOver with
      | true => exact .of_isOver hoperation hover
      | false =>
          obtain ⟨moment, more, after, hle, hafter, ⟨hnil, -⟩ | ⟨_, _, hcons, hstate, hrest⟩⟩ :=
            h.exists_decided_move hlawful hoperation hover hdecided hqueue hreports
          · cases hnil
          · cases hcons
            exact (ih hafter (hstate ▸ hdecided) hrest hreports.tail).anti hle

end Decided

private theorem ends_of_settling
    (hoperation : e.operation? time member index = some (.replication request id run))
    (hsent : run.state.IsSent) (hwaiting : run.state ≠ .waiting) :
    e.Ends time member index request id := by
  have hphase := (orderly hlawful hoperation).phase
  generalize hqueue : run.queue = queue at hphase
  generalize hstate : run.state = state at hphase hsent hwaiting
  generalize run.deadline = deadline at hphase
  cases hphase with
  | start => exact absurd rfl hsent.1
  | sending => exact absurd rfl hsent.2
  | waiting => exact absurd rfl hwaiting
  | decided _ before rest hdecided hreports =>
      exact h.ends_of_decided hlawful hoperation (hstate ▸ hdecided) hqueue hreports
  | final _ _ hterminal => exact h.ends_of_terminal hlawful hoperation (hstate ▸ hterminal)

private theorem ends_of_noted {first : Nat}
    (hoperation : e.operation? time member index = some (.replication request id run))
    (hsent : run.state.IsSent) (hnoted : ∀ name, Noted first run name) :
    e.Ends time member index request id := by
  -- Every move takes one from the beginning of the queue, where those who are pending are noted.
  induction first generalizing time run with
  | zero =>
      exact h.ends_of_settling hlawful hoperation hsent
        (Noted.ne_waiting (orderly hlawful hoperation) hnoted)
  | succ first ih =>
      by_cases hwaiting : run.state = .waiting
      case neg => exact h.ends_of_settling hlawful hoperation hsent hwaiting
      case pos =>
        cases hover : run.isOver with
        | true => exact .of_isOver hoperation hover
        | false =>
            have hqueue : run.queue ≠ [] := by
              intro hnone
              refine Noted.ne_waiting (orderly hlawful hoperation) (fun name hstate hpending => ?_)
                hwaiting
              obtain ⟨message, hmessage, -⟩ := hnoted name hstate hpending
              rw [hnone, List.take_nil] at hmessage
              cases hmessage
            obtain ⟨turn, more, after, effects, hle, hadvance, hturn, hafter⟩ :=
              h.exists_move hlawful hoperation hover fun _ => hqueue
            have hstill : ({ run with queue := run.queue ++ more }).state.IsSent := hsent
            refine (ih hafter (hstill.advance hadvance) fun name => ?_).anti (Nat.le_succ_of_le hle)
            exact ((hnoted name).append more).advance (orderly hlawful hturn) hstill hadvance

private theorem ends_of_sent
    (hoperation : e.operation? time member index = some (.replication request id run))
    (hsent : run.state.IsSent) :
    e.Ends time member index request id := by
  have hstage := stage hlawful hoperation
  cases hstage with
  | unsent hunsent => exact absurd hsent hunsent
  | failed herror =>
      exact h.ends_of_settling hlawful hoperation hsent fun hwaiting => by
        rw [herror] at hwaiting
        cases hwaiting
  | sent fanOut targets standing _ hbefore hfansOut =>
      -- The request has gone to finitely many targets: at some moment all of it has been exchanged.
      obtain ⟨done, hdone⟩ := exists_common
        (fun few many parcel (hfew : parcel.sender = member → parcel.operation = index →
          e.Exchanged few parcel) hle hsender hindex => (hfew hsender hindex).mono hle)
        (e.after (fanOut + 1)).outbox fun parcel hparcel => by
          by_cases hmine : parcel.sender = member ∧ parcel.operation = index
          · obtain ⟨later, hlater⟩ := h.exchanges _ parcel hparcel hmine.1 hmine.2
            exact ⟨later, fun _ _ => hlater⟩
          · exact ⟨0, fun hsender hindex => absurd ⟨hsender, hindex⟩ hmine⟩
      obtain ⟨after, hafter⟩ := replication?_mono hoperation (Nat.le_max_left time done)
      refine Ends.anti ?_ (Nat.le_max_left time done)
      cases hover : after.isOver with
      | true => exact .of_isOver hafter hover
      | false =>
          have hlt : fanOut < max time done := Nat.lt_of_lt_of_le hbefore (Nat.le_max_left ..)
          obtain ⟨first, hnoted⟩ := h.noted hlawful hfansOut hlt hafter hover
            fun parcel hparcel hsender hindex =>
              (hdone parcel hparcel hsender hindex).mono (Nat.le_max_right ..)
          exact h.ends_of_noted hlawful hafter (hfansOut.isSent hlawful hlt hafter) hnoted

private theorem exists_unsent_move
    (hoperation : e.operation? time member index = some (.replication request id run))
    (hover : run.isOver = false) (hunsent : ¬run.state.IsSent) :
    ∃ moment after, time ≤ moment ∧
      e.operation? moment member index = some (.replication request id after) ∧
      (run.state = .start ∧ after.state = .sending ∨
        run.state = .sending ∧ after.state = .waiting) := by
  obtain ⟨turn, more, after, effects, hle, hadvance, hturn, hafter⟩ :=
    h.exists_move hlawful hoperation hover fun hwaiting => by
      rw [hwaiting] at hunsent
      exact absurd .waiting hunsent
  have hplan := h.plans turn
  rw [← operation_id hlawful hturn] at hplan
  exact ⟨turn + 1, after, Nat.le_succ_of_le hle, hafter,
    (orderly hlawful hturn).advance_unsent hunsent hplan hadvance⟩

private theorem ends_of_sending
    (hoperation : e.operation? time member index = some (.replication request id run))
    (hsending : run.state = .sending) :
    e.Ends time member index request id := by
  cases hover : run.isOver with
  | true => exact .of_isOver hoperation hover
  | false =>
      obtain ⟨moment, after, hle, hafter, ⟨hstart, -⟩ | ⟨-, hwaiting⟩⟩ :=
        h.exists_unsent_move hlawful hoperation hover fun hsent => hsent.2 hsending
      · rw [hsending] at hstart
        cases hstart
      · exact (h.ends_of_sent hlawful hafter (hwaiting ▸ .waiting)).anti hle

theorem ends (hoperation : e.operation? time member index = some (.replication request id run)) :
    e.Ends time member index request id := by
  by_cases hsent : run.state.IsSent
  case pos => exact h.ends_of_sent hlawful hoperation hsent
  case neg =>
    cases hover : run.isOver with
    | true => exact .of_isOver hoperation hover
    | false =>
        obtain ⟨moment, after, hle, hafter, ⟨-, hsending⟩ | ⟨hsending, -⟩⟩ :=
          h.exists_unsent_move hlawful hoperation hover hsent
        · exact (h.ends_of_sending hlawful hafter hsending).anti hle
        · exact h.ends_of_sending hlawful hoperation hsending

theorem replies (hoperation : e.operation? time member index = some (.replication request id run))
    (hover : run.isOver = true) :
    ∃ fanOut targets standing, fanOut < time ∧ e.FansOut fanOut member index targets ∧
      run.memory.Records (targets.map Peer.name) standing ∧
      e.Justified fanOut time member index request standing ∧
      ∀ peer ∈ targets, ∃ vote, standing peer.name = some (.reply vote) := by
  have hterminal := (orderly hlawful hoperation).final hover
  have hunhindered := h.unhindered hlawful hoperation
  have hstage := stage hlawful hoperation
  cases hstage with
  | unsent hunsent => exact absurd (.of_isTerminal hterminal) hunsent
  | failed herror =>
      have htells := hunhindered.tells
      rw [herror] at htells
      cases htells
  | sent fanOut targets standing _ hbefore hfansOut hsettles hjustified =>
      refine ⟨fanOut, targets, standing, hbefore, hfansOut, hsettles.records, hjustified, ?_⟩
      intro peer hpeer
      have hname : peer.name ∈ targets.map Peer.name := List.mem_map_of_mem hpeer
      rcases hstanding : standing peer.name with _ | vote | _
      · have hpending := hsettles.records.mem_pending.mpr ⟨hname, hstanding⟩
        rw [hunhindered.tells.pending hterminal] at hpending
        cases hpending
      · exact ⟨vote, rfl⟩
      · have hfailed := hsettles.records.failed
        rw [hunhindered.failed, eq_comm, List.countP_eq_zero] at hfailed
        exact absurd (Standing.isUnsent_eq_true.mpr hstanding) (hfailed _ hname)

end Tended

end ReplicaRing.Fleet.Execution
