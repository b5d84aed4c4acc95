import ReplicaRing.Proofs.Fleet.Order
import ReplicaRing.Proofs.Fleet.Persistence
import ReplicaRing.Proofs.Fleet.Soundness
import ReplicaRing.Proofs.Replication.Reactions
import ReplicaRing.Proofs.Replication.Targets

/-! What was stored at every target of a key is what later loads of the key find. -/

namespace ReplicaRing

/-- A load has found this value and no other, and nobody has refused it. -/
def Replication.State.Reads (value : Bytes) : Replication.State → Prop
  | .success receipt | .partialSuccess receipt => receipt = .found value
  | .failure nacks _ => nacks = 0
  | .error => True
  | _ => False

namespace Fleet.Execution

open Replication (Tally State Standing)
open Simulation (Answer)

variable {Member S : Type} [DecidableEq Member] [Storage S] {e : Execution Member S}
  {time moment since fanOut stop caller reader : Nat} {client loader : Caller Member}
  {member : Member} {index : Nat} {request : Request} {id : UInt64} {roster : Roster}
  {key value : Bytes} {level lower : Level} {peers targets : List Peer}

/-! Clients that come later make operations that are new. -/

private theorem size_operations_mono (hle : since ≤ time) :
    (e.node since member).operations.size ≤ (e.node time member).operations.size := by
  induction hle with
  | refl => exact Nat.le_refl _
  | @step time hle ih =>
      refine Nat.le_trans ih ?_
      rcases (e.node_succ time member).counts with ⟨hsize, -⟩ | ⟨hsize, -⟩
      · exact Nat.le_of_eq hsize.symm
      · rw [hsize]
        exact Nat.le_succ _

private theorem length_callers_succ (e : Execution Member S) (time : Nat) :
    (e.after time).callers.length ≤ (e.after (time + 1)).callers.length := by
  rw [after]
  cases e.schedule time with
  | call member call =>
      rw [step, List.length_append]
      exact Nat.le_add_right _ _
  | resume resumed =>
      rw [step]
      split
      · exact Nat.le_refl _
      · rw [List.length_set]
  | advance advanced operation =>
      rw [step]
      split <;> exact Nat.le_refl _
  | transmit taken =>
      rw [step]
      split
      · exact Nat.le_refl _
      · rw [transmit]
        split <;> exact Nat.le_refl _
  | refuse taken =>
      rw [step]
      split <;> exact Nat.le_refl _
  | deliver receiver datagram =>
      rw [step]
      split <;> exact Nat.le_refl _
  | _ => exact Nat.le_refl _

theorem length_callers_mono (e : Execution Member S) (hle : since ≤ time) :
    (e.after since).callers.length ≤ (e.after time).callers.length := by
  induction hle with
  | refl => exact Nat.le_refl _
  | step _ ih => exact Nat.le_trans ih (e.length_callers_succ _)

private theorem lt_of_new_caller (hnone : (e.after since).callers[caller]? = none)
    (hsome : (e.after time).callers[caller]? = some client) : since < time := by
  by_contra hle
  have hmono := e.length_callers_mono (Nat.le_of_not_lt hle)
  obtain ⟨hlt, -⟩ := List.getElem?_eq_some_iff.mp hsome
  have hge := List.getElem?_eq_none_iff.mp hnone
  omega

private theorem operation?_of_new_caller {next : State → Exchanges Answer}
    (hnone : (e.after since).callers[caller]? = none)
    (hsome : (e.after time).callers[caller]? = some client)
    (hsession : client.session = .replicating index next) :
    e.operation? since client.member index = none := by
  induction time generalizing client with
  | zero => exact absurd (lt_of_new_caller hnone hsome) (Nat.not_lt_zero _)
  | succ time ih =>
      have hle : since ≤ time := Nat.le_of_lt_succ (lt_of_new_caller hnone hsome)
      cases caller_succ hsome with
      | stay _ hbefore => exact ih hbefore hsession
      | call member call => cases hsession
      | resume before hbefore hnodes =>
          have hresumes := (e.after time).resume_cases before.member before.session
          generalize (e.after time).resume before.member before.session = resumed
            at hresumes hsession
          have hproceed : ∀ program, ((e.after time).proceed before.member program).1 =
              .replicating index next → e.operation? since before.member index = none := by
            intro program hproceed
            cases program with
            | done answer => cases hproceed
            | ask exchange rest =>
                cases exchange with
                | replicate request =>
                    cases hproceed
                    exact Array.getElem?_eq_none (size_operations_mono hle)
                | ping name => cases hproceed
                | pause pause => cases hproceed
          cases hresumes with
          | wait => exact ih hbefore hsession
          | replicated _ next _ _ run => exact hproceed (next run.state) hsession
          | pinged _ next state => exact hproceed (next state) hsession
          | rested _ next => exact hproceed next hsession

theorem FansOut.le_of_new (h : e.FansOut fanOut member index targets)
    (hnone : e.operation? since member index = none) : since ≤ fanOut := by
  obtain ⟨request, id, run, after, message, hoperation, -⟩ := h
  exact Nat.le_of_lt (lt_of_new hnone hoperation)

theorem FansOut.replicas {operation : Operation} (h : e.FansOut fanOut member index targets)
    (hoperation : e.operation? time member index = some operation)
    (hrequest : operation.request? = some request) :
    (e.roster fanOut member).replicas (.hash request.key) request.level = .ok targets := by
  obtain ⟨asked, id, run, after, message, hbefore, -, hplan, -, -⟩ := h
  have hsame : operation.request? = some asked := request?_congr hoperation hbefore
  rw [hrequest] at hsame
  cases hsame
  exact (Replication.plan_eq_ok hplan).replicas

def Stocked (e : Execution Member S) (since : Nat) (key value : Bytes) (peers : List Peer) : Prop :=
  ∀ peer ∈ peers, ∀ server moment, (e.host server).name = peer.name → since ≤ moment →
    e.Holds moment server key (some value)

private theorem stocked_of_puts [LawfulStorage S] (hlawful : e.Lawful) (hkept : e.KeepsEntries)
    (honly : e.OnlyPuts fanOut key value)
    (hputs : ∀ peer ∈ targets, e.Within fanOut stop peer fun server moment =>
      e.Puts moment server member index key value) : e.Stocked stop key value targets := by
  intro peer hpeer server moment hname hmoment
  obtain ⟨target, put, htarget, hafter, hbefore, hput⟩ := hputs peer hpeer
  obtain rfl : server = target := hlawful.names (hname.trans htarget.symm)
  exact hput.holds.mono hkept honly (Nat.le_succ_of_le (Nat.le_of_lt hafter))
    (Nat.le_trans hbefore hmoment)

private theorem Stocked.mono {later : Nat} (h : e.Stocked since key value targets)
    (hsubset : peers ⊆ targets) (hle : since ≤ later) : e.Stocked later key value peers :=
  fun peer hpeer server moment hname hmoment =>
    h peer (hsubset hpeer) server moment hname (Nat.le_trans hle hmoment)

private theorem Stocked.holds {happened : Member → Nat → Prop} {peer : Peer}
    (h : e.Stocked fanOut key value targets) (hpeer : peer ∈ targets)
    (hwithin : e.Within fanOut stop peer happened) :
    ∃ server moment, e.Holds moment server key (some value) ∧ happened server moment := by
  obtain ⟨server, moment, hname, hafter, -, hhappened⟩ := hwithin
  exact ⟨server, moment, h peer hpeer server moment hname (Nat.le_of_lt hafter), hhappened⟩

private theorem onlyPuts_ofList {start : Fleet Member S} {actions : List (Action Member S)}
    (h : ∀ action ∈ actions, action.isHarmless key value = true) (since : Nat) :
    (ofList start actions).OnlyPuts since key value := by
  rintro time server datagram other - haction - ⟨message, hdecode, hrole, hentry⟩
  rcases schedule_ofList start actions time with hmem | helapse
  · have hharmless := h _ hmem
    rw [haction] at hharmless
    simpa [Action.isHarmless, hdecode, hentry, hrole] using hharmless
  · rw [haction] at helapse
    cases helapse

private theorem keepsEntries_ofList {start : Fleet Member S} {actions : List (Action Member S)}
    (h : ∀ action ∈ actions, action.isHarmless key value = true) :
    (ofList start actions).KeepsEntries := by
  intro time member storage other held haction
  rcases schedule_ofList start actions time with hmem | helapse
  · have hharmless := h _ hmem
    rw [haction] at hharmless
    cases hharmless
  · rw [haction] at helapse
    cases helapse

private theorem nacks_eq_zero (hlawful : e.Lawful)
    (hstocked : ∀ fanOut targets, e.FansOut fanOut member index targets →
      e.Stocked fanOut key value targets)
    {run : Run Tally State Replication.Input}
    (h : e.operation? time member index = some (.replication (.load key level) id run)) :
    run.memory.nacks = 0 := by
  induction time generalizing run with
  | zero =>
      rw [operation?_zero hlawful] at h
      cases h
  | succ time ih =>
      cases came_of_succ h with
      | start now => rfl
      | stay _ hbefore => exact ih hbefore
      | fail before peer hbefore => simpa using ih hbefore
      | reply before datagram answer hbefore hdelivers => simpa using ih hbefore
      | move before _ effects hbefore _ hmoves =>
          cases hmoves with
          | stop => exact (ih hbefore :)
          | react ready input hoffered hmemory hstate _ _ hterminal =>
              by_contra hnacks
              have hreact : (Replication.react (e.host member) (.load key level) id
                  (e.roster time member) before.memory before.state input).memory.nacks ≠
                    before.memory.nacks := by
                rw [ih hbefore, ← hmemory, ← hstate]
                exact hnacks
              obtain ⟨hwaiting, message, rfl, hpending, hnack⟩ := Replication.nack_of_react hreact
              have hstage := stage hlawful hbefore
              rw [hwaiting] at hstage
              obtain ⟨server, earlier, hearlier, hanswered⟩ :=
                answered_of_offers hlawful hbefore hoffered
              cases hstage with
              | unsent hunsent => exact hunsent .waiting
              | failed hfailed => cases hfailed
              | sent fanOut targets standing _ _ hfansOut hsettles _ =>
                  obtain ⟨hname, -⟩ := hsettles.records.mem_pending.mp hpending
                  obtain ⟨peer, hpeer, hpeerName⟩ := List.mem_map.mp hname
                  have hheld := hstocked fanOut targets hfansOut peer hpeer server earlier
                    (hanswered.replyTo_eq.symm.trans hpeerName.symm)
                    (Nat.le_of_lt (hfansOut.lt_of_answered hanswered))
                  rcases hanswered.holds hbefore (Nat.le_of_lt hearlier) with
                    ⟨held, -, hfound⟩ | ⟨hlacks, -⟩
                  · rw [hnack] at hfound
                    cases hfound
                  · cases hheld.eq hlacks

private theorem Performed.reads (hlawful : e.Lawful) {state : State}
    (h : e.Performed time caller member index (.load key level) state)
    (hstocked : ∀ fanOut targets, e.FansOut fanOut member index targets →
      e.Stocked fanOut key value targets) : state.Reads value := by
  obtain ⟨id, run, hoperation, hover, hstate⟩ := h.finished
  have hterminal := (orderly hlawful hoperation).final hover
  rw [hstate] at hterminal
  by_cases herror : state.outcome = .error
  · cases state with
    | error => trivial
    | success | partialSuccess | failure => cases herror
    | _ => cases hterminal
  · obtain ⟨fanOut, stop, targets, hspans, id, run, standing, hbefore, hfits, hjustified⟩ :=
      h.spans hlawful herror
    have hheld := hstocked fanOut targets hspans.fansOut
    have hfound : ∀ receipt, state.receipt? = some receipt → receipt = .found value := by
      intro receipt hreceipt
      obtain ⟨name, hname, hvote⟩ := hfits.acknowledged hreceipt
      obtain ⟨peer, hpeer, rfl⟩ := List.mem_map.mp hname
      obtain ⟨found, rfl, hwithin⟩ := hjustified.found hbefore hvote
      obtain ⟨server, moment, hvalue, hother⟩ := hheld.holds hpeer hwithin
      cases hvalue.eq hother
      rfl
    cases state with
    | success receipt => exact hfound receipt rfl
    | partialSuccess receipt => exact hfound receipt rfl
    | failure nacks count =>
        obtain ⟨hnacks, -⟩ := hfits
        rw [State.Reads, hnacks, List.countP_eq_zero]
        intro name hname hnack
        obtain ⟨peer, hpeer, rfl⟩ := List.mem_map.mp hname
        obtain ⟨server, moment, hvalue, hnone⟩ := hheld.holds hpeer
          (hjustified.missing hbefore (Standing.isNack_eq_true.mp hnack))
        cases hvalue.eq hnone
    | error => exact absurd rfl herror
    | _ => cases hterminal

/-- After a store that succeeded, and while nothing else is put under its key, later loads at a level
with no more copies never meet a refusal or another value. -/
theorem load_after_store [LawfulStorage S] (hlawful : e.Lawful)
    (hroster : ∀ time member, e.roster time member = roster) (hkept : e.KeepsEntries)
    {ended : Nat} (hclient : (e.after time).callers[caller]? = some client)
    (hcall : client.call = .store key value level)
    (hended : client.session = .ended (.outcome .success) ended) :
    ∃ index state fanOut stop targets,
      e.Spans time caller client.member index (.store key value level) state fanOut stop targets ∧
      (e.OnlyPuts fanOut key value → ∀ lower,
        (lower.fitted roster.size).copies roster.size ≤
          (level.fitted roster.size).copies roster.size →
        (∀ member loading moment id run, e.operation? time member loading = none →
          e.operation? moment member loading =
            some (.replication (.load key lower) id run) → run.memory.nacks = 0) ∧
        ∀ reader later loader answer ended, (e.after time).callers[reader]? = none →
          (e.after later).callers[reader]? = some loader →
          (loader.call = .load key lower ∨ loader.call = .loadState key lower) →
          loader.session = .ended answer ended →
          ∃ loading state, e.operation? time loader.member loading = none ∧
            e.Performed later reader loader.member loading (.load key lower) state ∧
            answer = loader.call.report state ∧ state.Reads value) := by
  obtain ⟨index, state, fanOut, stop, targets, hspans, houtcome, -, hputs⟩ :=
    store_sound hlawful hclient hcall hended rfl
  refine ⟨index, state, fanOut, stop, targets, hspans, fun honly lower hcopies => ?_⟩
  have hheld := stocked_of_puts hlawful hkept honly (hputs rfl)
  have hstocked : ∀ {member loading moment operation}, e.operation? time member loading = none →
      e.operation? moment member loading = some operation →
      operation.request? = some (.load key lower) →
      ∀ fanOut peers, e.FansOut fanOut member loading peers →
        e.Stocked fanOut key value peers := by
    intro member loading moment operation hnone hoperation hrequest fanOut peers hfansOut
    obtain ⟨id, run, hstore, -, -⟩ := hspans.performed.finished
    have hmany := hspans.fansOut.replicas hstore rfl
    have hfew := hfansOut.replicas hoperation hrequest
    rw [hroster] at hmany hfew
    exact hheld.mono (Roster.replicas_prefix hfew hmany hcopies).subset
      (Nat.le_trans (Nat.le_of_lt hspans.past) (hfansOut.le_of_new hnone))
  constructor
  · intro member loading moment id run hnone hoperation
    exact nacks_eq_zero hlawful (hstocked hnone hoperation rfl) hoperation
  · intro reader later loader answer ended hnone hloader hload hanswer
    obtain ⟨loading, state, hperformed, hreport, -⟩ := load_sound hlawful hloader hload hanswer
    obtain ⟨earlier, before, next, hearlier, hbefore, hmember, hsession⟩ := hperformed.awaited
    have hnew := operation?_of_new_caller hnone hbefore hsession
    rw [hmember] at hnew
    obtain ⟨id, run, hoperation, -, -⟩ := hperformed.finished
    exact ⟨loading, state, hnew, hperformed, hreport,
      hperformed.reads hlawful (hstocked hnew hoperation rfl)⟩

theorem load_after_store_on_two_nodes :
    let written (message : Message) : Bytes := message.encode.toOption.getD []
    let put := (((Pair.host false).request .store Verb.put).withRequestId 0).withPayload
      (Entry.written { key := [1], value := [2] })
    let get := (((Pair.host true).request .load Verb.get).withRequestId 0).withPayload
      (Entry.written { key := [1] })
    let found := ((Pair.host true).reply get Verb.getAck).withPayload
      (Entry.written { key := [1], value := [2] })
    let storing : List (Action Bool MemoryStore) :=
      [.call false (.store [1] [2] .one), .resume 0, .advance false 0, .advance false 0,
        .transmit 0, .deliver true (written put),
        .deliver false (written ((Pair.host true).reply put Verb.putAck)),
        .advance false 0, .advance false 0, .advance false 0, .resume 0]
    let loading : List (Action Bool MemoryStore) :=
      [.call true (.load [1] .zero), .resume 1, .advance true 0, .advance true 0, .transmit 1,
        .deliver true (written get), .deliver true (written found), .advance true 0,
        .advance true 0, .advance true 0, .resume 1]
    let e := ofList (Pair.shared fun _ => Table.empty) (storing ++ loading)
    ∃ index state, e.Performed 22 1 true index (.load [1] .zero) state ∧
      .loaded (some [2]) .success = (Simulation.Call.load [1] .zero).report state ∧
      state.Reads [2] := by
  intro written put get found storing loading e
  have hlawful : e.Lawful := Pair.shared_lawful _ _ (by decide) (by decide)
  have hviews : ∀ action ∈ storing ++ loading, action.isView = false := by decide
  have hroster : ∀ time member, e.roster time member = Pair.roster := roster_ofList hviews
  have hharmless : ∀ action ∈ storing ++ loading, action.isHarmless [1] [2] = true := by
    decide +kernel
  have hstored : (e.after 11).callers[0]?.bind Caller.told? =
      some (false, .store [1] [2] .one, .outcome .success, 0) := by decide +kernel
  have hloaded : (e.after 22).callers[1]?.bind Caller.told? =
      some (true, .load [1] .zero, .loaded (some [2]) .success, 0) := by decide +kernel
  have hnew : (e.after 11).callers[1]?.isNone = true := by decide +kernel
  obtain ⟨client, hclient, hclientTold⟩ := Option.bind_eq_some_iff.mp hstored
  obtain ⟨-, hcall, hended⟩ := Caller.told?_eq_some hclientTold
  obtain ⟨loader, hloader, hloaderTold⟩ := Option.bind_eq_some_iff.mp hloaded
  obtain ⟨hmember, hload, hanswer⟩ := Caller.told?_eq_some hloaderTold
  obtain ⟨_, _, fanOut, _, _, -, hreads⟩ := load_after_store hlawful hroster
    (keepsEntries_ofList hharmless) hclient hcall hended
  obtain ⟨-, hreads⟩ := hreads (onlyPuts_ofList hharmless fanOut) .zero (by decide)
  obtain ⟨index, state, -, hperformed, hreport, hvalue⟩ :=
    hreads 1 22 loader _ _ (Option.isNone_iff_eq_none.mp hnew) hloader (.inl hload) hanswer
  rw [hmember] at hperformed
  rw [hload] at hreport
  exact ⟨index, state, hperformed, hreport, hvalue⟩

end Fleet.Execution

end ReplicaRing
