import ReplicaRing.Proofs.Fleet.Fetching
import ReplicaRing.Proofs.Fleet.Finished
import ReplicaRing.Proofs.Fleet.Rehearsal

/-! Loads that some targets cannot serve leave what they found with all of them. -/

namespace ReplicaRing.Fleet

namespace Execution

open Replication (Tally State)
open Simulation (Answer Call)

variable {Member S : Type} [DecidableEq Member] [Storage S] {e : Execution Member S}
  {time later since caller : Nat} {client : Caller Member} {member : Member} {index : Nat}
  {call : Call} {answer : Answer} {key value : Bytes} {level : Level} {roster : Roster}
  {targets : List Peer} {run : Run Tally State Replication.Input}

def Returns (e : Execution Member S) (time caller : Nat) (answer : Answer) : Prop :=
  e.Going time caller ∧ ∃ client ended, (e.after (time + 1)).callers[caller]? = some client ∧
    client.session = .ended answer ended

/-- Between two moments all storages keep what they have under a key, if nobody else writes there. -/
def Untouched (e : Execution Member S) (since later caller : Nat) (key : Bytes) : Prop :=
  e.Spares since key caller → ∀ moment server, since ≤ moment → moment ≤ later →
    Storage.get (e.node moment server).storage key = Storage.get (e.node since server).storage key

private theorem Proceeds.returns (h : e.Proceeds time caller client (.done answer))
    (hclient : (e.after time).callers[caller]? = some client) :
    e.Returns time caller answer ∧ ∀ member, e.node (time + 1) member = e.node time member := by
  refine ⟨⟨fun waiting hwaiting => ?_, _, _, h.callers hclient, rfl⟩, fun member => ?_⟩
  · rw [hclient] at hwaiting
    cases hwaiting
    exact h.ready.result?
  · rw [node, h.after hclient]
    rfl

private theorem Untouched.succ (h : e.Untouched since time caller key)
    (hnodes : ∀ member, e.node (time + 1) member = e.node time member) (hsince : since ≤ time) :
    e.Untouched since (time + 1) caller key := by
  intro hspares moment server hafter hbefore
  rcases Nat.lt_or_eq_of_le hbefore with hlt | rfl
  · exact h hspares moment server hafter (Nat.le_of_lt_succ hlt)
  · rw [hnodes server]
    exact h hspares time server hsince (Nat.le_refl time)

namespace Fetched

variable (h : e.Fetched since time caller index client key level targets run)

include h

private theorem returns
    (hmend : client.call.mend (e.host client.member) key level run.state = .done answer) :
    e.Returns time caller answer ∧ ∀ other, e.Untouched since (time + 1) caller other := by
  have hproceeds := h.proceeds
  rw [hmend] at hproceeds
  obtain ⟨hreturns, hnodes⟩ := hproceeds.returns h.waits
  refine ⟨hreturns, fun other => Untouched.succ ?_ hnodes h.past⟩
  exact fun hspares moment server hafter hbefore => h.quiet moment other server hafter hbefore hspares

private theorem eq_of_writes {last repair : Nat} {waiting : Caller Member}
    {next : State → Exchanges Answer}
    {operation : Operation} {other put : Bytes} (hidle : e.Idle (time + 1) last caller waiting)
    (hmember : waiting.member = client.member) (hwaits : waiting.session = .replicating repair next)
    (hoperation : e.operation? (time + 1) client.member repair = some operation)
    (hrequest : operation.request? = some (.store key value level)) {moment : Nat}
    (hle : moment ≤ last) (hwrites : e.Writes moment caller other put) :
    other = key ∧ put = value := by
  obtain ⟨asker, asked, running, _, ⟨earlier, made, rest, hearlier, hmade, rfl, hsession⟩, hrunning,
    hstore⟩ := hwrites
  rcases Nat.lt_or_ge time earlier with hlater | hbefore
  · rw [hidle earlier hlater (Nat.le_trans hearlier hle)] at hmade
    cases hmade
    rw [hwaits] at hsession
    cases hsession
    rw [hmember] at hrunning
    rw [request?_congr hrunning hoperation, hrequest] at hstore
    cases hstore
    exact ⟨rfl, rfl⟩
  · obtain ⟨hloader, rfl⟩ :=
      h.made earlier _ asked hbefore ⟨earlier, made, rest, Nat.le_refl _, hmade, rfl, hsession⟩
    obtain ⟨id, hloading⟩ := h.concluded.operation
    rw [hloader] at hrunning
    rw [request?_congr hrunning hloading] at hstore
    cases hstore

private theorem mends [LawfulStorage S] (hlawful : e.Lawful) (hagrees : e.Agrees roster)
    (hreliable : e.Reliable) (hmanned : e.Manned roster key level targets)
    (hspares : e.Spares since key caller) (hfits : ({ key, value } : Entry).Fits)
    (hmend : client.call.mend (e.host client.member) key level run.state =
      .ask (.replicate (.store key value level)) fun _ => .done answer) :
    ∃ last, e.Returns last caller answer ∧
      (∀ peer ∈ targets, e.Keeps (last + 1) peer key (some value)) ∧
      ∀ other, other ≠ key → e.Untouched since (last + 1) caller other := by
  have hproceeds := h.proceeds
  rw [hmend] at hproceeds
  obtain ⟨repair, id, first, hrepairing, hnew, hasked⟩ := hproceeds.replicate h.waits
  have htended := hmanned.tended_store hlawful hagrees hreliable hfits hasked
  obtain ⟨last, number, after, hlast, hidle, hends, hoperation, hover⟩ :=
    htended.proceeds hlawful hreliable hrepairing hasked
  obtain ⟨hreturns, hnodes⟩ := hends.returns (hidle last hlast (Nat.le_refl last))
  have hgoing : ∀ moment, moment < last → e.Going moment caller :=
    fun moment hlt => hreturns.1.anti (Nat.le_of_lt hlt)
  have hwrites : ∀ moment other put, moment < last → e.Writes moment caller other put →
      other = key ∧ put = value :=
    fun moment other put hlt => h.eq_of_writes hidle rfl rfl hasked rfl (Nat.le_of_lt hlt)
  refine ⟨last, hreturns, fun peer hpeer => ?_, fun other hother => ?_⟩
  · obtain ⟨fanOut, peers, hfansOut, hputs⟩ := htended.puts hlawful hoperation hover
    obtain rfl := hagrees.eq_replicas hoperation hmanned.replicas hfansOut
    obtain ⟨server, moment, hname, hafter, hbefore, hput⟩ := hputs peer hpeer
    obtain ⟨player, hplays⟩ := h.concluded.plays peer hpeer
    obtain rfl := hplays.eq hlawful hname
    have hlate : since ≤ moment + 1 := Nat.le_succ_of_le (Nat.le_trans h.past
      (Nat.le_of_lt (Nat.lt_of_le_of_lt (hfansOut.le_of_new hnew) hafter)))
    have hheld := (hspares.mono hlate).holds_of_writes hput.holds hbefore hgoing
      fun moment put hlt hwrite => (hwrites moment key put hlt hwrite).2
    exact ⟨server, hplays, by rwa [Holds, hnodes server]⟩
  · refine Untouched.succ (fun hothers moment server hafter hbefore => ?_) hnodes
      (Nat.le_trans h.past (Nat.le_of_succ_le hlast))
    exact hothers.get_eq hafter (fun _ hlt => hgoing _ (Nat.lt_of_lt_of_le hlt hbefore))
      (fun moment put hlt hwrite =>
        hother (hwrites moment other put (Nat.lt_of_lt_of_le hlt hbefore) hwrite).1) server

end Fetched

private theorem Loads.succeeds [LawfulStorage S] (h : e.Loads since member call key level)
    (hlawful : e.Lawful) (hagrees : e.Agrees roster) (hreliable : e.Reliable)
    (hmanned : e.Manned roster key level targets) (hfits : ({ key, value } : Entry).Fits)
    (hkept : ∀ peer ∈ targets, e.Keeps since peer key (some value)) :
    ∃ last, e.Returns last (e.after since).callers.length
      (call.report (.success (.found value))) := by
  obtain ⟨time, index, client, run, -, rfl, hfetched⟩ :=
    h.fetched hlawful hagrees hreliable hmanned fun peer hpeer other hother => by
      cases hother.eq hlawful (hkept peer hpeer)
      exact hfits
  obtain ⟨found, hstate, moment, server, peer, hpeer, -, hplays, hholds⟩ :=
    hfetched.concluded.eq_success hlawful fun peer hpeer => ⟨value, hkept peer hpeer⟩
  have hkeeps : e.Keeps since peer key (some found) := ⟨server, hplays, hholds⟩
  cases hkeeps.eq hlawful (hkept peer hpeer)
  exact ⟨time, (hfetched.returns (by rw [hstate]; rfl)).1⟩

private theorem Keeps.of_absent [LawfulStorage S] {peer : Peer} {held : Option Bytes}
    (h : e.Keeps since peer key held) (hle : since ≤ time)
    (hspares : e.Spares since key (e.after time).callers.length) : e.Keeps time peer key held := by
  obtain ⟨server, hplays, hholds⟩ := h
  have habsent : ∀ moment, moment ≤ time →
      (e.after moment).callers[(e.after time).callers.length]? = none :=
    fun moment hmoment => List.getElem?_eq_none (e.length_callers_mono hmoment)
  have hsame := hspares.get_eq hle
    (fun moment hlt client hclient => by
      rw [habsent moment (Nat.le_of_lt hlt)] at hclient
      cases hclient)
    (fun moment value hlt => by
      rintro ⟨asker, asked, operation, level, ⟨earlier, client, next, hearlier, hclient, -⟩, -⟩
      rw [habsent earlier (Nat.le_trans hearlier (Nat.le_of_lt hlt))] at hclient
      cases hclient)
    server
  exact ⟨server, hplays, hsame.trans hholds⟩

/-- What a load answers is what its own operation has ended with, whatever becomes of the value that it
stores back.  On a reliable fleet it returns.  When no target has anything, all have refused; when all
have something, the first that acknowledges tells its value; and nothing is changed then.  When only
some have something, one of their values comes to all targets and to nothing else, and later loads find
it. -/
theorem read_repair [LawfulStorage S] (hlawful : e.Lawful) :
    (∀ time caller client answer ended, (e.after time).callers[caller]? = some client →
      (client.call = .load key level ∨ client.call = .loadState key level) →
      client.session = .ended answer ended →
      ∃ index state, e.Performed time caller client.member index (.load key level) state ∧
        answer = client.call.report state) ∧
    (e.Agrees roster → e.Reliable → e.Manned roster key level targets →
      ∀ since member call, e.Loads since member call key level →
      (∀ peer ∈ targets, ∀ value, e.Keeps since peer key (some value) →
        value.length ≤ (e.host member).protocol.maxValueSize ∧ ({ key, value } : Entry).Fits) →
      ((∀ peer ∈ targets, e.Keeps since peer key none) →
        ∃ last, e.Returns last (e.after since).callers.length
            (call.report (.failure targets.length targets.length)) ∧
          ∀ other, e.Untouched since (last + 1) (e.after since).callers.length other) ∧
      ((∀ peer ∈ targets, ∃ value, e.Keeps since peer key (some value)) →
        ∃ last value, e.Returns last (e.after since).callers.length
            (call.report (.success (.found value))) ∧
          (∃ index, e.Made last (e.after since).callers.length member index ∧
            e.FindsFirst since member index targets key value) ∧
          ∀ other, e.Untouched since (last + 1) (e.after since).callers.length other) ∧
      ((∃ peer ∈ targets, e.Keeps since peer key none) →
        (∃ peer ∈ targets, ∃ value, e.Keeps since peer key (some value)) →
        ∃ last value, e.Returns last (e.after since).callers.length
            (call.report (.partialSuccess (.found value))) ∧
          (∃ peer ∈ targets, e.Keeps since peer key (some value)) ∧
          (∀ peer ∈ targets, e.Keeps (last + 1) peer key (some value)) ∧
          (∀ other, other ≠ key →
            e.Untouched since (last + 1) (e.after since).callers.length other) ∧
          ∀ again reader second, last < again → e.Loads again reader second key level →
            e.Spares (last + 1) key (e.after again).callers.length →
            ∃ final, e.Returns final (e.after again).callers.length
              (second.report (.success (.found value))))) := by
  refine ⟨?_, ?_⟩
  · intro time caller client answer ended hclient hcall hended
    obtain ⟨index, state, hperformed, hanswer, -⟩ := load_sound hlawful hclient hcall hended
    exact ⟨index, state, hperformed, hanswer⟩
  · intro hagrees hreliable hmanned since member call hloads hvalues
    obtain ⟨time, index, client, run, rfl, rfl, hfetched⟩ :=
      hloads.fetched hlawful hagrees hreliable hmanned fun peer hpeer value hkept =>
        (hvalues peer hpeer value hkept).2
    refine ⟨fun hnone => ?_, fun hall => ?_, fun hlacks hhas => ?_⟩
    · have hstate := hfetched.concluded.eq_failure hlawful hnone
      obtain ⟨hreturns, huntouched⟩ := hfetched.returns (by rw [hstate]; rfl)
      exact ⟨time, hreturns, huntouched⟩
    · obtain ⟨value, hstate, hfirst⟩ := hfetched.concluded.eq_success hlawful hall
      obtain ⟨hreturns, huntouched⟩ := hfetched.returns (by rw [hstate]; rfl)
      exact ⟨time, value, hreturns, ⟨index, hfetched.made_index, hfirst⟩, huntouched⟩
    · obtain ⟨value, hstate, hfirst⟩ :=
        hfetched.concluded.eq_partialSuccess hlawful hlacks hhas
      obtain ⟨moment, server, peer, hpeer, -, hplays, hholds⟩ := hfirst
      obtain ⟨hsize, hfits⟩ := hvalues peer hpeer value ⟨server, hplays, hholds⟩
      have hmend : client.call.mend (e.host client.member) key level run.state =
          .ask (.replicate (.store key value level)) fun _ =>
            .done (client.call.report (.partialSuccess (.found value))) := by
        rw [hstate]
        exact if_neg (Nat.not_lt.mpr hsize)
      obtain ⟨last, hreturns, hkept, huntouched⟩ :=
        hfetched.mends hlawful hagrees hreliable hmanned hloads.spares hfits hmend
      refine ⟨last, value, hreturns, ⟨peer, hpeer, server, hplays, hholds⟩, hkept, huntouched, ?_⟩
      intro again reader second hagain hsecond hspares
      exact hsecond.succeeds hlawful hagrees hreliable hmanned hfits fun peer hpeer =>
        (hkept peer hpeer).of_absent hagain hspares

end Execution

deriving instance DecidableEq for Parcel

namespace Twins

/-! The first node loads a key that only the second has, and both are its replicas. -/

def get : Message := (((host false).request .load Verb.get).withRequestId 0).withPayload
  (Entry.written { key := [1] })

def found : Message := ((host true).reply get Verb.getAck).withPayload
  (Entry.written { key := [1], value := [2] })

def put : Message := (((host false).request .store Verb.put).withRequestId 1).withPayload
  (Entry.written { key := [1], value := [2] })

def written (message : Message) : Bytes := message.encode.toOption.getD []

def repair : List (Action Bool MemoryStore) :=
  [.call false (.loadState [1] .one), .resume 0, .advance false 0, .advance false 0,
    .transmit 0, .transmit 1, .deliver false (written get), .deliver true (written get),
    .deliver false (written ((host false).reply get Verb.getNack)), .deliver false (written found),
    .advance false 0, .advance false 0, .advance false 0, .advance false 0, .resume 0,
    .advance false 1, .advance false 1, .transmit 2, .transmit 3,
    .deliver false (written put), .deliver true (written put),
    .deliver false (written ((host false).reply put Verb.putAck)),
    .deliver false (written ((host true).reply put Verb.putAck)),
    .advance false 1, .advance false 1, .advance false 1, .advance false 1, .resume 0]

abbrev execution : Execution Bool MemoryStore := .ofList fleet repair

private theorem repair_lawful : execution.Lawful := lawful repair (by decide +kernel) (by decide)

private theorem after_eq {time : Nat} (h : time ≤ repair.length) :
    execution.after time = (repair.take time).foldl (rehearse replicas) fleet :=
  Execution.after_ofList_eq_rehearse (by decide +kernel) (fun _ => replicas_roster) h

private theorem encode_eq {message : Message} (h : message.encode.toOption.isSome = true) :
    message.encode = .ok (written message) := by
  unfold written
  cases hencode : message.encode with
  | error error =>
      rw [hencode] at h
      cases h
  | ok datagram => rfl

def Served (time : Nat) (server : Bool) (message answer : Message) : Prop :=
  (address server, written message) ∈ ((repair.take time).foldl (rehearse replicas) fleet).sent ∧
    ((((repair.take time).foldl (rehearse replicas) fleet).nodes server).response
      (written message)).outgoing = some (address false, written answer)

instance (time : Nat) (server : Bool) (message answer : Message) :
    Decidable (Served time server message answer) :=
  inferInstanceAs (Decidable (_ ∧ _))

private theorem exchanged_of_served {arrival back index : Nat} {server : Bool} {peer : Peer}
    {message answer : Message} (hserved : Served arrival server message answer)
    (hencode : message.encode.toOption.isSome = true)
    (haddress : address server = peer.address)
    (haction : execution.schedule arrival = .deliver server (written message))
    (hback : execution.schedule back = .deliver false (written answer))
    (hafter : arrival < back) (hbefore : back < repair.length) :
    execution.Exchanged repair.length ⟨false, index, peer, message⟩ := by
  have heq := after_eq (Nat.le_of_lt (Nat.lt_trans hafter hbefore))
  obtain ⟨hsent, houtgoing⟩ := hserved
  rw [← heq] at hsent houtgoing
  exact .of_answer (encode_eq hencode) haddress haction hsent houtgoing hback hafter hbefore

private theorem repair_exchanged :
    ∀ parcel ∈ (execution.after repair.length).outbox,
      execution.Exchanged repair.length parcel := by
  have houtbox : (execution.after repair.length).outbox =
      [⟨false, 0, ⟨"a", address false, 1⟩, get⟩, ⟨false, 0, ⟨"d", address true, 1⟩, get⟩,
        ⟨false, 1, ⟨"a", address false, 1⟩, put⟩, ⟨false, 1, ⟨"d", address true, 1⟩, put⟩] := by
    rw [after_eq (Nat.le_refl _)]
    decide +kernel
  have hloads : Served 6 false get ((host false).reply get Verb.getNack) ∧
      Served 7 true get found := by
    decide +kernel
  have hstores : Served 19 false put ((host false).reply put Verb.putAck) ∧
      Served 20 true put ((host true).reply put Verb.putAck) := by
    decide +kernel
  intro parcel hparcel
  rw [houtbox] at hparcel
  simp only [List.mem_cons, List.not_mem_nil, or_false] at hparcel
  rcases hparcel with rfl | rfl | rfl | rfl
  · exact exchanged_of_served hloads.1 (by decide +kernel) rfl rfl (rfl : execution.schedule 8 = _)
      (by decide) (by decide)
  · exact exchanged_of_served hloads.2 (by decide +kernel) rfl rfl (rfl : execution.schedule 9 = _)
      (by decide) (by decide)
  · exact exchanged_of_served hstores.1 (by decide +kernel) rfl rfl
      (rfl : execution.schedule 21 = _) (by decide) (by decide)
  · exact exchanged_of_served hstores.2 (by decide +kernel) rfl rfl
      (rfl : execution.schedule 22 = _) (by decide) (by decide)

private theorem repair_reliable : execution.Reliable := by
  have hdone : (execution.after repair.length).now = 0 ∧
      (∀ member, ∀ operation ∈ (execution.node repair.length member).operations.toList,
        operation.isOver = true) ∧
      (∀ client ∈ (execution.after repair.length).callers,
        client.session.result?.isSome = true) := by
    simp only [Execution.node]
    rw [after_eq (Nat.le_refl _)]
    decide +kernel
  obtain ⟨hnow, hover, hended⟩ := hdone
  refine Execution.reliable_ofList repair_lawful (by decide +kernel) (by decide) hnow ?_
    (fun client hclient => Option.isSome_iff_ne_none.mp (hended client hclient)) repair_exchanged
  intro member index operation hoperation
  rw [Execution.operation?] at hoperation
  have hall := hover member
  generalize (Execution.ofList fleet repair).node repair.length member = node at hoperation hall
  exact hall operation (Array.mem_toList_iff.mpr (Array.mem_of_getElem? hoperation))

private theorem repair_agrees : execution.Agrees roster where
  rosters := Execution.roster_ofList (by decide +kernel : ∀ action ∈ repair, action.isView = false)
  members member := Option.isSome_iff_exists.mp (by cases member <;> decide)
  versions _ _ := rfl
  names member := ⟨by cases member <;> decide, by cases member <;> decide⟩

private theorem repair_manned : execution.Manned roster [1] .one roster.peers where
  replicas := replicas_eq
  works peer hpeer := by
    have hnamed : ∀ peer ∈ roster.peers, ∃ server, (host server).name = peer.name ∧
        address server = peer.address := by
      decide
    obtain ⟨server, hname, haddress⟩ := hnamed peer hpeer
    exact ⟨server, ⟨hname, haddress⟩, fun _ => MemoryStore.works _⟩
  request := by
    unfold Entry.Fits
    decide

private theorem made_of_put {time : Nat} {asker : Bool} {index : Nat} {message : Message}
    (hasked : execution.Asked time asker index message) (hrole : message.role = .put)
    (hle : time ≤ repair.length) : execution.Made time 0 asker index := by
  have hrequests : ∀ member, (execution.node repair.length member).operations.toList.map
      Operation.request? =
        bif member then [] else [some (.load [1] .one), some (.store [1] [2] .one)] := by
    simp only [Execution.node]
    rw [after_eq (Nat.le_refl _)]
    decide +kernel
  have hfirst : (execution.node 14 false).operations.size = 1 := by
    rw [Execution.node, after_eq (by decide)]
    decide +kernel
  have hawaits : (execution.after 15).callers[0]?.bind Caller.awaits? = some (false, 1) := by
    rw [after_eq (by decide)]
    decide +kernel
  obtain ⟨last, hlast, hasks⟩ := hasked.mono hle
  have hrequest : ((execution.node repair.length asker).operations.toList.map
      Operation.request?)[index]? = some last.request? := by
    rw [Execution.operation?] at hlast
    generalize (Execution.ofList fleet repair).node repair.length asker = node at hlast
    rw [List.getElem?_map, Array.getElem?_toList, hlast]
    rfl
  rw [hrequests asker] at hrequest
  cases asker with
  | true => cases hrequest
  | false =>
      rcases index with _ | _ | index
      · cases last with
        | ping => cases hrequest
        | replication request id run =>
            cases hrequest
            cases hrole.symm.trans hasks.content.2.1
      · refine Execution.Made.of_awaits hawaits ?_
        by_contra hearly
        obtain ⟨operation, hoperation, -⟩ := hasked.mono (Nat.le_of_lt_succ (Nat.lt_of_not_le hearly))
        obtain ⟨hlt, -⟩ := Array.getElem?_eq_some_iff.mp hoperation
        exact absurd hlt (Nat.not_lt.mpr (Nat.le_of_eq hfirst))
      · cases hrequest

private theorem repair_spares : execution.Spares 0 [1] 0 where
  puts time server datagram value _ _ haction hsent hstores := by
    obtain ⟨message, hdecode, hrole, -⟩ := hstores
    rcases Execution.asked_or_answered repair_lawful hsent hdecode with
      ⟨asker, index, hasked⟩ | ⟨asker, index, answerer, earlier, -, -, hanswered⟩
    case inr =>
      have hreply := hanswered.isReply
      rw [hrole] at hreply
      cases hreply
    case inl =>
      refine ⟨asker, index, message, made_of_put hasked hrole ?_, hdecode, hasked⟩
      by_contra hlate
      rw [Execution.schedule_ofList_of_ge fleet (Nat.le_of_not_le hlate)] at haction
      cases haction
  rewrites time server storage _ _ haction := by
    have hactions : ∀ action ∈ repair, action.isSmooth = true := by decide +kernel
    have hsmooth := Execution.isSmooth_ofList fleet hactions time
    rw [haction] at hsmooth
    cases hsmooth

theorem read_repair_of_lost_copy :
    (∃ peer ∈ roster.peers, execution.Keeps 0 peer [1] none) ∧
      ∃ last value, execution.Returns last 0 (.state (.partialSuccess (.found value))) ∧
        (∃ peer ∈ roster.peers, execution.Keeps 0 peer [1] (some value)) ∧
        ∀ peer ∈ roster.peers, execution.Keeps (last + 1) peer [1] (some value) := by
  have hheld : ∀ server, execution.Holds 0 server [1] (bif server then some [2] else none) := by
    intro server
    cases server <;> rfl
  have hlacks : ∃ peer ∈ roster.peers, execution.Keeps 0 peer [1] none :=
    ⟨⟨"a", address false, 1⟩, by simp [roster], false, ⟨rfl, rfl⟩, hheld false⟩
  have hhas : ∃ peer ∈ roster.peers, ∃ value, execution.Keeps 0 peer [1] (some value) :=
    ⟨⟨"d", address true, 1⟩, by simp [roster], [2], true, ⟨rfl, rfl⟩, hheld true⟩
  have hvalues : ∀ peer ∈ roster.peers, ∀ value, execution.Keeps 0 peer [1] (some value) →
      value.length ≤ (execution.host false).protocol.maxValueSize ∧
        ({ key := [1], value } : Entry).Fits := by
    rintro peer - value ⟨server, -, hholds⟩
    cases server with
    | false => cases (hheld false).eq hholds
    | true =>
        cases (hheld true).eq hholds
        exact ⟨by decide, by unfold Entry.Fits; decide⟩
  obtain ⟨-, hrepairs⟩ := Execution.read_repair repair_lawful
  obtain ⟨-, -, hmixed⟩ := hrepairs repair_agrees repair_reliable repair_manned 0 false
    (.loadState [1] .one) ⟨rfl, .inr rfl, repair_spares⟩ hvalues
  obtain ⟨last, value, hreturns, hkept, hall, -⟩ := hmixed hlacks hhas
  exact ⟨hlacks, last, value, hreturns, hkept, hall⟩

end Twins

end ReplicaRing.Fleet
