import ReplicaRing.Proofs.Replication.Conduct
import ReplicaRing.Proofs.Replication.Settling

/-! A replication always has something to go on with, and never meets what it is not prepared for. -/

namespace ReplicaRing.Replication

namespace Proceeds

variable {host : Host} {request : Request} {id : UInt64} {roster : Roster} {tally : Tally}
  {state : State} {input : Input} {step : Step}

private theorem expects (h : Proceeds host request id roster tally state input step) :
    state.expects input = true := by
  cases h with
  | hear _ hinput => exact Input.isExternal_of_isReport hinput
  | conclude _ hinput => exact hinput
  | late _ _ hstate hinput =>
      have hexternal := Input.isExternal_of_isReport hinput
      cases state with
      | fullAck | partialAck | noAck => simp [State.expects, hexternal]
      | _ => cases hstate
  | _ => rfl

private theorem receipt_ne_none (h : Proceeds host request id roster tally state .settle step)
    (hstate : state = .fullAck ∨ state = .partialAck) : tally.receipt ≠ none := by
  generalize hinput : Input.settle = input at h
  cases h with
  | success receipt hreceipt | partialSuccess receipt hreceipt =>
      rw [hreceipt]
      exact nofun
  | hear | conclude | failure => rcases hstate with hstate | hstate <;> cases hstate
  | late _ _ _ hreport =>
      rw [← hinput] at hreport
      cases hreport
  | _ => cases hinput

private theorem of_waiting (h : Proceeds host request id roster tally state input step)
    (hstep : step.state = .waiting) :
    state = .waiting ∨ state = .sending ∧ input = .send ∧
      ∃ targets message, plan host request id roster = .ok (targets, message) := by
  cases h with
  | hear => exact .inl rfl
  | fanOut targets message hplan => exact .inr ⟨rfl, rfl, targets, message, hplan⟩
  | conclude => exact absurd hstep (Phase.conclude_ne_waiting _)
  | late => exact .inl hstep
  | _ => cases hstep

end Proceeds

def State.isUndecided : State → Bool
  | .start | .sending | .waiting => true
  | _ => false

private theorem Proceeds.settles {host : Host} {request : Request} {id : UInt64} {roster : Roster}
    {tally : Tally} {state : State} {input : Input} {step : Step}
    (h : Proceeds host request id roster tally state input step) :
    step.queued.count .settle = 0 ∧ (step.state.isUndecided = true → state.isUndecided = true) ∨
      state.isUndecided = true ∧ step.state.isUndecided = false ∧
        step.queued.count .settle = 1 := by
  cases h with
  | conclude _ hinput hpending =>
      unfold Tally.conclude
      split
      · exact .inl ⟨rfl, fun _ => rfl⟩
      · refine .inr ⟨rfl, ?_, rfl⟩
        simp only
        split
        · rfl
        · split <;> rfl
  | late => exact .inl ⟨rfl, fun hstate => hstate⟩
  | ready | fail | fanOut | hear => exact .inl ⟨rfl, fun _ => rfl⟩
  | success | partialSuccess | failure => exact .inl ⟨rfl, nofun⟩

namespace Course

variable (course : Course)

def own (time : Nat) : List Input :=
  match course.events time with
  | .move roster =>
      match (course.run time).next course.automaton (course.now time) with
      | .take input _ | .expire input => (course.reaction time roster input).queued
      | .stop | .wait => []
  | _ => []

/-- What the automaton has queued for itself before some time. -/
def queued : Nat → List Input
  | 0 => []
  | time + 1 => queued time ++ course.own time

/-- A replication that is as it should be at some time of its course. -/
structure Steady (time : Nat) : Prop where
  /-- Short of its end there is an input in the queue, or a deadline that will pass. -/
  alive : (course.run time).state.isTerminal = false →
    (course.run time).isOver = false ∧
      ((course.run time).queue ≠ [] ∨ (course.run time).deadline ≠ none)
  expected : ∀ roster input, course.Feeds time roster input →
    (course.run time).state.expects input = true
  received : ∀ roster, course.Feeds time roster .settle →
    (course.run time).state = .fullAck ∨ (course.run time).state = .partialAck →
      (course.run time).memory.receipt ≠ none
  /-- An error means that the request could not be planned, or that every send has failed. -/
  error : (course.run time).state = .error →
    (∃ earlier roster error, earlier < time ∧ course.Feeds earlier roster .send ∧
      (course.run earlier).state = .sending ∧
      plan course.host course.request course.id roster = .error error) ∨
    ∃ fanOut targets, fanOut < time ∧ course.FansOut fanOut targets ∧
      ∀ peer ∈ targets, ∃ failed, failed < time ∧ course.Fails failed peer.name
  settled : (course.queued time).count .settle ≤ 1
  /-- The deadline of the wait is that of the one time at which the request was sent. -/
  deadline : (course.run time).state = .waiting → ∃ fanOut targets, fanOut < time ∧
    course.FansOut fanOut targets ∧
    (∀ other others, course.FansOut other others → other = fanOut) ∧
    (course.run time).deadline =
      some (course.now fanOut + course.host.protocol.ackTimeout, .timeout)
  punctual : (course.run time).state = .waiting → (course.run time).queue = [] →
    ∀ due input, (course.run time).deadline = some (due, input) → due ≤ course.now time →
      ∀ roster, course.events time = .move roster → (course.run (time + 1)).state ≠ .waiting

variable {course} {time earlier : Nat}

private theorem alive (course : Course) (time : Nat)
    (h : (course.run time).state.isTerminal = false) :
    (course.run time).isOver = false ∧
      ((course.run time).queue ≠ [] ∨ (course.run time).deadline ≠ none) := by
  obtain ⟨hphase, hsenders, hfinal⟩ := course.orderly time
  constructor
  · by_contra hover
    have hterminal := hfinal (by simpa using hover)
    rw [h] at hterminal
    cases hterminal
  · generalize (course.run time).queue = queue at hphase
    generalize (course.run time).deadline = deadline at hphase
    generalize (course.run time).state = state at hphase h
    cases hphase with
    | start | sending => exact .inl (List.cons_ne_nil _ _)
    | waiting => exact .inr nofun
    | decided => exact .inl (by simp)
    | final _ _ hstate =>
        rw [h] at hstate
        cases hstate

private theorem isSent_succ (h : (course.run time).state.IsSent) :
    (course.run (time + 1)).state.IsSent := by
  have hbecomes := course.run_succ time
  generalize course.run (time + 1) = run at hbecomes
  cases hbecomes with
  | same => exact h
  | report input => rwa [Run.push_state]
  | feed roster input rest _ _ _ _ _ hstate =>
      rw [hstate]
      exact (react_isSent _ _ _ _ _ h input).1
  | stop => exact h

private theorem isSent_mono {later : Nat} (h : (course.run time).state.IsSent)
    (hle : time ≤ later) :
    (course.run later).state.IsSent := by
  induction hle with
  | refl => exact h
  | step _ ih => exact isSent_succ ih

private theorem FansOut.isSent {targets : List Peer} (h : course.FansOut time targets) :
    (course.run (time + 1)).state.IsSent := by
  obtain ⟨roster, message, hfeeds, hstate, hplan⟩ := h
  rw [hfeeds.state_eq, reaction, hstate, react, hplan]
  exact .waiting

private theorem FansOut.unique {other : Nat} {targets others : List Peer}
    (h : course.FansOut time targets) (hother : course.FansOut other others) : other = time := by
  have hne : ∀ {first second firsts seconds}, course.FansOut first firsts →
      course.FansOut second seconds → ¬first < second := by
    intro first second firsts seconds hfirst hsecond hlt
    obtain ⟨roster, message, hfeeds, hstate, hplan⟩ := hsecond
    exact (isSent_mono hfirst.isSent hlt).2 hstate
  exact Nat.le_antisymm (Nat.le_of_not_lt (hne h hother)) (Nat.le_of_not_lt (hne hother h))

private theorem armed (course : Course) (time : Nat) (h : (course.run time).state = .waiting) :
    ∃ fanOut targets, fanOut < time ∧ course.FansOut fanOut targets ∧
      (course.run time).deadline =
        some (course.now fanOut + course.host.protocol.ackTimeout, .timeout) := by
  induction time with
  | zero => cases h
  | succ time ih =>
      have hearlier : (course.run time).state = .waiting →
          (course.run (time + 1)).deadline = (course.run time).deadline →
          ∃ fanOut targets, fanOut < time + 1 ∧ course.FansOut fanOut targets ∧
            (course.run (time + 1)).deadline =
              some (course.now fanOut + course.host.protocol.ackTimeout, .timeout) := by
        intro hwaiting hsame
        obtain ⟨fanOut, targets, hlt, hfansOut, hdeadline⟩ := ih hwaiting
        exact ⟨fanOut, targets, Nat.lt_succ_of_lt hlt, hfansOut, hsame.trans hdeadline⟩
      have hbecomes := course.run_succ time
      generalize course.run (time + 1) = run at hbecomes hearlier h
      cases hbecomes with
      | same => exact hearlier h rfl
      | report input =>
          rw [Run.push_state] at h
          refine hearlier h ?_
          unfold Run.push
          split <;> rfl
      | feed roster input rest _ hfeeds _ _ _ hstate _ hdeadline =>
          rw [hstate] at h
          rcases hfeeds.proceeds.of_waiting h with hwaiting | ⟨hsending, rfl, targets, message, hplan⟩
          · exact hearlier hwaiting (hdeadline.trans (if_pos (h.trans hwaiting.symm)))
          · have hne : (course.reaction time roster .send).state ≠ (course.run time).state := by
              rw [h, hsending]
              exact nofun
            refine ⟨time, targets, Nat.lt_succ_self time, ⟨roster, message, hfeeds, hsending, hplan⟩,
              hdeadline.trans ((if_neg hne).trans ?_)⟩
            rw [h]
            rfl
      | stop hterminal =>
          rw [h] at hterminal
          cases hterminal

private theorem failed_of_mem_queue {name : String}
    (h : .input (.sendFailed name) ∈ (course.run time).queue) :
    ∃ failed, failed < time ∧ course.Fails failed name := by
  induction time with
  | zero =>
      cases List.mem_singleton.mp h
  | succ time ih =>
      have hearlier : .input (.sendFailed name) ∈ (course.run time).queue →
          ∃ failed, failed < time + 1 ∧ course.Fails failed name := by
        intro hmem
        obtain ⟨failed, hlt, hfails⟩ := ih hmem
        exact ⟨failed, Nat.lt_succ_of_lt hlt, hfails⟩
      have hbecomes := course.run_succ time
      generalize course.run (time + 1) = run at hbecomes h
      cases hbecomes with
      | same => exact hearlier h
      | report input hreport hsent hfails =>
          rcases Run.offers_push (.inl h) with hold | hnew
          · rcases hold with hqueue | ⟨due, hdeadline⟩
            · exact hearlier hqueue
            · have hphase := (course.orderly time).phase
              rw [hdeadline] at hphase
              cases hphase.eq_waiting.2
          · exact ⟨time, Nat.lt_succ_self time, hfails name hnew.symm⟩
      | feed roster input rest _ hfeeds hrest _ _ _ hqueue =>
          rw [hqueue] at h
          rcases List.mem_append.mp h with hmem | hmem
          · exact hearlier (hrest _ hmem)
          · obtain ⟨own, hown, heq⟩ := List.mem_map.mp hmem
            cases heq
            rcases react_queued hown with heq | heq <;> cases heq
      | stop => cases h

/-- How the targets of a request that has been sent, or could not be planned, stand. -/
inductive Stands (course : Course) (time : Nat) (tally : Tally) (state : State) : Prop
  | refused (earlier : Nat) (roster : Roster) (error : ProtocolError) (hstate : state = .error)
      (hbefore : earlier < time) (hfeeds : course.Feeds earlier roster .send)
      (hsending : (course.run earlier).state = .sending)
      (hplan : plan course.host course.request course.id roster = .error error)
  | sent (fanOut : Nat) (targets : List Peer) (standing : String → Standing)
      (hbefore : fanOut < time) (hfansOut : course.FansOut fanOut targets)
      (hrecords : tally.Records (targets.map Peer.name) standing)
      (herror : state = .error →
        ∀ name ∈ targets.map Peer.name, (standing name).isUnsent = true)
      (hfailed : ∀ name, standing name = some .unsent →
        ∃ failed, failed < time ∧ course.Fails failed name)

private theorem FansOut.names {targets : List Peer} (h : course.FansOut time targets) :
    (targets.map Peer.name).Nodup := by
  obtain ⟨roster, message, -, -, hplan⟩ := h
  exact Roster.replicas_names (plan_eq_ok hplan).replicas

private theorem Stands.succ {tally : Tally} {state : State} (h : course.Stands time tally state) :
    course.Stands (time + 1) tally state := by
  cases h with
  | refused earlier roster error hstate hbefore hfeeds hsending hplan =>
      exact .refused earlier roster error hstate (Nat.lt_succ_of_lt hbefore) hfeeds hsending hplan
  | sent fanOut targets standing hbefore hfansOut hrecords herror hfailed =>
      refine .sent fanOut targets standing (Nat.lt_succ_of_lt hbefore) hfansOut hrecords herror
        fun name hunsent => ?_
      obtain ⟨failed, hlt, hfails⟩ := hfailed name hunsent
      exact ⟨failed, Nat.lt_succ_of_lt hlt, hfails⟩

private theorem failed_of_hear {standing : String → Standing} {name : String} {input : Input}
    (hoffered : .input input ∈ (course.run time).queue ∨ input = .timeout)
    (hfailed : ∀ name, standing name = some .unsent →
      ∃ failed, failed < time ∧ course.Fails failed name)
    (h : standingAfter course.request standing input name = some .unsent) :
    ∃ failed, failed < time ∧ course.Fails failed name := by
  rw [standingAfter, Option.or_eq_some_iff] at h
  rcases h with hold | ⟨-, hnew⟩
  · exact hfailed name hold
  · cases input with
    | sendFailed peer =>
        simp only [Input.verdict?, Option.ite_none_right_eq_some] at hnew
        obtain ⟨rfl, -⟩ := hnew
        rcases hoffered with hmem | htimeout
        · exact failed_of_mem_queue hmem
        · cases htimeout
    | reply message => simp [Input.verdict?] at hnew
    | _ => cases hnew

private theorem Stands.feed {roster : Roster} {input : Input}
    (h : (course.run time).state.IsSent →
      course.Stands time (course.run time).memory (course.run time).state)
    (hfeeds : course.Feeds time roster input)
    (hoffered : .input input ∈ (course.run time).queue ∨ input = .timeout)
    (hsent : (course.reaction time roster input).state.IsSent) :
    course.Stands (time + 1) (course.reaction time roster input).memory
      (course.reaction time roster input).state := by
  have hproceeds := hfeeds.proceeds
  have hphase := (course.orderly time).phase
  generalize hstep : course.reaction time roster input = step at hproceeds hsent
  generalize hstate : (course.run time).state = state at hproceeds hphase h
  cases hproceeds with
  | ready => exact absurd rfl hsent.2
  | fail error hplan =>
      exact .refused time roster error rfl (Nat.lt_succ_self time) hfeeds hstate hplan
  | fanOut targets message hplan =>
      have hfansOut : course.FansOut time targets := ⟨roster, message, hfeeds, hstate, hplan⟩
      rw [hphase.tally_eq fun hsent => hsent.2 rfl]
      exact .sent time targets _ (Nat.lt_succ_self time) hfansOut
        (fanOut_records course.id message hfansOut.names) nofun nofun
  | hear _ hreport hpending =>
      cases h .waiting with
      | refused _ _ _ herror => cases herror
      | sent fanOut targets standing hbefore hfansOut hrecords herror hfailed =>
          exact Stands.succ (.sent fanOut targets _ hbefore hfansOut
            (hrecords.hear hfansOut.names course.request input) nofun
            fun name => failed_of_hear hoffered hfailed)
  | conclude _ hinput hpending =>
      cases h .waiting with
      | refused _ _ _ herror => cases herror
      | sent fanOut targets standing hbefore hfansOut hrecords herror hfailed =>
          have hheard := hrecords.hear hfansOut.names course.request input
          rw [hheard.conclude_eq]
          refine Stands.succ (.sent fanOut targets _ hbefore hfansOut hheard ?_
            fun name => failed_of_hear hoffered hfailed)
          intro hconclusion
          unfold conclusion at hconclusion
          split at hconclusion
          case isTrue hunsent => exact hunsent
          case isFalse =>
            split at hconclusion
            · cases hconclusion
            · split at hconclusion <;> cases hconclusion
  | success receipt | partialSuccess receipt | failure =>
      cases h (.of_isDecided rfl) with
      | refused _ _ _ herror => cases herror
      | sent fanOut targets standing hbefore hfansOut hrecords herror hfailed =>
          exact Stands.succ (.sent fanOut targets standing hbefore hfansOut hrecords nofun hfailed)
  | late => exact (h hsent).succ

theorem stands (course : Course) (time : Nat) (h : (course.run time).state.IsSent) :
    course.Stands time (course.run time).memory (course.run time).state := by
  induction time with
  | zero => exact absurd rfl h.1
  | succ time ih =>
      have hbecomes := course.run_succ time
      generalize course.run (time + 1) = run at hbecomes h
      cases hbecomes with
      | same => exact (ih h).succ
      | report input hreport hsent =>
          rw [Run.push_state, Run.push_memory]
          exact (ih hsent).succ
      | feed roster input rest _ hfeeds hrest hoffered hmemory hstate =>
          rw [hmemory, hstate]
          rw [hstate] at h
          exact .feed ih hfeeds hoffered h
      | stop => exact (ih h).succ

private theorem own_cases (course : Course) (time : Nat) :
    course.own time = [] ∨ ∃ roster input, course.Feeds time roster input ∧
      course.own time = (course.reaction time roster input).queued := by
  unfold own
  cases hevent : course.events time with
  | move roster =>
      simp only
      cases hnext : (course.run time).next course.automaton (course.now time) with
      | take input queue => exact .inr ⟨roster, input, ⟨hevent, .inl ⟨queue, hnext⟩⟩, rfl⟩
      | expire input => exact .inr ⟨roster, input, ⟨hevent, .inr hnext⟩, rfl⟩
      | stop | wait => exact .inl rfl
  | _ => exact .inl rfl

private theorem isUndecided_of_succ (h : (course.run (time + 1)).state.isUndecided = true) :
    (course.run time).state.isUndecided = true := by
  have hbecomes := course.run_succ time
  generalize course.run (time + 1) = run at hbecomes h
  cases hbecomes with
  | same => exact h
  | report input => rwa [Run.push_state] at h
  | feed roster input rest _ hfeeds _ _ _ hstate =>
      rw [hstate] at h
      rcases hfeeds.proceeds.settles with ⟨-, hundecided⟩ | ⟨hundecided, -, -⟩
      · exact hundecided h
      · exact hundecided
  | stop => exact h

private theorem settles_once (course : Course) (time : Nat) :
    (course.queued time).count .settle ≤ 1 ∧
      ((course.run time).state.isUndecided = true → (course.queued time).count .settle = 0) := by
  induction time with
  | zero => exact ⟨Nat.zero_le 1, fun _ => rfl⟩
  | succ time ih =>
      obtain ⟨honce, hnone⟩ := ih
      rw [queued, List.count_append]
      rcases course.own_cases time with hown | ⟨roster, input, hfeeds, hown⟩
      · rw [hown]
        exact ⟨honce, fun hundecided => hnone (isUndecided_of_succ hundecided)⟩
      · rw [hown, hfeeds.state_eq]
        rcases hfeeds.proceeds.settles with ⟨hcount, hundecided⟩ | ⟨hbefore, hafter, hcount⟩
        · rw [hcount]
          exact ⟨honce, fun hstate => hnone (hundecided hstate)⟩
        · rw [hcount, hnone hbefore, hafter]
          exact ⟨Nat.le_refl 1, nofun⟩

/-- Whatever comes from outside and in whatever order, a replication is as it should be. -/
theorem steady (course : Course) (time : Nat) : course.Steady time where
  alive := course.alive time
  expected _ _ hfeeds := hfeeds.proceeds.expects
  received _ hfeeds hstate := hfeeds.proceeds.receipt_ne_none hstate
  error hstate := by
    have hstands := course.stands time (hstate ▸ .of_isTerminal rfl)
    cases hstands with
    | refused earlier roster error _ hbefore hfeeds hsending hplan =>
        exact .inl ⟨earlier, roster, error, hbefore, hfeeds, hsending, hplan⟩
    | sent fanOut targets standing hbefore hfansOut _ herror hfailed =>
        refine .inr ⟨fanOut, targets, hbefore, hfansOut, fun peer hpeer => hfailed peer.name ?_⟩
        exact Standing.isUnsent_eq_true.mp (herror hstate peer.name (List.mem_map_of_mem hpeer))
  settled := (course.settles_once time).1
  deadline hstate := by
    obtain ⟨fanOut, targets, hlt, hfansOut, hdeadline⟩ := course.armed time hstate
    exact ⟨fanOut, targets, hlt, hfansOut, fun other others => hfansOut.unique, hdeadline⟩
  punctual hstate hqueue due input hdeadline hdue roster hmove := by
    obtain ⟨hover, -⟩ := course.alive time (by rw [hstate]; rfl)
    have hnext : (course.run time).next course.automaton (course.now time) = .expire input :=
      Run.next_expire hover (by rw [hstate]; rfl) hqueue hdeadline hdue
    have hfeeds : course.Feeds time roster input := ⟨hmove, .inr hnext⟩
    have hphase := (course.orderly time).phase
    rw [hdeadline] at hphase
    obtain ⟨-, rfl⟩ := hphase.eq_waiting
    rw [hfeeds.state_eq, reaction, hstate]
    exact Phase.conclude_ne_waiting _

end Course

end ReplicaRing.Replication
