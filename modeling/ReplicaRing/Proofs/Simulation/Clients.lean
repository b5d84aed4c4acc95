import ReplicaRing.Proofs.Simulation.Mirrors

/-! What clients in the world of a cluster are told, clients of a fleet are told as well. -/

namespace ReplicaRing

open Simulation (Answer Call Session)

namespace Fleet

section Fleet

variable {Member S : Type} [DecidableEq Member] [Storage S] {fleet : Fleet Member S}
  {before later : List (Caller Member)}

private theorem step_resume {client : Caller Member}
    (h : fleet.callers = before ++ client :: later) :
    fleet.step (.resume before.length) =
      { (fleet.resume client.member client.session).2 with
        callers := before ++
          { client with session := (fleet.resume client.member client.session).1 } :: later } := by
  have hclient : fleet.callers[before.length]? = some client := by
    rw [h, List.getElem?_append_right (Nat.le_refl _), Nat.sub_self]
    rfl
  rw [step, hclient, h]
  simp only [List.set_append_right _ _ (Nat.le_refl _), Nat.sub_self, List.set_cons_zero]

private theorem run_call (fleet : Fleet Member S) (member : Member) (calls : List Call) :
    fleet.run (calls.map (.call member)) =
      { fleet with
        callers := fleet.callers ++ calls.map fun call =>
          ⟨member, call, .pausing fleet.now (call.program (fleet.nodes member).host
            (fleet.nodes member).membership.roster)⟩ } := by
  induction calls generalizing fleet with
  | nil => simp only [List.map_nil, run, List.foldl_nil, List.append_nil]
  | cons call rest ih =>
      change (fleet.step (.call member call)).run (rest.map (.call member)) = _
      rw [ih]
      simp only [step, List.map_cons, List.append_assoc, List.singleton_append]

end Fleet

end Fleet

namespace Simulation

namespace Session

variable {M : Type} {index : Nat}

private theorem now_start (program : Exchanges Answer) (world : World M) :
    (start index program world).2.now = world.now := by
  induction program generalizing world with
  | done result => rfl
  | ask exchange next ih =>
      cases exchange with
      | replicate request =>
          unfold start
          split
          · exact ih .error world
          · exact (Agenda.adds_remind trivial : Agenda.Adds _ _ fun _ => True).now
      | ping name =>
          unfold start
          split
          · exact ih .error world
          · exact (Agenda.adds_remind trivial : Agenda.Adds _ _ fun _ => True).now
      | pause time =>
          unfold start
          split
          · exact ih () world
          · exact (Agenda.adds_schedule trivial : Agenda.Adds _ _ fun _ => True).now

private theorem eachInTurn_start (programs : List (Exchanges Answer)) (world : World M) :
    eachInTurn (start index) programs world =
      eachInTurn (resume index) (programs.map (.pausing world.now)) world := by
  induction programs generalizing world with
  | nil => rfl
  | cons program rest ih =>
      have hresume : resume index (.pausing world.now program) world = start index program world :=
        if_pos (Nat.le_refl _)
      rw [List.map_cons, eachInTurn, eachInTurn, hresume]
      simp only
      rw [ih, now_start]

private theorem eq_ended {sessions : List (Session Answer)}
    (h : (sessions.all fun session => session.result?.isSome) = true) :
    sessions = (sessions.filterMap result?).map fun answer => .ended answer.1 answer.2 := by
  induction sessions with
  | nil => rfl
  | cons session rest ih =>
      rw [List.all_cons, Bool.and_eq_true] at h
      cases session with
      | ended result time => exact congrArg (List.cons _) (ih h.2)
      | _ => cases h.1

private theorem length_eachInTurn {Start End : Type} (step : Start → World M → End × World M)
    (starts : List Start) (world : World M) :
    (eachInTurn step starts world).1.length = starts.length := by
  induction starts generalizing world with
  | nil => rfl
  | cons first rest ih => exact congrArg Nat.succ (ih _)

end Session

namespace World.Mirrors

variable {world : World Switchboard} {members index : Nat} {fleet : Fleet Nat MemoryStore}
  {callers before later : List (Fleet.Caller Nat)} {call : Call} {session : Session Answer}

private theorem setCallers (h : world.Mirrors members callers fleet)
    (others : List (Fleet.Caller Nat)) :
    world.Mirrors members others { fleet with callers := others } where
  callers := rfl
  size := h.size
  nodes := h.nodes
  now := h.now
  timely := h.timely
  events event hevent := by
    have hmatched := h.events event hevent
    cases event <;> exact hmatched
  located := h.located
  carries := h.carries

private theorem exists_node (h : world.Mirrors members callers fleet) (hindex : index < members) :
    world.nodes[index]? = some (fleet.nodes index) := by
  have hsize : index < world.nodes.size := h.size ▸ hindex
  rw [h.nodes index _ (Array.getElem?_eq_getElem hsize)]
  exact Array.getElem?_eq_getElem hsize

private theorem start (hindex : index < members) (program : Exchanges Answer)
    (h : world.Mirrors members (before ++ ⟨index, call, session⟩ :: later) fleet)
    (hresume : fleet.resume index session = fleet.proceed index program) :
    ∃ after, fleet.Reaches after ∧ (Session.start index program world).2.Mirrors members
      (before ++ ⟨index, call, (Session.start index program world).1⟩ :: later) after := by
  induction program generalizing world fleet session with
  | done result =>
      have hstep := Fleet.step_resume h.callers
      rw [hresume] at hstep
      refine ⟨_, .one hstep, ?_⟩
      rw [Session.start, ← h.now]
      exact h.setCallers _
  | ask exchange next ih =>
      have hstep := Fleet.step_resume h.callers
      rw [hresume] at hstep
      have hnode := h.exists_node hindex
      cases exchange with
      | replicate request =>
          have haddress : ((fleet.nodes index).startReplication fleet.now request).2.address =
            (fleet.nodes index).address := rfl
          refine ⟨_, .one hstep, ?_⟩
          unfold Session.start
          simp only [hnode, ← h.now]
          exact ((h.setNode hnode haddress).wake index _).setCallers _
      | ping name =>
          have haddress : ((fleet.nodes index).startPing fleet.now name).2.address =
            (fleet.nodes index).address := rfl
          refine ⟨_, .one hstep, ?_⟩
          unfold Session.start
          simp only [hnode, ← h.now]
          exact ((h.setNode hnode haddress).wake index _).setCallers _
      | pause time =>
          unfold Session.start
          split
          case isTrue hzero =>
            subst hzero
            let rested : Session Answer := .pausing (fleet.now + 0) (next ())
            have hresumed := h.setCallers (before ++ ⟨index, call, rested⟩ :: later)
            obtain ⟨after, hreaches, hafter⟩ := ih () hresumed (if_pos (Nat.le_refl _))
            exact ⟨after, (Fleet.Reaches.one hstep).trans hreaches, hafter⟩
          case isFalse =>
            have halarm : world.agenda.Adds (world.agenda.schedule (world.now + time) .alarm)
              fun event => event.IsMatched fleet := Agenda.adds_schedule trivial
            refine ⟨_, .one hstep, ?_⟩
            simp only [← h.now] at halarm ⊢
            exact (h.setAgenda halarm).setCallers _

private theorem resume (hindex : index < members)
    (h : world.Mirrors members (before ++ ⟨index, call, session⟩ :: later) fleet) :
    ∃ after, fleet.Reaches after ∧ (Session.resume index session world).2.Mirrors members
      (before ++ ⟨index, call, (Session.resume index session world).1⟩ :: later) after := by
  have hoperation : ∀ operation,
      world.operation? index operation = (fleet.nodes index).operations[operation]? := by
    intro operation
    rw [operation?, h.exists_node hindex]
    rfl
  cases session with
  | replicating operation next =>
      rw [Session.resume, hoperation]
      split
      case h_1 request id run hfound =>
        split
        case isTrue hover =>
          refine h.start hindex (next run.state) ?_
          rw [Fleet.resume, hfound]
          exact if_pos hover
        case isFalse => exact ⟨fleet, .refl, h⟩
      case h_2 => exact ⟨fleet, .refl, h⟩
  | pinging operation next =>
      rw [Session.resume, hoperation]
      split
      case h_1 target id run hfound =>
        split
        case isTrue hover =>
          refine h.start hindex (next run.state) ?_
          rw [Fleet.resume, hfound]
          exact if_pos hover
        case isFalse => exact ⟨fleet, .refl, h⟩
      case h_2 => exact ⟨fleet, .refl, h⟩
  | pausing till next =>
      rw [Session.resume]
      split
      case isTrue htill =>
        refine h.start hindex next ?_
        rw [Fleet.resume, h.now]
        exact if_pos htill
      case isFalse => exact ⟨fleet, .refl, h⟩
  | ended result time => exact ⟨fleet, .refl, h⟩

private theorem eachInTurn {calls : List Call} {sessions : List (Session Answer)}
    (hindex : index < members) (hlength : calls.length = sessions.length)
    (h : world.Mirrors members (before ++ List.zipWith (.mk index) calls sessions) fleet) :
    ∃ after, fleet.Reaches after ∧
      (Session.eachInTurn (Session.resume index) sessions world).2.Mirrors members
        (before ++ List.zipWith (.mk index) calls
          (Session.eachInTurn (Session.resume index) sessions world).1) after := by
  induction sessions generalizing calls before world fleet with
  | nil => exact ⟨fleet, .refl, h⟩
  | cons session rest ih =>
      cases calls with
      | nil => cases hlength
      | cons call others =>
          obtain ⟨middle, hmiddle, hresumed⟩ := h.resume hindex
          rw [← List.singleton_append, ← List.append_assoc] at hresumed
          obtain ⟨after, hafter, hrest⟩ := ih (Nat.succ.inj hlength) hresumed
          rw [List.append_assoc] at hrest
          exact ⟨after, hmiddle.trans hafter, hrest⟩

/-- A fleet comes as far as the world, with sessions for the calls of new clients. -/
structure Attends (fleet : Fleet Nat MemoryStore) (members : Nat)
    (callers : List (Fleet.Caller Nat)) (index : Nat) (calls : List Call)
    (sessions : List (Session Answer)) (world : World Switchboard) : Prop where
  length : calls.length = sessions.length
  reaches : ∃ after, fleet.Reaches after ∧
    world.Mirrors members (callers ++ List.zipWith (.mk index) calls sessions) after

private theorem preserves (hindex : index < members) (calls : List Call) :
    Simulator.Preserves
      { agenda := World.agenda
        setAgenda := fun world agenda => { world with agenda }
        handle := World.handle
        goOn := Session.eachInTurn (Session.resume index)
        isFinished := fun sessions => sessions.all fun session => session.result?.isSome }
      (Attends fleet members callers index calls) where
  goOn sessions world h := by
    obtain ⟨middle, hmiddle, hmirrors⟩ := h.reaches
    obtain ⟨after, hafter, hresumed⟩ := hmirrors.eachInTurn hindex h.length
    refine ⟨?_, after, hmiddle.trans hafter, hresumed⟩
    rw [h.length, Session.length_eachInTurn]
  handle sessions world event rest h hpop := by
    obtain ⟨middle, hmiddle, hmirrors⟩ := h.reaches
    obtain ⟨hholds, hrest⟩ := Agenda.pop?_eq_some hpop
    have hpopped := hmirrors.setAgenda hrest
    obtain ⟨after, hafter, hhandled⟩ := hpopped.handle (hmirrors.events event hholds)
    exact ⟨h.length, after, hmiddle.trans hafter, hhandled⟩
  elapse sessions world later h helapse := by
    obtain ⟨middle, hmiddle, hmirrors⟩ := h.reaches
    obtain ⟨after, hafter, helapsed⟩ := hmirrors.elapse helapse
    exact ⟨h.length, after, hmiddle.trans hafter, helapsed⟩

/-- Whatever calls on a node of a cluster in memory are told, a fleet can tell them. -/
theorem told (h : world.Mirrors members callers fleet) (hindex : index < members)
    {calls : List Call} {answers : List (Answer × Nat)} {later : World Switchboard}
    (hcall : world.call index calls = some (answers, later)) :
    answers.length = calls.length ∧ ∃ after, fleet.Reaches after ∧
      later.Mirrors members (callers ++ calls.zipWith
        (fun call answer => ⟨index, call, .ended answer.1 answer.2⟩) answers) after := by
  obtain rfl := h.callers
  rw [World.call, h.exists_node hindex] at hcall
  simp only [World.perform, Option.map_eq_some_iff] at hcall
  obtain ⟨⟨ended, final⟩, hrun, hended⟩ := hcall
  cases hended
  simp only [Session.eachInTurn_start] at hrun
  have hbefore : Attends fleet members fleet.callers index calls
      ((calls.map (Call.program (fleet.nodes index).host
        (fleet.nodes index).membership.roster)).map (.pausing world.now)) world := by
    refine ⟨by rw [List.length_map, List.length_map], _, ⟨_, Fleet.run_call fleet index calls⟩, ?_⟩
    rw [List.map_map, List.zipWith_map_right, List.zipWith_self, ← h.now]
    exact h.setCallers _
  have hattends := (preserves hindex calls).goOn _ _ hbefore
  obtain ⟨⟨hlength, hreaches⟩, hfinished⟩ := (preserves hindex calls).runFor hattends hrun
  rw [Session.eq_ended hfinished, List.length_map] at hlength
  rw [Session.eq_ended hfinished, List.zipWith_map_right] at hreaches
  exact ⟨hlength.symm, hreaches⟩

end World.Mirrors

end Simulation

end ReplicaRing
