import ReplicaRing.Proofs.Node.Requests
import ReplicaRing.Proofs.Replication.Reactions

/-! What one move of an operation means for its route and its request. -/

namespace ReplicaRing

private theorem Run.Moves.reacts_or_stops {View Memory State Input Effect : Type}
    [DecidableEq State]
    {automaton : Automaton View Memory State Input Effect} {view : View} {now : Nat}
    {run after : Run Memory State Input} {effects : List Effect}
    (h : run.Moves automaton view now after effects) :
    (∃ input, after.memory = (automaton.react view run.memory run.state input).memory ∧
      after.state = (automaton.react view run.memory run.state input).state ∧
      after.isOver = false ∧
      effects = (automaton.react view run.memory run.state input).effects) ∨
    after.memory = run.memory ∧ after.state = run.state ∧ after.isOver = true ∧
      effects = automaton.retire run.memory run.state := by
  cases h with
  | react ready input _ hmemory hstate hover =>
      refine .inl ⟨input, ?_, ?_, hover, rfl⟩
      · rw [← hmemory, ← hstate]
        rfl
      · rw [← hmemory, ← hstate]
        rfl
  | stop => exact .inr ⟨rfl, rfl, rfl, rfl⟩

private theorem Run.advance_congr {View Memory State Input Effect : Type} [DecidableEq State]
    {automaton : Automaton View Memory State Input Effect} {view other : View} {now : Nat}
    {run : Run Memory State Input}
    (h : automaton.react view run.memory run.state = automaton.react other run.memory run.state) :
    run.advance automaton view now = run.advance automaton other now := by
  unfold advance
  cases run.next automaton now <;> simp only [feed, h]

namespace Replication

variable {host : Host} {request : Request} {id : UInt64} {roster other : Roster} {tally : Tally}
  {state : State} {input : Input}

private theorem Tally.count_routed (tally : Tally) (vote : Option Vote) :
    (tally.count vote).routed = tally.routed := by
  rcases vote with _ | _ | _ <;> rfl

private theorem routed_react (hsent : state.IsSent) :
    (react host request id roster tally state input).memory.routed = tally.routed := by
  unfold react
  split
  · exact absurd rfl hsent.1
  · exact absurd rfl hsent.2
  · split
    · rw [Tally.awaitRest_memory, Tally.count_routed]
      rfl
    · rfl
  · split
    · rw [Tally.awaitRest_memory]
      rfl
    · rw [Tally.awaitRest_memory]
  · rw [Tally.conclude_memory]
  · rw [Tally.settleWith_memory]
  · rw [Tally.settleWith_memory]
  all_goals rfl

private theorem react_roster (hsent : state.IsSent) :
    react host request id roster tally state input =
      react host request id other tally state input := by
  unfold react
  split
  case h_1 => rfl
  case h_2 => exact absurd rfl hsent.2
  all_goals rfl

end Replication

namespace Ping

variable {host : Host} {target : String} {id : UInt64} {roster other : Roster} {memory : Memory}
  {state : State} {input : Input}

private theorem react_started (h : state ≠ .start) :
    (react host target id roster memory state input).memory = memory ∧
      (react host target id roster memory state input).state ≠ .start ∧
      (react host target id roster memory state input).effects = [] := by
  unfold react
  split
  case h_1 => exact absurd rfl h
  case h_3 => split <;> exact ⟨rfl, nofun, rfl⟩
  all_goals exact ⟨rfl, nofun, rfl⟩

private theorem react_roster (h : state ≠ .start) :
    react host target id roster memory state input =
      react host target id other memory state input := by
  unfold react
  split
  case h_1 => exact absurd rfl h
  all_goals rfl

inductive Starts (host : Host) (id : UInt64) (memory : Memory) : Step → Prop
  | sent (peer : Peer) :
      Starts host id memory
        { memory := { memory with routed := true }, state := .sent, queued := [.settle],
          effects := [.route id, .send peer (message host id)] }
  | error : Starts host id memory { memory, state := .error }

private theorem react_start : Starts host id memory
    (react host target id roster memory .start input) := by
  cases input with
  | start =>
      rw [react]
      split
      · exact .sent _
      · exact .error
  | _ => exact .error

end Ping

namespace Operation

variable {host : Host} {roster other : Roster} {now : Nat} {operation moved : Operation}
  {effects : List Effect}

/-- The operation has asked for the replies to its request. -/
def isRouted : Operation → Bool
  | replication _ _ run => run.memory.routed
  | ping _ _ run => run.memory.routed

def IsUnsent : Operation → Prop
  | replication _ _ run => ¬run.state.IsSent
  | ping _ _ run => run.state = .start

/-- What a move of an operation can be. -/
inductive Stride (operation moved : Operation) : List Effect → Prop
  | quiet (hrouted : moved.isRouted = operation.isRouted)
      (hunsent : moved.IsUnsent → operation.IsUnsent) (hover : moved.isOver = false) :
      Stride operation moved []
  | sendOut (sends : List Effect) (hunsent : operation.IsUnsent) (hsent : ¬moved.IsUnsent)
      (hrouted : moved.isRouted = true) (hover : moved.isOver = false)
      (hsends : ∀ effect ∈ sends, ∃ peer message, effect = .send peer message) :
      Stride operation moved (.route operation.id :: sends)
  | finish (hrouted : moved.isRouted = operation.isRouted)
      (hunsent : moved.IsUnsent → operation.IsUnsent) (hover : moved.isOver = true) :
      Stride operation moved
        (.abandon :: if operation.isRouted then [.unroute operation.id] else [])

private theorem stride_replication {request : Request} {id : UInt64}
    {run after : Run Replication.Tally Replication.State Replication.Input}
    (h : run.Moves (Replication.automaton host request id) roster now after effects) :
    Stride (.replication request id run) (.replication request id after) effects := by
  rcases h.reacts_or_stops with ⟨input, hmemory, hstate, hover, rfl⟩ | ⟨hmemory, hstate, hover, rfl⟩
  · change after.memory = (Replication.react host request id roster run.memory run.state
      input).memory at hmemory
    change after.state = (Replication.react host request id roster run.memory run.state
      input).state at hstate
    change Stride _ _ (Replication.react host request id roster run.memory run.state input).effects
    by_cases hsent : run.state.IsSent
    · have hlater := Replication.react_isSent host request id roster run.memory hsent input
      rw [hlater.2]
      refine .quiet ((congrArg Replication.Tally.routed hmemory).trans
        (Replication.routed_react hsent)) (fun hunsent => absurd ?_ hunsent) hover
      rw [hstate]
      exact hlater.1
    · have hdeparts := Replication.react_departs host request id roster run.memory hsent input
      generalize Replication.react host request id roster run.memory run.state input = step
        at hdeparts hmemory hstate
      cases hdeparts with
      | fanOut targets message =>
          refine .sendOut _ hsent ?_ (congrArg Replication.Tally.routed hmemory) hover ?_
          · exact fun hunsent => hunsent (hstate ▸ .waiting)
          · intro effect heffect
            obtain ⟨peer, -, rfl⟩ := List.mem_map.mp heffect
            exact ⟨peer, message, rfl⟩
      | ready | error =>
          exact .quiet (congrArg Replication.Tally.routed hmemory) (fun _ => hsent) hover
  · refine .finish (congrArg Replication.Tally.routed hmemory) (fun hunsent hsent => ?_) hover
    exact hunsent (hstate ▸ hsent)

private theorem stride_ping {target : String} {id : UInt64}
    {run after : Run Ping.Memory Ping.State Ping.Input}
    (h : run.Moves (Ping.automaton host target id) roster now after effects) :
    Stride (.ping target id run) (.ping target id after) effects := by
  rcases h.reacts_or_stops with ⟨input, hmemory, hstate, hover, rfl⟩ | ⟨hmemory, hstate, hover, rfl⟩
  · change after.memory = (Ping.react host target id roster run.memory run.state input).memory
      at hmemory
    change after.state = (Ping.react host target id roster run.memory run.state input).state
      at hstate
    change Stride _ _ (Ping.react host target id roster run.memory run.state input).effects
    by_cases hstart : run.state = .start
    · rw [hstart] at hmemory hstate ⊢
      have hstarts : Ping.Starts host id run.memory
          (Ping.react host target id roster run.memory .start input) := Ping.react_start
      generalize Ping.react host target id roster run.memory .start input = step
        at hstarts hmemory hstate
      cases hstarts with
      | sent peer =>
          refine .sendOut _ hstart ?_ (congrArg Ping.Memory.routed hmemory) hover ?_
          · intro hunsent
            cases hstate.symm.trans hunsent
          · intro effect heffect
            exact ⟨peer, _, List.mem_singleton.mp heffect⟩
      | error => exact .quiet (congrArg Ping.Memory.routed hmemory) (fun _ => hstart) hover
    · obtain ⟨hsame, hstarted, heffects⟩ := Ping.react_started hstart
      rw [heffects]
      refine .quiet (congrArg Ping.Memory.routed (hmemory.trans hsame))
        (fun hunsent => absurd (hstate.symm.trans hunsent) hstarted) hover
  · exact .finish (congrArg Ping.Memory.routed hmemory) (fun hunsent => hstate.symm.trans hunsent)
      hover

theorem stride_of_advance (h : operation.advance host roster now = some (moved, effects)) :
    Stride operation moved effects := by
  cases operation with
  | replication request id run =>
      obtain ⟨after, rfl, -, hmoves, -⟩ := advance_replication h
      exact stride_replication hmoves
  | ping target id run =>
      obtain ⟨after, rfl, hmoves⟩ := advance_ping h
      exact stride_ping hmoves

theorem isOver_of_advance (h : operation.advance host roster now = some (moved, effects)) :
    operation.isOver = false := by
  cases operation with
  | replication request id run =>
      obtain ⟨-, -, hover, -⟩ := advance_replication h
      exact hover
  | ping target id run =>
      simp only [advance, Option.map_eq_some_iff, Prod.mk.injEq, Prod.exists] at h
      obtain ⟨_, _, hadvance, -⟩ := h
      exact (Run.advance_eq_some hadvance).1

theorem advance_roster (hsent : ¬operation.IsUnsent) (roster other : Roster) :
    operation.advance host roster now = operation.advance host other now := by
  cases operation with
  | replication request id run =>
      have hreact : (Replication.automaton host request id).react roster run.memory run.state =
          (Replication.automaton host request id).react other run.memory run.state :=
        funext fun _ => Replication.react_roster (Classical.not_not.mp hsent)
      rw [advance, advance, Run.advance_congr hreact]
  | ping target id run =>
      have hreact : (Ping.automaton host target id).react roster run.memory run.state =
          (Ping.automaton host target id).react other run.memory run.state :=
        funext fun _ => Ping.react_roster hsent
      rw [advance, advance, Run.advance_congr hreact]

@[simp] theorem isRouted_reply (message : Message) (operation : Operation) :
    (operation.reply message).isRouted = operation.isRouted := by
  cases operation <;> simp [reply, isRouted]

@[simp] theorem isRouted_sendFailed (peer : String) (operation : Operation) :
    (operation.sendFailed peer).isRouted = operation.isRouted := by
  cases operation <;> simp [sendFailed, isRouted]

@[simp] theorem isOver_reply (message : Message) (operation : Operation) :
    (operation.reply message).isOver = operation.isOver := by
  cases operation <;> simp [reply, isOver]

@[simp] theorem isOver_sendFailed (peer : String) (operation : Operation) :
    (operation.sendFailed peer).isOver = operation.isOver := by
  cases operation <;> simp [sendFailed, isOver]

@[simp] theorem isUnsent_reply (message : Message) (operation : Operation) :
    (operation.reply message).IsUnsent ↔ operation.IsUnsent := by
  cases operation <;> simp [reply, IsUnsent]

@[simp] theorem isUnsent_sendFailed (peer : String) (operation : Operation) :
    (operation.sendFailed peer).IsUnsent ↔ operation.IsUnsent := by
  cases operation <;> simp [sendFailed, IsUnsent]

def enqueue (message : Message) : Operation → Operation
  | replication request id run =>
      replication request id { run with queue := run.queue ++ [.input (.reply message)] }
  | ping target id run => ping target id { run with queue := run.queue ++ [.input (.pong message)] }

theorem reply_eq_enqueue (message : Message) (h : operation.isOver = false) :
    operation.reply message = operation.enqueue message := by
  cases operation with
  | replication request id run | ping target id run =>
      change run.isOver = false at h
      simp [reply, enqueue, Run.push, h]

theorem reply_of_isOver (message : Message) (h : operation.isOver = true) :
    operation.reply message = operation := by
  cases operation with
  | replication request id run | ping target id run => simp only [reply, Run.push_of_isOver _ h]

inductive Stumbles (host : Host) (roster : Roster) (now : Nat) : Operation → Prop
  | plan {request : Request} {id : UInt64}
      {run : Run Replication.Tally Replication.State Replication.Input}
      {queue : List (Command Replication.Input)} {error : ProtocolError}
      (hstate : run.state = .sending)
      (hnext : run.next (Replication.automaton host request id) now = .take .send queue)
      (hplan : Replication.plan host request id roster = .error error) :
      Stumbles host roster now (.replication request id run)
  | unknown {target : String} {id : UInt64} {run : Run Ping.Memory Ping.State Ping.Input}
      {queue : List (Command Ping.Input)} (hstate : run.state = .start)
      (hnext : run.next (Ping.automaton host target id) now = .take .start queue)
      (htarget : roster.find? target = none) :
      Stumbles host roster now (.ping target id run)

theorem Stumbles.advance (h : operation.Stumbles host roster now) :
    operation.IsUnsent ∧ ∃ moved, operation.advance host roster now = some (moved, []) ∧
      moved.isRouted = operation.isRouted ∧ ¬moved.IsUnsent := by
  cases h with
  | @plan request id run queue error hstate hnext hplan =>
      have hreact : Replication.react host request id roster run.memory run.state .send =
          { memory := run.memory, state := .error } := by
        simp only [hstate, Replication.react, hplan]
      refine ⟨fun hsent => hsent.2 hstate, .replication request id
        (Run.feed (Replication.automaton host request id) roster now { run with queue } .send).1,
        ?_, congrArg (fun reaction => reaction.memory.routed) hreact, fun hunsent => hunsent ?_⟩
      · simp only [Operation.advance, Run.advance, hnext, Option.map_some]
        exact congrArg (fun reaction => some (_, reaction.effects)) hreact
      · change (Replication.react host request id roster run.memory run.state .send).state.IsSent
        rw [hreact]
        exact .of_isTerminal rfl
  | @unknown target id run queue hstate hnext htarget =>
      have hreact : Ping.react host target id roster run.memory run.state .start =
          { memory := run.memory, state := .error } := by
        simp only [hstate, Ping.react, htarget]
      refine ⟨hstate, .ping target id
        (Run.feed (Ping.automaton host target id) roster now { run with queue } .start).1,
        ?_, congrArg (fun reaction => reaction.memory.routed) hreact, fun hunsent => ?_⟩
      · simp only [Operation.advance, Run.advance, hnext, Option.map_some]
        exact congrArg (fun reaction => some (_, reaction.effects)) hreact
      · change (Ping.react host target id roster run.memory run.state .start).state = .start
          at hunsent
        rw [hreact] at hunsent
        cases hunsent

end Operation

end ReplicaRing
