import ReplicaRing.Proofs.Replication.Conduct
import ReplicaRing.Proofs.Ring.Placement
import ReplicaRing.Simulation.Call

/-!
Two ways to the replicas of a key: a client may ask who they are, and a store or a load goes to them.
On one roster both come to the same peers, or to the same error.
-/

namespace ReplicaRing

private theorem Except.error_of_mapError_bind {E F A B : Type} {wrap : E → F} {attempt : Except E A}
    {next : A → Except F B} {error : F} (h : (attempt.mapError wrap >>= next) = .error error) :
    (∃ cause, attempt = .error cause ∧ error = wrap cause) ∨
      ∃ value, attempt = .ok value ∧ next value = .error error := by
  cases attempt with
  | error cause =>
      cases h
      exact .inl ⟨cause, rfl, rfl⟩
  | ok value => exact .inr ⟨value, rfl, h⟩

namespace Replication

open Simulation (Call)

private theorem plan_eq_error_iff {host : Host} {request : Request} {id : UInt64} {roster : Roster}
    {error : RingError} :
    plan host request id roster = .error (.ring error) ↔
      roster.replicas (.hash request.key) request.level = .error error := by
  refine ⟨fun h => ?_, fun h => ?_⟩
  · rcases Except.error_of_mapError_bind h with ⟨cause, hcause, hwrap⟩ | ⟨targets, -, h⟩
    · cases hwrap
      exact hcause
    · rcases Except.error_of_mapError_bind h with ⟨cause, -, hwrap⟩ | ⟨payload, -, h⟩
      · cases hwrap
      · rcases Except.error_of_mapError_bind h with ⟨cause, -, hwrap⟩ | ⟨datagram, -, h⟩
        · cases hwrap
        · cases h
  · rw [plan, h]
    rfl

private theorem foldl_apply_send (conduct : Conduct) (peers : List Peer) (message : Message) :
    (peers.map fun peer => Effect.send peer message).foldl Conduct.apply conduct =
      { conduct with sends := conduct.sends ++ peers } := by
  induction peers generalizing conduct with
  | nil => simp
  | cons peer rest ih => simp [ih, Conduct.apply]

namespace Course

variable (course : Course)

def message (payload : Bytes) : Message :=
  ((course.host.request course.request.topic course.request.verb).withRequestId
    course.id).withPayload payload

/-- The request goes where a placement says. -/
structure Follows (time : Nat) (roster : Roster) (placement : Except RingError (List Peer)) :
    Prop where
  refused : ∀ error, placement = .error error ↔
    plan course.host course.request course.id roster = .error (.ring error)
  unsent : ∀ error, placement = .error error →
    (course.run (time + 1)).state = .error ∧ (course.after (time + 1)).sends = []
  /-- Every peer of the placement is sent the request once, and they are the ones waited for. -/
  sent : ∀ peers payload datagram, placement = .ok peers → course.request.payload = .ok payload →
    (course.message payload).encode = .ok datagram →
      (course.run time).advance course.automaton roster (course.now time) =
        some (course.run (time + 1),
          .route course.id :: peers.map fun peer => .send peer (course.message payload)) ∧
      (course.after (time + 1)).sends = peers ∧
      (course.run (time + 1)).state = .waiting ∧
      (course.run (time + 1)).memory.pending = peers.map Peer.name

variable {course} {time : Nat} {roster : Roster}

private theorem plan_of_replicas {peers : List Peer} {payload datagram : Bytes}
    (hpeers : roster.replicas (.hash course.request.key) course.request.level = .ok peers)
    (hpayload : course.request.payload = .ok payload)
    (hdatagram : (course.message payload).encode = .ok datagram) :
    plan course.host course.request course.id roster = .ok (peers, course.message payload) := by
  unfold plan
  rw [Except.mapError_bind_of_ok hpeers, Except.mapError_bind_of_ok hpayload]
  exact Except.mapError_bind_of_ok hdatagram _

private theorem advance_sending (course : Course) (hsending : (course.run time).state = .sending)
    (roster : Roster) :
    let step := react course.host course.request course.id roster {} .sending .send
    ∃ after : Run Tally State Input,
      (course.run time).advance course.automaton roster (course.now time) =
        some (after, step.effects) ∧
      after.memory = step.memory ∧ after.state = step.state := by
  have hlive : (course.run time).isOver = false := by
    by_contra hover
    have hterminal := (course.orderly time).final (by simpa using hover)
    rw [hsending] at hterminal
    cases hterminal
  have hphase := (course.orderly time).phase
  rw [hsending] at hphase
  generalize hqueue : (course.run time).queue = queue at hphase
  generalize (course.run time).deadline = deadline at hphase
  cases hphase with
  | sending htally =>
      have hnext : (course.run time).next course.automaton (course.now time) = .take .send [] := by
        refine Run.next_take hlive ?_ hqueue
        rw [hsending]
        rfl
      simp only [Run.advance, hnext, Run.feed, htally, hsending]
      exact ⟨_, rfl, rfl, rfl⟩
  | decided _ _ _ hstate => cases hstate
  | final _ _ hstate => cases hstate

private theorem after_succ {after : Run Tally State Input} {effects : List Effect}
    (hmove : course.events time = .move roster)
    (hadvance : (course.run time).advance course.automaton roster (course.now time) =
      some (after, effects)) :
    course.after (time + 1) =
      effects.foldl Conduct.apply { course.after time with run := after } := by
  simp only [run, now] at hadvance
  rw [Course.after, hmove, Conduct.step, hadvance]

private theorem follows (hmove : course.events time = .move roster)
    (hsending : (course.run time).state = .sending) :
    course.Follows time roster
      (roster.replicas (.hash course.request.key) course.request.level) where
  refused _ := plan_eq_error_iff.symm
  unsent error herror := by
    obtain ⟨after, hadvance, -, hstate⟩ := course.advance_sending hsending roster
    have hplan : plan course.host course.request course.id roster = .error (.ring error) :=
      plan_eq_error_iff.mpr herror
    rw [react, hplan] at hadvance hstate
    have hunsent : ¬(course.run time).state.IsSent := fun hsent => hsent.2 hsending
    have hafter := after_succ hmove hadvance
    rw [run, hafter]
    exact ⟨hstate, ((course.sound time).unsent hunsent).2⟩
  sent peers payload datagram hpeers hpayload hdatagram := by
    obtain ⟨after, hadvance, hmemory, hstate⟩ := course.advance_sending hsending roster
    rw [react, plan_of_replicas hpeers hpayload hdatagram] at hadvance hmemory hstate
    have hunsent : ¬(course.run time).state.IsSent := fun hsent => hsent.2 hsending
    have hafter := after_succ hmove hadvance
    change _ = (Effect.route _ :: peers.map _).foldl Conduct.apply _ at hafter
    rw [List.foldl_cons, foldl_apply_send] at hafter
    have hrun : course.run (time + 1) = after := by
      rw [run, hafter]
      rfl
    rw [hrun, hafter]
    refine ⟨hadvance, ?_, hstate, ?_⟩
    · change (course.after time).sends ++ peers = peers
      rw [((course.sound time).unsent hunsent).2, List.nil_append]
    · rw [hmemory, (fanOut_records course.id _ (Roster.replicas_names hpeers)).pending]
      simp

/-- A request goes to the peers that a client on the same roster is told.  In a cluster where every
peer has a token and no two tokens collide, these are as many as the level asks for, or all. -/
theorem follows_placement (hmove : course.events time = .move roster)
    (hsending : (course.run time).state = .sending) :
    ∃ placement : Except RingError (List Peer),
      Call.program course.host roster (.replicas (.hash course.request.key) course.request.level) =
        .done (.replicas placement) ∧
      course.Follows time roster placement ∧
      (0 < roster.size → (∀ peer ∈ roster.peers, peer.tokens ≠ 0) →
        (roster.tokens.map Token.position).Nodup →
        ∃ peers, placement = .ok peers ∧
          peers.length = min (course.request.level.copies roster.size) roster.size ∧
          0 < peers.length ∧ peers.length ≤ roster.size ∧
          (peers.map Peer.name).Nodup ∧ ∀ peer ∈ peers, peer ∈ roster.peers) := by
  refine ⟨_, rfl, follows hmove hsending, fun hsome htokens hdistinct => ?_⟩
  obtain ⟨peers, hpeers, hlength, hnames, hmembers⟩ :=
    Roster.exists_replicas hsome htokens hdistinct (.hash course.request.key) course.request.level
  have hpos : 0 < peers.length := List.length_pos_of_ne_nil (Roster.replicas_ne_nil hpeers)
  exact ⟨peers, hpeers, hlength, hpos, hlength ▸ Nat.min_le_right _ _, hnames, hmembers⟩

end Course

end Replication

namespace Trio

/-! A load at level one in the cluster of three: two of the peers are asked. -/

def course : Replication.Course where
  host := { name := "a" }
  request := .load [2] .one
  id := 7
  start := 0
  events _ := .move roster

private theorem replicas_of_load :
    roster.replicas (.hash course.request.key) course.request.level = .ok [third, leaver] := by
  have hring : Ring.ofRoster roster = .ok ring := Ring.ofTokens_of_perm sorted_tokens perm_tokens
  have hwalk : ring.walk (.hash course.request.key) = [third, leaver, second] := by decide +kernel
  have hsize : ring.size ≠ 0 := by decide
  rw [Roster.replicas_eq, hring]
  simp only [if_neg hsize, hwalk]
  rfl

theorem follows_placement_of_load :
    course.events 1 = .move roster ∧ (course.run 1).state = .sending ∧
      course.Follows 1 roster (.ok [third, leaver]) ∧
      ([third, leaver] : List Peer).length = min (Level.one.copies roster.size) roster.size := by
  obtain ⟨placement, htold, hfollows, hhonoured⟩ :=
    @Replication.Course.follows_placement course 1 roster rfl rfl
  have hplacement : placement = .ok [third, leaver] := by
    rw [Simulation.Call.program, replicas_of_load] at htold
    cases htold
    rfl
  have hdistinct : (roster.tokens.map Token.position).Nodup :=
    (perm_tokens.map Token.position).nodup_iff.mpr
      (List.pairwise_map.mpr (sorted_tokens.imp fun hlt => BitVec.ne_of_lt hlt))
  obtain ⟨peers, hpeers, hlength, -⟩ := hhonoured (by decide) (by decide) hdistinct
  cases hplacement
  cases hpeers
  exact ⟨rfl, rfl, hfollows, hlength⟩

end Trio

end ReplicaRing
