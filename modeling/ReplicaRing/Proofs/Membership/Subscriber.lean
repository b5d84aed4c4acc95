import Mathlib.Data.List.DropRight
import Mathlib.Data.List.Infix
import ReplicaRing.Proofs.Membership.Changes

/-!
A subscriber of a membership.  While it keeps up, what it has heard replays to the roster of every
replacement that is complete; when it falls behind, it learns how much it missed.
-/

namespace ReplicaRing

section Newest

variable {Item : Type} {items others : List Item} {count : Nat}

private theorem length_rtake (items : List Item) (count : Nat) :
    (items.rtake count).length = min count items.length := by
  rw [List.rtake, List.length_drop]
  omega

private theorem rtake_rtake (items : List Item) (count limit : Nat) :
    (items.rtake limit).rtake count = items.rtake (min count limit) := by
  simp only [List.rtake_eq_reverse_take_reverse, List.reverse_reverse, List.take_take]

private theorem rtake_append_of_le (h : count ≤ others.length) :
    (items ++ others).rtake count = others.rtake count := by
  rw [List.rtake_eq_reverse_take_reverse, List.rtake_eq_reverse_take_reverse, List.reverse_append,
    List.take_append_of_le_length (by rwa [List.length_reverse])]

private theorem rtake_append_rtake (items others : List Item) (limit : Nat) :
    (items.rtake limit ++ others).rtake limit = (items ++ others).rtake limit := by
  simp only [List.rtake_eq_reverse_take_reverse, List.reverse_append, List.reverse_reverse,
    List.take_append, List.take_take, List.length_reverse]
  congr 3
  omega

end Newest

private theorem Feed.publish_eq (feed : Feed) (notices : List Notice) :
    feed.publish notices =
      ⟨feed.sent + notices.length, (feed.kept ++ notices).rtake capacity⟩ := rfl

private theorem Feed.publish_publish (feed : Feed) (first second : List Notice) :
    (feed.publish first).publish second = feed.publish (first ++ second) := by
  simp only [publish_eq, rtake_append_rtake, List.append_assoc, List.length_append, Nat.add_assoc]

private theorem Feed.publish_nil {feed : Feed} (h : feed.kept.length ≤ capacity) :
    feed.publish [] = feed := by
  rw [publish_eq, List.append_nil, List.rtake, Nat.sub_eq_zero_of_le h]
  rfl

private theorem Feed.length_kept_publish (feed : Feed) (notices : List Notice) :
    (feed.publish notices).kept.length ≤ capacity := by
  have hlength := length_rtake (feed.kept ++ notices) capacity
  exact Nat.le_trans (Nat.le_of_eq hlength) (Nat.min_le_left _ _)

private theorem Membership.length_kept_replace (initial : Roster) (rosters : List Roster) :
    (rosters.foldl replace { roster := initial }).feed.kept.length ≤ Feed.capacity := by
  induction rosters using List.reverseRecOn with
  | nil => exact Nat.zero_le _
  | append_singleton earlier roster _ =>
      rw [List.foldl_concat]
      exact Feed.length_kept_publish _ _

structure Watch where
  membership : Membership
  subscription : Subscription
  /-- The notices of the replacement under way that are still to be sent. -/
  due : List Notice := []
  sent : List Notice := []
  heard : List Notice := []
  lost : Nat := 0
  snapshots : List Roster := []

inductive Watch.Move
  /-- A new roster is put in force.  Nothing happens while an earlier replacement has notices to send. -/
  | replace (roster : Roster)
  | send
  | drain
  | snapshot

namespace Watch

def subscribed (membership : Membership) : Watch :=
  { membership, subscription := membership.subscribe }

def step (watch : Watch) : Move → Watch
  | .replace roster =>
      match watch.due with
      | [] => { watch with
          membership := { watch.membership with roster }
          due := Membership.changes watch.membership.roster roster }
      | _ :: _ => watch
  | .send =>
      match watch.due with
      | [] => watch
      | notice :: rest => { watch with
          membership := { watch.membership with feed := watch.membership.feed.publish [notice] }
          due := rest
          sent := watch.sent ++ [notice] }
  | .drain =>
      let (delivery, subscription) := watch.membership.drain watch.subscription
      { watch with
        subscription
        heard := watch.heard ++ delivery.notices
        lost := watch.lost + delivery.lost }
  | .snapshot => { watch with snapshots := watch.snapshots ++ [watch.membership.roster] }

def run (watch : Watch) (moves : List Move) : Watch := moves.foldl step watch

def outstanding (watch : Watch) : Nat := watch.sent.length - watch.heard.length - watch.lost

/-- The subscriber never lets more notices wait than are kept for it. -/
def IsPrompt (watch : Watch) (moves : List Move) : Prop :=
  ∀ before, before <+: moves → (watch.run before).outstanding ≤ Feed.capacity

variable {watch start : Watch} {origin : Roster} {older : List Notice} {before moves : List Move}

private theorem run_append (watch : Watch) (first second : List Move) :
    watch.run (first ++ second) = (watch.run first).run second := List.foldl_append

private theorem IsPrompt.of_cons {move : Move} (h : watch.IsPrompt (move :: moves)) :
    (watch.step move).IsPrompt moves :=
  fun before hbefore => h (move :: before) ((List.prefix_cons_inj move).mpr hbefore)

structure Tracks (origin : Roster) (older : List Notice) (watch : Watch) : Prop where
  kept : watch.membership.feed.kept = (older ++ watch.sent).rtake Feed.capacity
  waiting : watch.membership.feed.sent = watch.subscription + watch.outstanding
  counted : watch.heard.length + watch.lost ≤ watch.sent.length
  replayed : origin.replay (watch.sent ++ watch.due) = watch.membership.roster

private theorem tracks_subscribed (membership : Membership)
    (hkept : membership.feed.kept.length ≤ Feed.capacity) :
    Tracks membership.roster membership.feed.kept (subscribed membership) where
  kept := by
    rw [subscribed, List.append_nil, List.rtake, Nat.sub_eq_zero_of_le hkept, List.drop_zero]
  waiting := rfl
  counted := Nat.le_refl 0
  replayed := rfl

namespace Tracks

/-- What waits is delivered up to the capacity, and the rest is reported as lost. -/
theorem drain (h : Tracks origin older watch) :
    watch.membership.drain watch.subscription =
      (⟨watch.outstanding - Feed.capacity,
        watch.sent.rtake (min watch.outstanding Feed.capacity)⟩,
        watch.subscription + watch.outstanding) := by
  have hwaiting : watch.membership.feed.sent - watch.subscription = watch.outstanding := by
    rw [h.waiting, Nat.add_sub_cancel_left]
  have hlength : watch.membership.feed.kept.length =
      min Feed.capacity (older.length + watch.sent.length) := by
    rw [h.kept, length_rtake, List.length_append]
  have hle : watch.outstanding ≤ watch.sent.length := by
    unfold outstanding
    omega
  have hfound : watch.membership.feed.kept.rtake watch.outstanding =
      watch.sent.rtake (min watch.outstanding Feed.capacity) := by
    rw [h.kept, rtake_rtake, rtake_append_of_le (Nat.le_trans (Nat.min_le_left _ _) hle)]
  have hlost : watch.outstanding - watch.membership.feed.kept.length =
      watch.outstanding - Feed.capacity := by
    omega
  rw [Membership.drain]
  simp only [hwaiting, hlost]
  rw [← h.waiting, ← hfound, List.rtake]

private theorem step (h : Tracks origin older watch) (move : Move) :
    Tracks origin older (watch.step move) := by
  cases move with
  | replace roster =>
      rw [Watch.step]
      split
      case h_1 hdone =>
        refine ⟨h.kept, h.waiting, h.counted, ?_⟩
        have hreplayed := h.replayed
        rw [hdone, List.append_nil] at hreplayed
        rw [Roster.replay_append, hreplayed, Membership.replay_changes]
      case h_2 => exact h
  | send =>
      rw [Watch.step]
      split
      case h_1 => exact h
      case h_2 notice rest hdue =>
        have hcounted := h.counted
        refine ⟨?_, ?_, ?_, ?_⟩
        · simp only [Feed.publish_eq]
          rw [h.kept, rtake_append_rtake, List.append_assoc]
        · have hwaiting := h.waiting
          simp only [Feed.publish_eq, outstanding, List.length_append, List.length_singleton] at *
          omega
        · simp only [List.length_append, List.length_singleton]
          omega
        · have hreplayed := h.replayed
          rw [hdue] at hreplayed
          rw [← hreplayed, List.append_assoc, List.singleton_append]
  | drain =>
      have hcounted := h.counted
      rw [Watch.step, h.drain]
      refine ⟨h.kept, ?_, ?_, h.replayed⟩
      · rw [h.waiting]
        simp only [outstanding, List.length_append, length_rtake]
        omega
      · simp only [outstanding, List.length_append, length_rtake]
        omega
  | snapshot => exact ⟨h.kept, h.waiting, h.counted, h.replayed⟩

private theorem run (h : Tracks origin older watch) (moves : List Move) :
    Tracks origin older (watch.run moves) := by
  induction moves generalizing watch with
  | nil => exact h
  | cons move rest ih => exact ih (h.step move)

end Tracks

structure Grows (watch later : Watch) : Prop where
  sent : watch.sent <+: later.sent
  snapshots : watch.snapshots <+: later.snapshots

private theorem grows_step (watch : Watch) (move : Move) : Grows watch (watch.step move) := by
  cases move with
  | replace roster =>
      rw [step]
      split <;> exact ⟨List.prefix_rfl, List.prefix_rfl⟩
  | send =>
      rw [step]
      split
      · exact ⟨List.prefix_rfl, List.prefix_rfl⟩
      · exact ⟨List.prefix_append _ _, List.prefix_rfl⟩
  | drain => exact ⟨List.prefix_rfl, List.prefix_rfl⟩
  | snapshot => exact ⟨List.prefix_rfl, List.prefix_append _ _⟩

private theorem grows_run (watch : Watch) (moves : List Move) : Grows watch (watch.run moves) := by
  induction moves generalizing watch with
  | nil => exact ⟨List.prefix_rfl, List.prefix_rfl⟩
  | cons move rest ih =>
      have hstep := watch.grows_step move
      have hrest := ih (watch.step move)
      exact ⟨hstep.sent.trans hrest.sent, hstep.snapshots.trans hrest.snapshots⟩

structure KeepsUp (watch : Watch) : Prop where
  lost : watch.lost = 0
  heard : watch.heard <+: watch.sent

namespace KeepsUp

theorem drain (h : KeepsUp watch) (htracks : Tracks origin older watch)
    (hprompt : watch.outstanding ≤ Feed.capacity) :
    (watch.step .drain).lost = 0 ∧ (watch.step .drain).heard = watch.sent := by
  have hheard : watch.heard = watch.sent.take watch.heard.length := List.prefix_iff_eq_take.mp h.heard
  have hrest : watch.sent.rtake watch.outstanding = watch.sent.drop watch.heard.length := by
    have hcounted := htracks.counted
    rw [List.rtake, outstanding, h.lost]
    congr 1
    omega
  rw [step, htracks.drain]
  refine ⟨?_, ?_⟩
  · simp only
    rw [h.lost, Nat.sub_eq_zero_of_le hprompt]
  · simp only
    rw [Nat.min_eq_left hprompt, hrest]
    conv_lhs => rw [hheard, List.length_take_of_le h.heard.length_le]
    exact List.take_append_drop _ _

private theorem step (h : KeepsUp watch) (htracks : Tracks origin older watch)
    (hprompt : watch.outstanding ≤ Feed.capacity) (move : Move) : KeepsUp (watch.step move) := by
  cases move with
  | drain =>
      obtain ⟨hlost, hheard⟩ := h.drain htracks hprompt
      refine ⟨hlost, ?_⟩
      rw [hheard]
      exact List.prefix_rfl
  | send =>
      refine ⟨?_, ?_⟩
      · rw [Watch.step]
        split <;> exact h.lost
      · refine List.IsPrefix.trans ?_ (watch.grows_step .send).sent
        rw [Watch.step]
        split <;> exact h.heard
  | replace roster =>
      rw [Watch.step]
      split <;> exact ⟨h.lost, h.heard⟩
  | snapshot => exact ⟨h.lost, h.heard⟩

private theorem run (h : KeepsUp watch) (htracks : Tracks origin older watch)
    (hprompt : watch.IsPrompt moves) : KeepsUp (watch.run moves) := by
  induction moves generalizing watch with
  | nil => exact h
  | cons move rest ih =>
      exact ih (h.step htracks (hprompt [] (List.nil_prefix)) move) (htracks.step move) hprompt.of_cons

end KeepsUp

private theorem run_sends (watch : Watch)
    (hkept : watch.membership.feed.kept.length ≤ Feed.capacity) :
    (watch.run (List.replicate watch.due.length .send)).membership =
      { watch.membership with feed := watch.membership.feed.publish watch.due } := by
  induction hdue : watch.due generalizing watch with
  | nil =>
      rw [Feed.publish_nil hkept]
      rfl
  | cons notice rest ih =>
      have hstep : watch.step .send = { watch with
          membership := { watch.membership with feed := watch.membership.feed.publish [notice] }
          due := rest
          sent := watch.sent ++ [notice] } := by
        rw [step, hdue]
      rw [List.length_cons, List.replicate_succ]
      change ((watch.step .send).run _).membership = _
      rw [hstep, ih _ (Feed.length_kept_publish _ _) rfl]
      simp only
      rw [Feed.publish_publish, List.singleton_append]

private theorem run_replace (h : Tracks origin older watch) (hdone : watch.due = [])
    (roster : Roster) :
    (watch.run (.replace roster ::
      List.replicate (Membership.changes watch.membership.roster roster).length .send)).membership =
        watch.membership.replace roster := by
  have hkept : watch.membership.feed.kept.length ≤ Feed.capacity := by
    rw [h.kept, length_rtake]
    exact Nat.min_le_left _ _
  have hstep : watch.step (.replace roster) = { watch with
      membership := { watch.membership with roster }
      due := Membership.changes watch.membership.roster roster } := by
    rw [step, hdone]
  change ((watch.step (.replace roster)).run _).membership = _
  rw [hstep]
  exact run_sends _ hkept

end Watch

/-- Whatever is done with a membership after a subscription: a subscriber that keeps up has heard, at the
end of every replacement, notices that turn the roster of its subscription into the new one; a
replacement names those who left and then those who joined, in order; snapshots stay as they were taken;
and a subscriber with more notices outstanding than are kept is told how many it missed and receives the
newest. -/
theorem Membership.replays (initial : Roster) (earlier : List Roster) (moves : List Watch.Move) :
    let member := earlier.foldl Membership.replace { roster := initial }
    let start := Watch.subscribed member
    let last := start.run moves
    (start.IsPrompt moves → ∀ before, before <+: moves → (start.run before).due = [] →
      let caught := (start.run before).step .drain
      caught.lost = 0 ∧ member.roster.replay caught.heard = caught.membership.roster ∧
        caught.heard <+: (last.step .drain).heard) ∧
    (last.due = [] → ∀ roster,
      let notices := changes last.membership.roster roster
      (last.run (.replace roster :: List.replicate notices.length .send)).membership =
        last.membership.replace roster) ∧
    (∀ old new, ∃ leaving joining : List Peer,
      changes old new = leaving.map .left ++ joining.map .joined ∧
      (leaving.Pairwise fun a b => a.name < b.name) ∧
      (joining.Pairwise fun a b => a.name < b.name) ∧
      (∀ peer, peer ∈ leaving ↔ peer ∈ old.peers ∧ new.DiffersAt peer) ∧
      ∀ peer, peer ∈ joining ↔ peer ∈ new.peers ∧ old.DiffersAt peer) ∧
    (∀ before, before ++ [.snapshot] <+: moves →
      last.snapshots[(start.run before).snapshots.length]? =
        some (start.run before).membership.roster) ∧
    ∀ count, last.outstanding = Feed.capacity + count →
      (last.membership.drain last.subscription).1 = ⟨count, last.sent.rtake Feed.capacity⟩ := by
  intro member start last
  have htracks : ∀ moves, Watch.Tracks member.roster member.feed.kept (start.run moves) :=
    (Watch.tracks_subscribed member (length_kept_replace initial earlier)).run
  have hkeeps : Watch.KeepsUp start := ⟨rfl, List.prefix_rfl⟩
  refine ⟨?_, ?_, ?_, ?_, ?_⟩
  · intro hprompt before hbefore hdone
    have hearly : start.IsPrompt before := fun first hfirst => hprompt first (hfirst.trans hbefore)
    obtain ⟨hlost, hheard⟩ :=
      (hkeeps.run (htracks []) hearly).drain (htracks before) (hprompt before hbefore)
    obtain ⟨-, hheardLast⟩ :=
      (hkeeps.run (htracks []) hprompt).drain (htracks moves) (hprompt moves List.prefix_rfl)
    obtain ⟨after, rfl⟩ := hbefore
    refine ⟨hlost, ?_, ?_⟩
    · have hreplayed := (htracks before).replayed
      rw [hdone, List.append_nil] at hreplayed
      rw [hheard, hreplayed]
      rfl
    · rw [hheard, hheardLast, Watch.run_append]
      exact (Watch.grows_run _ after).sent
  · intro hdone roster
    exact Watch.run_replace (htracks moves) hdone roster
  · intro old new
    exact ⟨old.without new, new.without old, rfl, old.sorted_without new, new.sorted_without old,
      fun _ => Roster.mem_without_iff, fun _ => Roster.mem_without_iff⟩
  · rintro before ⟨after, rfl⟩
    have htaken : (start.run (before ++ [.snapshot])).snapshots =
        (start.run before).snapshots ++ [(start.run before).membership.roster] := by
      rw [Watch.run_append]
      rfl
    have hgrows := ((start.run (before ++ [.snapshot])).grows_run after).snapshots
    rw [← Watch.run_append, htaken] at hgrows
    obtain ⟨later, hlater⟩ := hgrows
    rw [← hlater, List.append_assoc, List.getElem?_append_right (Nat.le_refl _), Nat.sub_self]
    rfl
  · intro count hcount
    rw [(htracks moves).drain, hcount, Nat.min_eq_right (Nat.le_add_right _ _),
      Nat.add_sub_cancel_left]

namespace Removal

/-! One of two peers moves, the other leaves and a third joins. -/

def moved (port : UInt16) : Peer := ⟨"a", .localhost port, 1⟩

def leaver : Peer := ⟨"b", .localhost 2, 1⟩

def joiner : Peer := ⟨"c", .localhost 3, 1⟩

def old : Roster := ⟨[moved 1, leaver], by decide⟩

def new : Roster := ⟨[moved 9, joiner], by decide⟩

def moves : List Watch.Move := [.snapshot, .replace new, .send, .send, .drain, .send, .send]

theorem replays_removal :
    let start := Watch.subscribed { roster := old }
    let caught := (start.run moves).step .drain
    start.IsPrompt moves ∧ (start.run moves).due = [] ∧
      caught.heard = [.left (moved 1), .left leaver, .joined (moved 9), .joined joiner] ∧
      old.replay caught.heard = new ∧ caught.snapshots = [old] := by
  intro start caught
  have hprompt : start.IsPrompt moves := by
    intro before hbefore
    rw [← List.mem_inits] at hbefore
    revert before
    decide
  have hdone : (start.run moves).due = [] := by decide
  obtain ⟨-, hreplay, -⟩ := (Membership.replays old [] moves).1 hprompt moves List.prefix_rfl hdone
  exact ⟨hprompt, hdone, by decide, hreplay, rfl⟩

end Removal

end ReplicaRing
