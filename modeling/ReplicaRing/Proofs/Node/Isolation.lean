import Mathlib.Data.List.Induction
import ReplicaRing.Proofs.Node.Sights

/-!
The operations of a node do not disturb each other: what becomes of one of them follows from the
replies to its own request, its own failures to send, the rosters and the times of its moves.
-/

namespace ReplicaRing

private theorem Table.isEmpty_of_find?_eq_none {Key Value : Type} [DecidableEq Key]
    {table : Table Key Value}
    (h : ∀ key, table.find? key = none) : table.isEmpty = true := by
  obtain ⟨entries, hdistinct⟩ := table
  cases entries with
  | nil => rfl
  | cons entry rest =>
      have hnone := h entry.1
      simp [find?] at hnone

namespace Node

variable {S : Type} {node : Node S} {index : Nat} {operation : Operation} {first : UInt64} [Storage S]

/-- A move of an operation at some point of a history. -/
def Turn (node : Node S) (events : List (Event S)) (index : Nat) (before after : Node S)
    (effects : List Effect) : Prop :=
  ∃ earlier now later, events = earlier ++ .advance now index :: later ∧
    before = node.live earlier ∧ before.advance now index = some (after, effects)

/-- The operation has asked for the replies to its request in the course of a history. -/
def Registers (node : Node S) (events : List (Event S)) (index : Nat) : Prop :=
  ∃ before after effects id, node.Turn events index before after effects ∧ .route id ∈ effects

private theorem turn_concat {events : List (Event S)} {event : Event S} {before after : Node S}
    {effects : List Effect} :
    node.Turn (events ++ [event]) index before after effects ↔
      node.Turn events index before after effects ∨
        ∃ now, event = .advance now index ∧ before = node.live events ∧
          before.advance now index = some (after, effects) := by
  constructor
  · rintro ⟨earlier, now, later, hevents, hbefore, hadvance⟩
    rcases List.eq_nil_or_concat later with rfl | ⟨rest, last, rfl⟩
    · obtain ⟨rfl, hlast⟩ := List.append_inj' hevents rfl
      cases hlast
      exact .inr ⟨now, rfl, hbefore, hadvance⟩
    · have hsplit : events ++ [event] = (earlier ++ .advance now index :: rest) ++ [last] := by
        rw [hevents]
        simp
      obtain ⟨rfl, -⟩ := List.append_inj' hsplit rfl
      exact .inl ⟨earlier, now, rest, rfl, hbefore, hadvance⟩
  · rintro (⟨earlier, now, later, rfl, hbefore, hadvance⟩ | ⟨now, rfl, hbefore, hadvance⟩)
    · exact ⟨earlier, now, later ++ [event], by simp, hbefore, hadvance⟩
    · exact ⟨events, now, [], rfl, hbefore, hadvance⟩

section Turn

variable {events : List (Event S)} {before after : Node S} {effects : List Effect}

private theorem Turn.append (h : node.Turn events index before after effects)
    (more : List (Event S)) :
    node.Turn (events ++ more) index before after effects := by
  obtain ⟨earlier, now, later, rfl, hbefore, hadvance⟩ := h
  exact ⟨earlier, now, later ++ more, by simp, hbefore, hadvance⟩

private theorem Registers.append (h : node.Registers events index) (more : List (Event S)) :
    node.Registers (events ++ more) index := by
  obtain ⟨before, after, effects, id, hturn, hroute⟩ := h
  exact ⟨before, after, effects, id, hturn.append more, hroute⟩

private theorem Turn.index_lt (h : node.Turn events index before after effects) :
    index < (node.live events).operations.size := by
  obtain ⟨earlier, now, later, rfl, rfl, hadvance⟩ := h
  obtain ⟨operation, moved, hoperation, -⟩ := advance_eq_some hadvance
  obtain ⟨hlt, -⟩ := Array.getElem?_eq_some_iff.mp hoperation
  rw [live_append]
  exact Nat.lt_of_lt_of_le hlt (size_live _ _)

private theorem registers_concat {event : Event S} :
    node.Registers (events ++ [event]) index ↔ node.Registers events index ∨
      ∃ now after effects id, event = .advance now index ∧
        (node.live events).advance now index = some (after, effects) ∧ .route id ∈ effects := by
  constructor
  · rintro ⟨before, after, effects, id, hturn, hroute⟩
    rcases turn_concat.mp hturn with hearlier | ⟨now, hevent, rfl, hadvance⟩
    · exact .inl ⟨before, after, effects, id, hearlier, hroute⟩
    · exact .inr ⟨now, after, effects, id, hevent, hadvance, hroute⟩
  · rintro (hearlier | ⟨now, after, effects, id, hevent, hadvance, hroute⟩)
    · exact hearlier.append [event]
    · exact ⟨_, after, effects, id, turn_concat.mpr (.inr ⟨now, hevent, rfl, hadvance⟩), hroute⟩

private theorem isRouted_of_new {event : Event S} (hnone : node.operations[index]? = none)
    (hoperation : (node.happen event).operations[index]? = some operation) :
    operation.isRouted = false := by
  rcases node.starts_or_keeps event with ⟨start, hstart, hstarts⟩ | hkeeps
  · rw [hstarts, getElem?_start, hnone] at hoperation
    split at hoperation
    · cases hoperation
      exact hstart _
    · cases hoperation
  · obtain ⟨hlt, -⟩ := Array.getElem?_eq_some_iff.mp hoperation
    rw [hkeeps] at hlt
    exact absurd (Array.getElem?_eq_none_iff.mp hnone) (Nat.not_le.mpr hlt)

private theorem getElem?_live_advance {now : Nat} {moved : Operation}
    (hoperation : (node.live events).operations[index]? = some operation)
    (hmoved : operation.advance (node.live events).host (node.live events).membership.roster now =
      some (moved, effects)) :
    (node.live (events ++ [.advance now index])).operations[index]? = some moved := by
  rw [live_concat, happen, getElem?_advance hoperation, if_pos rfl, hmoved]
  rfl

private theorem isRouted_advance {now : Nat} {moved : Operation}
    (hoperation : node.operations[index]? = some operation)
    (hmoved : (node.happen (.advance now index)).operations[index]? = some moved) :
    moved.isRouted = true ↔ operation.isRouted = true ∨ ∃ after effects id,
      node.advance now index = some (after, effects) ∧ .route id ∈ effects := by
  rw [happen, getElem?_advance hoperation, if_pos rfl] at hmoved
  have hadvance := @advance_of_operation _ node now _ _ hoperation
  cases hturn : operation.advance node.host node.membership.roster now with
  | none =>
      rw [hturn] at hmoved hadvance
      obtain rfl : operation = moved := Option.some.inj hmoved
      refine ⟨.inl, fun h => h.elim id ?_⟩
      rintro ⟨_, _, _, hsome, -⟩
      cases hadvance.symm.trans hsome
  | some turn =>
      obtain ⟨later, effects⟩ := turn
      rw [hturn] at hmoved hadvance
      obtain rfl : later = moved := Option.some.inj hmoved
      rw [(Operation.stride_of_advance hturn).isRouted_iff]
      refine or_congr_right ⟨?_, ?_⟩
      · rintro ⟨id, hroute⟩
        exact ⟨_, effects, id, hadvance, hroute⟩
      · rintro ⟨_, _, id, hsome, hroute⟩
        cases hadvance.symm.trans hsome
        exact ⟨id, hroute⟩

private theorem Tidy.isRouted_of_ne_advance (h : node.Tidy first)
    (hsize : node.operations.size < 2 ^ 64)
    (hoperation : node.operations[index]? = some operation) {event : Event S} {moved : Operation}
    (hmoved : (node.happen event).operations[index]? = some moved)
    (hne : ∀ now, event ≠ .advance now index) : moved.isRouted = operation.isRouted := by
  obtain ⟨same, hsame, hsees⟩ := h.happen_see hsize hoperation event
  obtain rfl := Option.some.inj (hmoved.symm.trans hsame)
  have hseen := congrArg (fun seen => seen.2.isRouted) hsees
  cases hsight : event.sight? node.host.protocol.version operation.id index with
  | none =>
      rw [hsight] at hseen
      exact hseen
  | some sight =>
      rw [hsight] at hseen
      refine hseen.trans (Operation.isRouted_see _ _ fun now hmove => hne now ?_)
      exact Event.eq_advance_of_sight? (hsight.trans (congrArg some hmove))

private theorem Tidy.isRouted_happen (h : node.Tidy first) (hsize : node.operations.size < 2 ^ 64)
    (hoperation : node.operations[index]? = some operation) {event : Event S} {moved : Operation}
    (hmoved : (node.happen event).operations[index]? = some moved) :
    moved.isRouted = true ↔ operation.isRouted = true ∨
      ∃ now after effects id, event = .advance now index ∧
        node.advance now index = some (after, effects) ∧ .route id ∈ effects := by
  by_cases hevent : ∃ now, event = .advance now index
  · obtain ⟨now, rfl⟩ := hevent
    rw [isRouted_advance hoperation hmoved]
    refine or_congr_right ⟨?_, ?_⟩
    · rintro ⟨after, effects, id, hmove⟩
      exact ⟨now, after, effects, id, rfl, hmove⟩
    · rintro ⟨_, after, effects, id, hsame, hmove⟩
      cases hsame
      exact ⟨after, effects, id, hmove⟩
  · rw [not_exists] at hevent
    rw [h.isRouted_of_ne_advance hsize hoperation hmoved hevent]
    refine ⟨.inl, fun h => h.elim id ?_⟩
    rintro ⟨now, _, _, _, hsame, -⟩
    exact absurd hsame (hevent now)

/-- The history of a node tells which of its operations have asked for replies. -/
theorem IsFresh.isRouted_iff (h : node.IsFresh)
    (hsize : (node.live events).operations.size < 2 ^ 64)
    (hoperation : (node.live events).operations[index]? = some operation) :
    operation.isRouted = true ↔ node.Registers events index := by
  induction events using List.reverseRecOn generalizing operation with
  | nil =>
      rw [live_nil, h.noOperations] at hoperation
      cases hoperation
  | append_singleton events event ih =>
      rw [live_concat] at hsize hoperation
      have hbefore : (node.live events).operations.size < 2 ^ 64 :=
        Nat.lt_of_le_of_lt (size_happen _ event) hsize
      rw [registers_concat]
      cases hpast : (node.live events).operations[index]? with
      | some past =>
          rw [(h.tidy.live hbefore).isRouted_happen hbefore hpast hoperation, ih hbefore hpast]
      | none =>
          rw [isRouted_of_new hpast hoperation]
          refine ⟨nofun, ?_⟩
          rintro (⟨_, _, _, _, hturn, -⟩ | ⟨now, _, _, _, -, hadvance, -⟩)
          · exact absurd (Array.getElem?_eq_none_iff.mp hpast) (Nat.not_le.mpr hturn.index_lt)
          · obtain ⟨_, _, hthere, -⟩ := advance_eq_some hadvance
            cases hpast.symm.trans hthere

private theorem Turn.registers (h : node.Turn events index before after effects)
    (hfresh : node.IsFresh)
    (hsize : (node.live events).operations.size < 2 ^ 64) {effect : Effect}
    (heffect : effect ∈ effects) (hne : effect ≠ .abandon) : node.Registers events index := by
  obtain ⟨earlier, now, later, rfl, rfl, hadvance⟩ := h
  rw [List.append_cons, live_append] at hsize
  rw [List.append_cons]
  have hlater := Nat.lt_of_le_of_lt (size_live _ _) hsize
  obtain ⟨operation, moved, hoperation, hmoved, -⟩ := advance_eq_some hadvance
  have hthere := getElem?_live_advance hoperation hmoved
  refine Registers.append ((hfresh.isRouted_iff hlater hthere).mp ?_) later
  exact (Operation.stride_of_advance hmoved).isRouted_of_mem heffect hne

end Turn

omit [Storage S] in
private theorem routes_foldl_abandon {effects : List Effect}
    (h : ∀ effect ∈ effects, effect = .abandon) :
    (effects.foldl (fun node effect => node.apply index effect) node).routes = node.routes := by
  induction effects generalizing node with
  | nil => rfl
  | cons effect rest ih =>
      obtain rfl := h effect List.mem_cons_self
      exact ih fun other hother => h other (List.mem_cons_of_mem _ hother)

private theorem IsFresh.not_registers (h : node.IsFresh) {before rest : List (Event S)} {now : Nat}
    (hsize : (node.live (before ++ .advance now index :: rest)).operations.size < 2 ^ 64)
    (hoperation : (node.live before).operations[index]? = some operation)
    (hstumbles : operation.Stumbles node.host (node.live before).membership.roster now) :
    ¬node.Registers (before ++ .advance now index :: rest) index := by
  rw [List.append_cons, live_append] at hsize
  rw [List.append_cons]
  have hlater := Nat.lt_of_le_of_lt (size_live _ _) hsize
  have hearlier : (node.live before).operations.size < 2 ^ 64 := by
    rw [live_concat] at hlater
    exact Nat.lt_of_le_of_lt (size_happen _ _) hlater
  rw [← host_live node before] at hstumbles
  obtain ⟨hunsent, moved, hmoved, hrouted, hlooked⟩ := hstumbles.advance
  have hstranded : moved.IsStranded :=
    ⟨hlooked, hrouted.trans ((h.tidy.live hearlier).unsent _ _ hoperation hunsent)⟩
  have hthere := getElem?_live_advance hoperation hmoved
  obtain ⟨final, hfinal, hsees⟩ := (h.tidy.live hlater).live_see hsize hthere
  have hlast : final.IsStranded :=
    Eq.mpr (congrArg (fun seen => seen.2.IsStranded) hsees)
      (Operation.IsStranded.foldl_see _ _ hstranded)
  rw [← live_append] at hfinal hsize
  rw [← h.isRouted_iff hsize hfinal, hlast.unrouted]
  exact Bool.false_ne_true

/-- The operation has asked for replies in the course of a history and is not over after it. -/
def Waits (node : Node S) (events : List (Event S)) (index : Nat) (operation : Operation) : Prop :=
  (node.live events).operations[index]? = some operation ∧ node.Registers events index ∧
    operation.isOver = false

/-- The operations of a node have not disturbed each other in the course of a history. -/
structure Isolated (node : Node S) (events : List (Event S)) : Prop where
  routes : ∀ id index, (node.live events).routes.find? id = some index ↔
    ∃ operation, node.Waits events index operation ∧ operation.id = id
  ids : ∀ (index other : Nat) (operation another : Operation),
    (node.live events).operations[index]? = some operation →
    (node.live events).operations[other]? = some another → operation.id = another.id →
      index = other
  delivered : ∀ index operation message, node.Waits events index operation →
    operation.id = message.requestId →
      (node.live events).deliver message =
        (true, (node.live events).modify index (Operation.enqueue message))
  undelivered : ∀ message,
    (∀ index operation, node.Waits events index operation → operation.id ≠ message.requestId) →
      (node.live events).deliver message = (false, node.live events)
  /-- From whatever point on, what becomes of an operation follows from its own sights. -/
  sights : ∀ (before rest : List (Event S)) (index : Nat) (operation : Operation),
    events = before ++ rest → (node.live before).operations[index]? = some operation →
      ∃ final, (node.live events).operations[index]? = some final ∧
        ((node.live events).membership.roster, final) =
          (rest.filterMap (Event.sight? node.host.protocol.version operation.id index)).foldl
            (Operation.see node.host) ((node.live before).membership.roster, operation)
  /-- Once it has looked for its targets, an operation does not look at the roster again. -/
  looks : ∀ (operation : Operation) (host : Host) (roster other : Roster) (now : Nat),
    ¬operation.IsUnsent → operation.advance host roster now = operation.advance host other now
  stumbled : ∀ (before rest : List (Event S)) (now index : Nat) (operation : Operation),
    events = before ++ .advance now index :: rest →
    (node.live before).operations[index]? = some operation →
    operation.Stumbles node.host (node.live before).membership.roster now →
      ∀ earlier later effects, node.Turn events index earlier later effects →
        (∀ peer message, .send peer message ∉ effects) ∧ later.routes = earlier.routes
  ended : (∀ (index : Nat) (operation : Operation),
    (node.live events).operations[index]? = some operation → operation.isOver = true) →
      (node.live events).routes.isEmpty = true

/-- Whatever happens to a node that starts without operations, and draws no request number twice, its
operations do not disturb each other and leave no routes behind. -/
theorem isolated (node : Node S) (events : List (Event S)) (hfresh : node.IsFresh)
    (hsize : (node.live events).operations.size < 2 ^ 64) : node.Isolated events := by
  have htidy := hfresh.tidy.live hsize
  have hroutes : ∀ id index, (node.live events).routes.find? id = some index ↔
      ∃ operation, node.Waits events index operation ∧ operation.id = id := by
    intro id index
    rw [htidy.routes]
    constructor
    · rintro ⟨operation, hoperation, hid, hrouted, hover⟩
      exact ⟨operation, ⟨hoperation, (hfresh.isRouted_iff hsize hoperation).mp hrouted, hover⟩, hid⟩
    · rintro ⟨operation, ⟨hoperation, hregisters, hover⟩, hid⟩
      exact ⟨operation, hoperation, hid, (hfresh.isRouted_iff hsize hoperation).mpr hregisters,
        hover⟩
  exact {
    routes := hroutes
    ids := fun _ _ _ _ hoperation hanother => htidy.id_injective hsize hoperation hanother
    delivered := fun index operation message hwaits hid => by
      have howner : (node.live events).routes.owner? message = some index :=
        (hroutes _ _).mpr ⟨operation, hwaits, hid⟩
      simp only [deliver, howner]
      refine congrArg (Prod.mk true) (modify_congr fun another hanother => ?_)
      rw [hwaits.1] at hanother
      cases hanother
      exact Operation.reply_eq_enqueue message hwaits.2.2
    undelivered := fun message hnobody => by
      have howner : (node.live events).routes.owner? message = none := by
        refine Option.eq_none_iff_forall_not_mem.mpr fun index hindex => ?_
        obtain ⟨operation, hwaits, hid⟩ := (hroutes _ _).mp hindex
        exact hnobody index operation hwaits hid
      simp only [deliver, howner]
    sights := fun before rest index operation hevents hoperation => by
      subst hevents
      rw [live_append] at hsize ⊢
      have hbefore := Nat.lt_of_le_of_lt (size_live _ _) hsize
      obtain ⟨final, hfinal, hsees⟩ := (hfresh.tidy.live hbefore).live_see hsize hoperation
      rw [host_live] at hsees
      exact ⟨final, hfinal, hsees⟩
    looks := fun _ _ roster other _ hlooked => Operation.advance_roster hlooked roster other
    stumbled := fun before rest now index operation hevents hoperation hstumbles earlier later
        effects hturn => by
      subst hevents
      have hunrouted := hfresh.not_registers hsize hoperation hstumbles
      have habandons : ∀ effect ∈ effects, effect = .abandon := fun effect heffect =>
        Decidable.byContradiction fun hne =>
          hunrouted (hturn.registers hfresh hsize heffect hne)
      obtain ⟨_, moment, _, -, -, hadvance⟩ := hturn
      obtain ⟨_, moved, -, -, rfl⟩ := advance_eq_some hadvance
      refine ⟨fun peer message hsend => ?_, routes_foldl_abandon habandons⟩
      cases habandons _ hsend
    ended := fun hover => by
      refine Table.isEmpty_of_find?_eq_none fun id => ?_
      refine Option.eq_none_iff_forall_not_mem.mpr fun index hindex => ?_
      obtain ⟨operation, ⟨hoperation, -, hstill⟩, -⟩ := (hroutes _ _).mp hindex
      rw [hover index operation hoperation] at hstill
      cases hstill }

end Node

namespace Errands

/-! A node that knows one peer pings it and, at the same time, one that it does not know. -/

def node : Node MemoryStore where
  host := ⟨"a", {}⟩
  address := .localhost 1
  membership := { roster := ⟨[⟨"b", .localhost 2, 1⟩], by decide⟩ }
  storage := Table.empty

def events : List (Node.Event MemoryStore) :=
  [.ping 0 "b", .ping 0 "c", .advance 0 0, .advance 0 1]

theorem isolated_pings :
    node.IsFresh ∧ (node.live events).operations.size < 2 ^ 64 ∧ node.Isolated events ∧
      (∃ operation, node.Waits events 0 operation ∧ operation.id = 0) ∧
      (node.live events).routes.find? 1 = none := by
  have hfresh : node.IsFresh := ⟨rfl, rfl⟩
  have hsize : (node.live events).operations.size < 2 ^ 64 := by decide +kernel
  have hisolated := node.isolated events hfresh hsize
  exact ⟨hfresh, hsize, hisolated, (hisolated.routes 0 0).mp (by decide +kernel),
    by decide +kernel⟩

end Errands

end ReplicaRing
