import ReplicaRing.Proofs.Fleet.Finite
import ReplicaRing.Proofs.Node.Moves
import ReplicaRing.Proofs.Simulation.Agenda
import ReplicaRing.Proofs.Simulation.Network
import ReplicaRing.Simulation.Cluster

/-! Whatever happens in the world of a cluster in memory, a fleet does by actions of its own. -/

namespace ReplicaRing

namespace Fleet

variable {Member S : Type} [DecidableEq Member] [Storage S] {fleet : Fleet Member S}

private theorem exists_transmit {parcel : Parcel Member} (h : parcel ∈ fleet.outbox) :
    ∃ place, fleet.step (.transmit place) = fleet.transmit parcel := by
  obtain ⟨place, hplace⟩ := List.getElem?_of_mem h
  exact ⟨place, by rw [step, hplace]⟩

private theorem reaches_giveBack {parcel : Parcel Member} (h : parcel ∈ fleet.outbox) :
    fleet.Reaches (fleet.giveBack parcel) := by
  obtain ⟨place, hplace⟩ := List.getElem?_of_mem h
  have hstep : fleet.step (.refuse place) = fleet.giveBack parcel := by
    rw [step, hplace]
  exact .one hstep

end Fleet

namespace Simulation

/-- A fleet can do what the event does.  Where the medium waits for nodes to listen, nothing arrives
by itself, and nothing fails late. -/
def Event.IsMatched (fleet : Fleet Nat MemoryStore) : Event → Prop
  | .transmit index operation peer message => ⟨index, operation, peer, message⟩ ∈ fleet.outbox
  | .failed .. | .arrive .. => False
  | .wake .. | .listen _ | .alarm => True

namespace World

/-- A fleet with the given clients is as far as the world of so many nodes. -/
structure Mirrors (world : World Switchboard) (members : Nat) (callers : List (Fleet.Caller Nat))
    (fleet : Fleet Nat MemoryStore) : Prop where
  callers : fleet.callers = callers
  size : world.nodes.size = members
  nodes : ∀ (index : Nat) (node : Node MemoryStore), world.nodes[index]? = some node →
    fleet.nodes index = node
  now : fleet.now = world.now
  timely : world.agenda.Timely
  events : ∀ event, world.agenda.Holds event → event.IsMatched fleet
  located : ∀ (index : Nat) (node : Node MemoryStore), world.nodes[index]? = some node →
    world.medium.network.address? index = some node.address
  carries : world.medium.network.Carries fleet.sent

namespace Mirrors

variable {world : World Switchboard} {members : Nat} {callers : List (Fleet.Caller Nat)}
  {fleet : Fleet Nat MemoryStore}
  {index operation : Nat} {node before : Node MemoryStore}

theorem setAgenda (h : world.Mirrors members callers fleet) {agenda : Agenda Event}
    (hagenda : world.agenda.Adds agenda fun event => event.IsMatched fleet) :
    { world with agenda }.Mirrors members callers fleet where
  callers := h.callers
  size := h.size
  nodes := h.nodes
  now := h.now.trans hagenda.now.symm
  timely := hagenda.timely h.timely
  events event hevent := (hagenda.holds event hevent).elim (h.events event) id
  located := h.located
  carries := h.carries

theorem wake (h : world.Mirrors members callers fleet) (index operation : Nat) :
    (world.wake index operation).Mirrors members callers fleet :=
  h.setAgenda (Agenda.adds_remind trivial)

private theorem extend (h : world.Mirrors members callers fleet) (parcels : List (Fleet.Parcel Nat))
    (datagrams : List (Address × Bytes)) :
    world.Mirrors members callers { fleet with
      outbox := fleet.outbox ++ parcels, sent := fleet.sent ++ datagrams } where
  callers := h.callers
  size := h.size
  nodes := h.nodes
  now := h.now
  timely := h.timely
  events event hevent := by
    have hmatched := h.events event hevent
    cases event with
    | transmit => exact List.mem_append_left _ hmatched
    | _ => exact hmatched
  located := h.located
  carries := h.carries.mono (List.subset_append_left _ _)

private theorem update (h : world.Mirrors members callers fleet) {nodes : Array (Node MemoryStore)}
    (hsize : nodes.size = world.nodes.size) (hbefore : world.nodes[index]? = some before)
    (haddress : node.address = before.address) (hself : nodes[index]? = some node)
    (hothers : ∀ other : Nat, index ≠ other → nodes[other]? = world.nodes[other]?) :
    { world with nodes }.Mirrors members callers (fleet.setNode index node) where
  callers := h.callers
  size := hsize.trans h.size
  nodes other found hfound := by
    by_cases hindex : index = other
    · subst hindex
      rw [Fleet.setNode_nodes_self]
      exact Option.some.inj (hself.symm.trans hfound)
    · rw [Fleet.setNode_nodes_of_ne _ _ _ _ (Ne.symm hindex)]
      exact h.nodes other found ((hothers other hindex).symm.trans hfound)
  now := h.now
  timely := h.timely
  events event hevent := by
    have hmatched := h.events event hevent
    cases event <;> exact hmatched
  located other found hfound := by
    by_cases hindex : index = other
    · subst hindex
      rw [Option.some.inj (hfound.symm.trans hself), haddress]
      exact h.located index before hbefore
    · exact h.located other found ((hothers other hindex).symm.trans hfound)
  carries := h.carries

theorem setNode (h : world.Mirrors members callers fleet)
    (hbefore : world.nodes[index]? = some before) (haddress : node.address = before.address) :
    { world with nodes := world.nodes.setIfInBounds index node }.Mirrors members callers
      (fleet.setNode index node) := by
  obtain ⟨hlt, -⟩ := Array.getElem?_eq_some_iff.mp hbefore
  refine h.update Array.size_setIfInBounds hbefore haddress ?_ ?_
  · rw [Array.getElem?_setIfInBounds, if_pos rfl, if_pos hlt]
  · intro other hother
    rw [Array.getElem?_setIfInBounds, if_neg hother]

theorem modifyNode (h : world.Mirrors members callers fleet)
    (change : Node MemoryStore → Node MemoryStore)
    (haddress : ∀ node, (change node).address = node.address)
    (hreaches : fleet.Reaches (fleet.setNode index (change (fleet.nodes index)))) :
    ∃ after, fleet.Reaches after ∧
      (world.modifyNode index change).Mirrors members callers after := by
  cases hbefore : world.nodes[index]? with
  | none =>
      have hsame : world.nodes.modify index change = world.nodes := by
        apply Array.ext_getElem?
        intro other
        rw [Array.getElem?_modify]
        split
        case isTrue hindex =>
          rw [← hindex, hbefore]
          rfl
        case isFalse => rfl
      rw [World.modifyNode, hsame]
      exact ⟨fleet, .refl, h⟩
  | some before =>
      rw [h.nodes index before hbefore] at hreaches
      refine ⟨_, hreaches, h.update Array.size_modify hbefore (haddress before) ?_ ?_⟩
      · rw [Array.getElem?_modify, if_pos rfl, hbefore]
        rfl
      · intro other hother
        rw [Array.getElem?_modify, if_neg hother]

private theorem send (h : world.Mirrors members callers fleet) (source : Address) {target : Address}
    {datagram : Bytes} (hsent : (target, datagram) ∈ fleet.sent) :
    (world.send source target datagram).2.Mirrors members callers fleet ∧
      ((world.send source target datagram).1 = .refused 0 ∨
        ∃ arrivals, (world.send source target datagram).1 = .taken arrivals) := by
  let network := world.medium.network.deliver target ⟨source, datagram⟩
  let delivered : World Switchboard := { world with medium := { world.medium with network } }
  have hdelivered : delivered.Mirrors members callers fleet := {
    callers := h.callers
    size := h.size
    nodes := h.nodes
    now := h.now
    timely := h.timely
    events := h.events
    located := fun index node hnode => by
      rw [← h.located index node hnode]
      exact Network.address?_deliver _ _ _ _
    carries := h.carries.deliver hsent }
  unfold World.send
  simp only [Medium.send, Network.send]
  by_cases hlong : Layout.maxDatagram < datagram.length
  · simp only [if_pos hlong]
    exact ⟨h, .inl trivial⟩
  · simp only [if_neg hlong]
    refine ⟨?_, .inr ⟨_, rfl⟩⟩
    split
    · split
      case isTrue =>
        change (delivered.modifyAgenda fun agenda => agenda.remind (.listen _)).Mirrors
          members callers fleet
        exact hdelivered.setAgenda (Agenda.adds_remind trivial)
      case isFalse => exact hdelivered
    · exact hdelivered

private theorem failSend (h : world.Mirrors members callers fleet) {parcel : Fleet.Parcel Nat}
    (hparcel : parcel ∈ fleet.outbox) :
    ∃ after, fleet.Reaches after ∧
      (world.failSend parcel.sender parcel.operation parcel.peer.name).Mirrors
        members callers after := by
  unfold World.failSend
  split
  case isTrue => exact ⟨fleet, .refl, h⟩
  case isFalse =>
    let change (node : Node MemoryStore) : Node MemoryStore :=
      node.modify parcel.operation (Operation.sendFailed parcel.peer.name)
    obtain ⟨after, hafter, hmodified⟩ :=
      h.modifyNode change (fun _ => rfl) (Fleet.reaches_giveBack hparcel)
    exact ⟨after, hafter, hmodified.wake _ _⟩

private theorem transmit (h : world.Mirrors members callers fleet) {peer : Peer} {message : Message}
    (hparcel : ⟨index, operation, peer, message⟩ ∈ fleet.outbox) :
    ∃ after, fleet.Reaches after ∧
      (world.transmit index operation peer message).Mirrors members callers after := by
  unfold World.transmit
  split
  case isTrue => exact ⟨fleet, .refl, h⟩
  case isFalse =>
    split
    case h_2 => exact h.failSend hparcel
    case h_1 node datagram hnode hencode =>
      obtain ⟨place, hstep⟩ := Fleet.exists_transmit hparcel
      rw [Fleet.transmit] at hstep
      simp only [hencode] at hstep
      have hextended := h.extend [] [(peer.address, datagram)]
      rw [List.append_nil] at hextended
      obtain ⟨hsend, hfate⟩ := hextended.send node.address
        (List.mem_append_right _ (List.mem_singleton_self _))
      generalize world.send node.address peer.address datagram = sent at hsend hfate
      obtain ⟨fate, sending⟩ := sent
      rcases hfate with rfl | ⟨arrivals, rfl⟩
      · obtain ⟨after, hreaches, hfail⟩ := hsend.failSend hparcel
        exact ⟨after, (Fleet.Reaches.one hstep).trans hreaches, hfail⟩
      · exact ⟨_, .one hstep, hsend⟩

private theorem arrive (h : world.Mirrors members callers fleet) {datagram : Bytes}
    (hsent : ∀ node : Node MemoryStore, world.nodes[index]? = some node →
      (node.address, datagram) ∈ fleet.sent) :
    ∃ after, fleet.Reaches after ∧ (world.arrive index datagram).Mirrors members callers after := by
  unfold World.arrive
  cases hnode : world.nodes[index]? with
  | none => exact ⟨fleet, .refl, h⟩
  | some node =>
      have hstep : fleet.step (.deliver index datagram) =
          { fleet.setNode index (node.receive datagram).1 with
            sent := fleet.sent ++ (node.receive datagram).2.2.toList } := by
        rw [Fleet.step, h.nodes index node hnode, if_pos (hsent node hnode)]
      obtain ⟨operations, storage, hframe, -⟩ := node.receive_frame datagram
      have haddress : (node.receive datagram).1.address = node.address := by
        rw [hframe]
      have hset := (h.setNode hnode haddress).extend [] (node.receive datagram).2.2.toList
      rw [List.append_nil] at hset
      refine ⟨_, .one hstep, ?_⟩
      simp only
      generalize node.receive datagram = received at hset ⊢
      obtain ⟨after, reached, outgoing⟩ := received
      cases outgoing with
      | none =>
          cases reached with
          | none => exact hset
          | some operation => exact hset.wake index operation
      | some answer =>
          have hanswer : answer ∈ fleet.sent ++ [answer] :=
            List.mem_append_right _ (List.mem_singleton_self _)
          cases reached with
          | none => exact (hset.send after.address hanswer).1
          | some operation => exact ((hset.wake index operation).send after.address hanswer).1

private theorem listen (h : world.Mirrors members callers fleet) (index : Nat) :
    ∃ after, fleet.Reaches after ∧ (world.listen index).Mirrors members callers after := by
  unfold World.listen
  simp only [Medium.receive]
  cases hreceive : world.medium.network.receive index with
  | mk received network =>
      cases received with
      | datagram datagram =>
          have hfirst : world.agenda.Adds (world.agenda.first (.listen index))
              fun event => event.IsMatched fleet := Agenda.adds_first trivial
          have hlistened : { world with
              medium := { world.medium with network }
              agenda := world.agenda.first (.listen index) }.Mirrors members callers fleet := {
            callers := h.callers
            size := h.size
            nodes := h.nodes
            now := h.now
            timely := hfirst.timely h.timely
            events := fun event hevent =>
              (hfirst.holds event hevent).elim (h.events event) id
            located := fun other node hnode =>
              (Network.address?_receive hreceive other).trans (h.located other node hnode)
            carries := h.carries.receive hreceive }
          exact hlistened.arrive fun node hnode =>
            h.carries.sent_of_receive hreceive (h.located index node hnode)
      | nothing => exact ⟨fleet, .refl, h⟩
      | closed => exact ⟨fleet, .refl, h⟩

private theorem advance (h : world.Mirrors members callers fleet) (index operation : Nat) :
    ∃ after, fleet.Reaches after ∧
      (world.advance index operation).Mirrors members callers after := by
  unfold World.advance
  cases hadvance : world.nodes[index]?.bind fun node => node.advance world.now operation with
  | none => exact ⟨fleet, .refl, h⟩
  | some advanced =>
      obtain ⟨node, effects⟩ := advanced
      obtain ⟨before, hbefore, hmove⟩ := Option.bind_eq_some_iff.mp hadvance
      obtain ⟨operations, routes, hframe, -⟩ := Node.advance_frame hmove
      have haddress : node.address = before.address := by
        rw [hframe]
      let parcels := effects.filterMap (Fleet.Parcel.of? index operation)
      let moved := { fleet.setNode index node with outbox := fleet.outbox ++ parcels }
      have hstep : fleet.step (.advance index operation) = moved := by
        rw [Fleet.step, h.nodes index before hbefore, h.now, hmove]
      have hset := (h.setNode hbefore haddress).extend parcels []
      rw [List.append_nil] at hset
      refine ⟨moved, .one hstep, ?_⟩
      refine List.foldlRecOn (motive := fun world => Mirrors world members callers moved)
        effects _ ?_ ?_
      · refine hset.setAgenda ?_
        exact (Agenda.adds_first trivial).trans (Agenda.adds_follow trivial)
      · intro world hworld effect heffect
        cases effect with
        | send peer message =>
            refine hworld.setAgenda (Agenda.adds_soon ?_)
            exact List.mem_append_right _ (List.mem_filterMap.mpr ⟨_, heffect, rfl⟩)
        | _ => exact hworld

/-- Whatever event happens in the world, the fleet keeps up with it. -/
theorem handle (h : world.Mirrors members callers fleet) {event : Event}
    (hevent : event.IsMatched fleet) :
    ∃ after, fleet.Reaches after ∧ (World.handle event world).Mirrors members callers after := by
  cases event with
  | wake index operation => exact h.advance index operation
  | transmit index operation peer message => exact h.transmit hevent
  | failed => exact hevent.elim
  | arrive => exact hevent.elim
  | listen index => exact h.listen index
  | alarm => exact ⟨fleet, .refl, h⟩

theorem elapse (h : world.Mirrors members callers fleet) {later : Agenda Event}
    (helapse : world.agenda.elapse = some later) :
    ∃ after, fleet.Reaches after ∧
      { world with agenda := later }.Mirrors members callers after := by
  obtain ⟨hnow, htimely, hholds⟩ := Agenda.elapse_eq_some helapse h.timely
  have hstep : fleet.step (.elapse (later.now - fleet.now)) =
      { fleet with now := fleet.now + (later.now - fleet.now) } := rfl
  refine ⟨_, .one hstep, ?_⟩
  exact {
    callers := h.callers
    size := h.size
    nodes := h.nodes
    now := by
      change fleet.now + (later.now - fleet.now) = later.now
      have hbefore : fleet.now ≤ later.now := h.now ▸ hnow
      omega
    timely := htimely
    events := fun event hevent => by
      have hmatched := h.events event (hholds event hevent)
      cases event <;> exact hmatched
    located := h.located
    carries := h.carries }

end Mirrors

end World

end Simulation

end ReplicaRing
