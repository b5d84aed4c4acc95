import ReplicaRing.Proofs.Simulation.Clients

/-! Whatever is done with a cluster in memory, a fleet can do as well. -/

namespace ReplicaRing

open Simulation (Answer Call Cluster Switchboard World)

namespace Network

variable {network : Network} {sent : List (Address × Bytes)} {Member : Type}

private theorem Carries.attachAll (h : network.Carries sent) (members : List (Member × Address)) :
    (members.foldl (fun network (_, address) => (network.attach address).2) network).Carries
      sent := by
  induction members generalizing network with
  | nil => exact h
  | cons member rest ih => exact ih (h.attach member.2)

private theorem inboxes_attachAll (network : Network) (members : List (Member × Address)) :
    (members.foldl (fun network (_, address) => (network.attach address).2) network).inboxes =
      network.inboxes ++ (members.map fun (_, address) => ({ address } : Inbox)).toArray := by
  induction members generalizing network with
  | nil => simp
  | cons member rest ih =>
      rw [List.foldl_cons, ih]
      simp [attach]

end Network

namespace Simulation.Cluster

variable {cluster first : Cluster} {settings : List Settings} {fleet : Fleet Nat MemoryStore}
  {members index : Nat} {callers : List (Fleet.Caller Nat)}

private theorem mirrors_start (hstart : Cluster.start settings = .ok cluster) (hnow : fleet.now = 0)
    (hnodes : ∀ (index : Nat) (node : Node MemoryStore),
      cluster.world.nodes[index]? = some node → fleet.nodes index = node) :
    cluster.world.Mirrors settings.length fleet.callers fleet := by
  unfold Cluster.start at hstart
  cases hvalid : settings.forM Settings.validate with
  | error error =>
      rw [hvalid] at hstart
      cases hstart
  | ok _ =>
      rw [hvalid] at hstart
      cases hstart
      exact {
        callers := rfl
        size := by simp [publish, modifyWorld]
        nodes := hnodes
        now := hnow
        timely := ⟨.nil, nofun⟩
        events := fun event hevent => by
          rcases hevent with hready | ⟨time, htimer⟩
          · cases hready
          · cases htimer
        located := fun index node hnode => by
          simp only [publish, modifyWorld, Array.getElem?_map, List.getElem?_toArray,
            List.getElem?_map, Option.map_map, Option.map_eq_some_iff] at hnode
          obtain ⟨member, hmember, rfl⟩ := hnode
          simp only [publish, modifyWorld, Network.address?, Network.inboxes_attachAll,
            List.append_toArray, List.nil_append, List.getElem?_toArray, List.getElem?_map, hmember]
          rfl
        carries := Network.Carries.empty.attachAll _ }

private theorem mirrors_setView (h : cluster.world.Mirrors members callers fleet) (index : Nat)
    (names : List String) : ∃ after, fleet.Reaches after ∧
      (cluster.setView index names).world.Mirrors members callers after :=
  h.modifyNode _ (fun _ => rfl) (.one (rfl : fleet.step (.view index _) = _))

private theorem mirrors_setStorage (h : cluster.world.Mirrors members callers fleet) (index : Nat)
    (storage : MemoryStore) : ∃ after, fleet.Reaches after ∧
      (cluster.setStorage index storage).world.Mirrors members callers after :=
  h.modifyNode _ (fun _ => rfl) (.one (rfl : fleet.step (.rewrite index storage) = _))

private theorem mirrors_isolate (h : cluster.world.Mirrors members callers fleet) (index : Nat) :
    (cluster.isolate index).2.world.Mirrors members callers fleet where
  callers := h.callers
  size := h.size
  nodes := h.nodes
  now := h.now
  timely := h.timely
  events := h.events
  located := h.located
  carries := h.carries.detach _

/-- What is done with a cluster, and what the clients of its nodes are told meanwhile. -/
inductive Becomes (first : Cluster) : Cluster → List (Fleet.Caller Nat) → Prop
  | refl : Becomes first first []
  | call {cluster : Cluster} {callers : List (Fleet.Caller Nat)} (index : Nat) (calls : List Call)
      (answers : List (Answer × Nat)) (world : World Switchboard)
      (h : Becomes first cluster callers) (hindex : index < first.world.nodes.size)
      (hcall : cluster.world.call index calls = some (answers, world)) :
      Becomes first { cluster with world } (callers ++ calls.zipWith
        (fun call answer => ⟨index, call, .ended answer.1 answer.2⟩) answers)
  | setView {cluster : Cluster} {callers : List (Fleet.Caller Nat)} (index : Nat)
      (names : List String) (h : Becomes first cluster callers) :
      Becomes first (cluster.setView index names) callers
  | setStorage {cluster : Cluster} {callers : List (Fleet.Caller Nat)} (index : Nat)
      (storage : MemoryStore) (h : Becomes first cluster callers) :
      Becomes first (cluster.setStorage index storage) callers
  | isolate {cluster : Cluster} {callers : List (Fleet.Caller Nat)} (index : Nat)
      (h : Becomes first cluster callers) : Becomes first (cluster.isolate index).2 callers

/-- Whatever clients of a cluster in memory are told, clients of a fleet with the same nodes are
told in some execution. -/
theorem exists_execution (hstart : Cluster.start settings = .ok first)
    (hcallers : fleet.callers = []) (hnow : fleet.now = 0)
    (hnodes : ∀ (index : Nat) (node : Node MemoryStore),
      first.world.nodes[index]? = some node → fleet.nodes index = node)
    (h : Becomes first cluster callers) :
    ∃ (e : Fleet.Execution Nat MemoryStore) (time : Nat), e.start = fleet ∧
      cluster.world.Mirrors settings.length callers (e.after time) := by
  have hfirst := mirrors_start hstart hnow hnodes
  have hmirrors : ∃ after, fleet.Reaches after ∧
      cluster.world.Mirrors settings.length callers after := by
    induction h with
    | refl => exact ⟨fleet, .refl, hcallers ▸ hfirst⟩
    | call index calls answers world _ hindex hcall ih =>
        obtain ⟨middle, hmiddle, hbefore⟩ := ih
        obtain ⟨-, after, hafter, htold⟩ := hbefore.told (hfirst.size ▸ hindex) hcall
        exact ⟨after, hmiddle.trans hafter, htold⟩
    | setView index names _ ih =>
        obtain ⟨middle, hmiddle, hbefore⟩ := ih
        obtain ⟨after, hafter, hview⟩ := mirrors_setView hbefore index names
        exact ⟨after, hmiddle.trans hafter, hview⟩
    | setStorage index storage _ ih =>
        obtain ⟨middle, hmiddle, hbefore⟩ := ih
        obtain ⟨after, hafter, hstorage⟩ := mirrors_setStorage hbefore index storage
        exact ⟨after, hmiddle.trans hafter, hstorage⟩
    | isolate index _ ih =>
        obtain ⟨after, hafter, hbefore⟩ := ih
        exact ⟨after, hafter, mirrors_isolate hbefore index⟩
  obtain ⟨after, hafter, hlast⟩ := hmirrors
  obtain ⟨e, time, hbegin, rfl⟩ := hafter.exists_after
  exact ⟨e, time, hbegin, hlast⟩

end Simulation.Cluster

end ReplicaRing
