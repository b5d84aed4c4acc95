import ReplicaRing.Proofs.Node.Moves
import ReplicaRing.Proofs.Server.Storing
import ReplicaRing.Proofs.Server.Willing

/-! The storage of a node is what its valid writes make of it, whoever asks for them. -/

namespace ReplicaRing

namespace Server

variable {S : Type} [Storage S] {host : Host} {roster : Roster} {storage : S} {datagram : Bytes}
  {entry : Entry} {message : Message}

private theorem outgoing_of_put_error {error : StorageError}
    (hwrite : write? host.protocol.version datagram = some entry)
    (herror : (Storage.put storage entry.key entry.value).1 = .error error) :
    (receive host roster storage datagram).outgoing = none := by
  obtain ⟨message, hdecode, -, hrole, hentry⟩ := write?_eq_some hwrite
  refine Option.eq_none_iff_forall_not_mem.mpr fun sent hsent => ?_
  obtain ⟨asked, reply, peer, hasked, -, -, -, hanswers⟩ :=
    receive_outgoing (Option.mem_def.mp hsent)
  rw [hdecode] at hasked
  cases hasked
  cases hanswers with
  | stored taken _ htaken hput =>
      rw [hentry] at htaken
      cases htaken
      rw [hput] at herror
      cases herror
  | pong hother | found _ _ _ hother | missing _ hother =>
      rw [hrole] at hother
      cases hother

private theorem outgoing_of_unknown (hdecode : Message.decode datagram = .ok message)
    (hunknown : roster.find? message.replyTo = none) :
    (receive host roster storage datagram).outgoing = none := by
  refine Option.eq_none_iff_forall_not_mem.mpr fun sent hsent => ?_
  obtain ⟨asked, _, peer, hasked, hpeer, -⟩ := receive_outgoing (Option.mem_def.mp hsent)
  rw [hdecode] at hasked
  cases hasked
  rw [hunknown] at hpeer
  cases hpeer

end Server

namespace Node

variable {S : Type} [Storage S]

def receiveUnder (node : Node S) (arrival : Roster × Bytes) : Node S :=
  ({ node with membership := node.membership.replace arrival.1 }.receive arrival.2).1

/-- Takes datagrams in the order of their arrival, each with the roster of its time. -/
def receiveAll (node : Node S) (arrivals : List (Roster × Bytes)) : Node S :=
  arrivals.foldl receiveUnder node

def writes (node : Node S) (arrivals : List (Roster × Bytes)) : List Entry :=
  (arrivals.map Prod.snd).filterMap (Server.write? node.host.protocol.version)

private theorem storage_receive_eq (node : Node S) (datagram : Bytes) :
    (node.receive datagram).1.storage =
      (Server.write? node.host.protocol.version datagram).elim node.storage
        (Storage.write node.storage) :=
  (node.storage_receive datagram).trans (Server.receive_storage_eq _ _ _ _)

private theorem host_receiveUnder (node : Node S) (arrival : Roster × Bytes) :
    (node.receiveUnder arrival).host = node.host := by
  obtain ⟨operations, storage, hnode, -⟩ :=
    receive_frame { node with membership := node.membership.replace arrival.1 } arrival.2
  rw [receiveUnder, hnode]

private theorem storage_receiveUnder (node : Node S) (arrival : Roster × Bytes) :
    (node.receiveUnder arrival).storage =
      (Server.write? node.host.protocol.version arrival.2).elim node.storage
        (Storage.write node.storage) :=
  storage_receive_eq _ _

private theorem storage_receiveAll (node : Node S) (arrivals : List (Roster × Bytes)) :
    (node.receiveAll arrivals).storage =
      (node.writes arrivals).foldl Storage.write node.storage := by
  induction arrivals generalizing node with
  | nil => rfl
  | cons arrival rest ih =>
      have hrest : (node.receiveUnder arrival).writes rest = node.writes rest := by
        rw [writes, writes, host_receiveUnder]
      rw [receiveAll, List.foldl_cons, ← receiveAll, ih, hrest, storage_receiveUnder]
      cases hwrite : Server.write? node.host.protocol.version arrival.2 with
      | none => rw [writes, writes, List.map_cons, List.filterMap_cons_none hwrite, Option.elim_none]
      | some entry =>
          rw [writes, writes, List.map_cons, List.filterMap_cons_some hwrite, List.foldl_cons,
            Option.elim_some]

variable [LawfulStorage S]

/-- Where the storage does not fail, it holds in the end what the puts among the arrivals make, in
their order, of what it held at first, each of them setting its key to its value.  No other datagram
changes the storage; a put does even where nobody can be told; and one that fails changes nothing and
is not acknowledged. -/
theorem holds_fold_of_writes (node : Node S) :
    (Storage.Lasts node.storage → ∃ held, Storage.Holds node.storage held ∧
      ∀ arrivals, Storage.Holds (node.receiveAll arrivals).storage
        ((node.writes arrivals).foldl Entry.record held)) ∧
    (∀ datagram, Server.write? node.host.protocol.version datagram = none →
      (node.receive datagram).1.storage = node.storage) ∧
    (∀ datagram message entry, Message.decode datagram = .ok message →
      Server.write? node.host.protocol.version datagram = some entry →
      node.membership.roster.find? message.replyTo = none →
        (node.receive datagram).1.storage = Storage.write node.storage entry ∧
        (node.receive datagram).2.2 = none) ∧
    ∀ datagram entry error, Server.write? node.host.protocol.version datagram = some entry →
      (Storage.put node.storage entry.key entry.value).1 = .error error →
        (∀ key, Storage.get (node.receive datagram).1.storage key =
          Storage.get node.storage key) ∧
        (node.receive datagram).2.2 = none := by
  refine ⟨fun hlasts => ?_, fun datagram hnone => ?_,
    fun datagram message entry hdecode hwrite hunknown => ?_,
    fun datagram entry error hwrite herror => ?_⟩
  · obtain ⟨held, hheld⟩ := hlasts.works.exists_holds
    refine ⟨held, hheld, fun arrivals => ?_⟩
    rw [storage_receiveAll]
    exact hheld.foldl_write hlasts _
  · rw [storage_receive_eq, hnone]
    rfl
  · rw [storage_receive_eq, hwrite, receive_outgoing, response]
    exact ⟨rfl, Server.outgoing_of_unknown hdecode hunknown⟩
  · rw [storage_receive_eq, hwrite, receive_outgoing, response]
    exact ⟨Storage.get_write_of_error herror, Server.outgoing_of_put_error hwrite herror⟩

end Node

namespace Recluse

/-! A node that knows nobody, and a put of somebody else. -/

def node {S : Type} (storage : S) : Node S where
  host := ⟨"a", {}⟩
  address := .localhost 1
  storage := storage

def message : Message where
  version := 1
  topic := .store
  verb := Verb.put
  args := .zero
  replyTo := "b"
  payload := Entry.written ⟨[1], [2]⟩

def datagram : Bytes := message.encode.toOption.getD []

private theorem decode_datagram : Message.decode datagram = .ok message :=
  Message.decode_of_encode rfl

private theorem write?_datagram : Server.write? 1 datagram = some ⟨[1], [2]⟩ := by decide +kernel

theorem holds_put_of_stranger :
    (∃ held, Storage.Holds (Table.empty : MemoryStore) held ∧
      Storage.Holds ((node (Table.empty : MemoryStore)).receiveAll [({}, []), ({}, datagram)]).storage
        (Function.update held [1] (some [2]))) ∧
      ((node (Table.empty : MemoryStore)).receive []).1.storage = Table.empty ∧
      ((node (Table.empty : MemoryStore)).receive datagram).2.2 = none ∧
      ((node ({} : PoisonedStore)).receive datagram).2.2 = none := by
  obtain ⟨hfold, hother, hstranger, -⟩ := (node (Table.empty : MemoryStore)).holds_fold_of_writes
  obtain ⟨-, -, -, hrefused⟩ := (node ({} : PoisonedStore)).holds_fold_of_writes
  obtain ⟨held, hheld, hafter⟩ := hfold (MemoryStore.lasts _)
  have hholds := hafter [({}, []), ({}, datagram)]
  have hwrites : (node (Table.empty : MemoryStore)).writes [({}, []), ({}, datagram)] =
      [⟨[1], [2]⟩] := by decide +kernel
  rw [hwrites] at hholds
  exact ⟨⟨held, hheld, hholds⟩, hother [] (by decide +kernel),
    (hstranger datagram message _ decode_datagram write?_datagram rfl).2,
    (hrefused datagram _ .lockPoisoned write?_datagram rfl).2⟩

end Recluse

end ReplicaRing
