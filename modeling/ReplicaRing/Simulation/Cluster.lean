import ReplicaRing.Blob
import ReplicaRing.Network
import ReplicaRing.Simulation.Call

/-! Whole clusters on a network in memory. -/

namespace ReplicaRing.Simulation

/-- A network whose first handles belong to nodes, in their order. -/
structure Switchboard where
  network : Network := {}
  nodes : Nat

namespace Switchboard

instance : Medium Switchboard where
  send board _ source target datagram :=
    match board.network.send source target datagram with
    | none => (.refused 0, board)
    | some network =>
        let arrivals := match network.attached.find? target with
          | some handle => if handle < board.nodes then [(0, .waiting handle)] else []
          | none => []
        (.taken arrivals, { board with network })
  receive board node :=
    match board.network.receive node with
    | (.datagram datagram, network) => (some datagram.data, { board with network })
    | (_, _) => (none, board)

end Switchboard

structure OpenBlob where
  node : Nat
  blob : Blob

structure Cluster where
  world : World Switchboard
  settings : List Settings
  /-- Every node, then every ghost: a peer that takes no part but can be given an inbox. -/
  peers : List Peer
  ghosts : Table String Peer := {}
  inboxes : Table String Handle := {}
  blobs : Table String OpenBlob := {}

namespace Cluster

def nodeAddress (index : Nat) : Address := .localhost (UInt16.ofNat (9991 + index))

def defaultProtocol : Protocol := { pingTimeout := 200, ackTimeout := 200 }

def nodeName (index : Nat) : String := s!"node{index + 1}"

def modifyWorld (cluster : Cluster) (change : World Switchboard → World Switchboard) : Cluster :=
  { cluster with world := change cluster.world }

def publish (cluster : Cluster) : Cluster :=
  let roster := Roster.ofList cluster.peers
  cluster.modifyWorld fun world =>
    { world with nodes := world.nodes.map fun node =>
        { node with membership := node.membership.replace roster } }

def start (settings : List Settings) : Except SettingsError Cluster := do
  settings.forM Settings.validate
  let members := settings.zipIdx.map fun (settings, index) => (settings, nodeAddress index)
  let network := members.foldl (fun network (_, address) => (network.attach address).2) {}
  let nodes := members.map fun (settings, address) =>
    ({ host := settings.host, address, storage := {} } : Node MemoryStore)
  let cluster : Cluster := {
    world := { medium := { network, nodes := settings.length }, nodes := nodes.toArray }
    settings
    peers := members.map fun (settings, address) => settings.peer address }
  return cluster.publish

def now (cluster : Cluster) : Nat := cluster.world.now

def network (cluster : Cluster) : Network := cluster.world.medium.network

def setNetwork (cluster : Cluster) (network : Network) : Cluster :=
  cluster.modifyWorld fun world => { world with medium := { world.medium with network } }

def addGhost (cluster : Cluster) (name : String) : Peer × Cluster :=
  let ghost : Peer := ⟨name, nodeAddress (cluster.peers.length + 1000), Peer.defaultTokens⟩
  (ghost, { cluster with
    peers := cluster.peers ++ [ghost]
    ghosts := cluster.ghosts.insert name ghost }.publish)

def attachGhost (cluster : Cluster) (name : String) : Cluster :=
  match cluster.ghosts.find? name with
  | none => cluster
  | some ghost =>
      let (handle, network) := cluster.network.attach ghost.address
      { cluster with inboxes := cluster.inboxes.insert name handle }.setNetwork network

def inject (cluster : Cluster) (name : String) (index : Nat) (datagram : Bytes) :
    Except ProtocolError Cluster :=
  match cluster.ghosts.find? name with
  | none => .error (.unknownPeer name)
  | some ghost =>
      match cluster.world.send ghost.address (nodeAddress index) datagram with
      | (.taken _, world) => .ok { cluster with world }
      | _ => .error (.oversized datagram.length)

def isolate (cluster : Cluster) (index : Nat) : Bool × Cluster :=
  let (wasAttached, network) := cluster.network.detach (nodeAddress index)
  (wasAttached, cluster.setNetwork network)

def isAttached (cluster : Cluster) (index : Nat) : Bool :=
  cluster.network.isAttached (nodeAddress index)

def setView (cluster : Cluster) (index : Nat) (names : List String) : Cluster :=
  let roster := Roster.ofList
    ((Roster.ofList cluster.peers).peers.filter fun peer => names.contains peer.name)
  cluster.modifyWorld fun world => world.modifyNode index fun node =>
    { node with membership := node.membership.replace roster }

def storage (cluster : Cluster) (index : Nat) : MemoryStore :=
  (cluster.world.nodes[index]?.map Node.storage).getD {}

def setStorage (cluster : Cluster) (index : Nat) (storage : MemoryStore) : Cluster :=
  cluster.modifyWorld fun world => world.modifyNode index fun node => { node with storage }

def holders (cluster : Cluster) (key : Bytes) : List Nat :=
  (List.range cluster.settings.length).filter fun index => (cluster.storage index).contains key

def routes (cluster : Cluster) (index : Nat) : Nat :=
  (cluster.world.nodes[index]?.map fun node => node.routes.size).getD 0

def call (cluster : Cluster) (index : Nat) (call : Call) : Option (Answer × Cluster) := do
  let (answers, world) ← cluster.world.call index [call]
  let (answer, _) ← answers.head?
  return (answer, { cluster with world })

def sleep (cluster : Cluster) (time : Nat) : Option Cluster := do
  let (_, world) ← cluster.world.perform 0 [Client.pause time]
  return { cluster with world }

/-- Looks for what reaches an inbox, until nothing has come for a millisecond. -/
structure Watch where
  handle : Handle
  found : List Datagram := []
  till : Option Nat := none
  isOver : Bool := false

def Watch.look (watch : Watch) (world : World Switchboard) : Watch × World Switchboard :=
  let (datagrams, isClosed, network) := world.medium.network.drain watch.handle
  let world := { world with medium := { world.medium with network } }
  let watch := { watch with found := watch.found ++ datagrams }
  if isClosed then ({ watch with isOver := true }, world)
  else if datagrams.isEmpty && watch.till.any (· ≤ world.now) then
    ({ watch with isOver := true }, world)
  else if datagrams.isEmpty && watch.till.isSome then (watch, world)
  else
    let till := world.now + 1
    ({ watch with till := some till },
      world.modifyAgenda fun agenda => agenda.schedule till .alarm)

def inbox (cluster : Cluster) (name : String) : Option (List Datagram × Cluster) :=
  match cluster.inboxes.find? name with
  | none => some ([], cluster)
  | some handle => do
      let simulator : Simulator (World Switchboard) Event Watch := {
        agenda := World.agenda
        setAgenda := fun world agenda => { world with agenda }
        handle := World.handle
        goOn := Watch.look
        isFinished := Watch.isOver }
      let (watch, world) ← simulator.run { handle } cluster.world
      return (watch.found, { cluster with world })

def carryOut {Result : Type} (cluster : Cluster) (index : Nat) (task : Blob.Task Result) :
    Option (Except BlobError Result × Cluster) := do
  let settings ← cluster.settings[index]?
  let program : Exchanges (Except BlobError Result) := task.run.run (Client.serve settings.host)
  let (results, world) ← cluster.world.perform index [program]
  let (result, _) ← results.head?
  return (result, { cluster with world })

def keepBlob (cluster : Cluster) (index : Nat) (name : String) (task : Blob.Task Blob) :
    Option (Except BlobError Blob × Cluster) := do
  let (result, cluster) ← cluster.carryOut index task
  match result with
  | .ok blob =>
      return (result, { cluster with blobs := cluster.blobs.insert name ⟨index, blob⟩ })
  | .error _ => return (result, cluster)

def pageSize (cluster : Cluster) (index : Nat) : Nat :=
  (cluster.settings[index]?.map Settings.pageSize).getD 0

def useBlob {Result : Type} (cluster : Cluster) (handle : OpenBlob)
    (task : Blob → Blob.Task Result) : Option (Except BlobError Result × Cluster) :=
  cluster.carryOut handle.node (task handle.blob)

end Cluster

end ReplicaRing.Simulation
