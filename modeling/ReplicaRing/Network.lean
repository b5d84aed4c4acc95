import ReplicaRing.Address
import ReplicaRing.Message.Layout
import ReplicaRing.Table

/-! A network in memory.  Like any datagram network it may lose what nobody can take. -/

namespace ReplicaRing

structure Datagram where
  source : Address
  data : Bytes
  deriving DecidableEq

structure Inbox where
  address : Address
  datagrams : List Datagram := []
  deriving DecidableEq

abbrev Handle := Nat

structure Network where
  inboxes : Array Inbox := #[]
  attached : Table Address Handle := {}

inductive Received
  | datagram (datagram : Datagram)
  | nothing
  | closed
  deriving DecidableEq

namespace Network

def capacity : Nat := 1000

/-- Opens an inbox at an address.  One that was attached there before gets no more datagrams. -/
def attach (network : Network) (address : Address) : Handle × Network :=
  let handle := network.inboxes.size
  (handle, ⟨network.inboxes.push { address }, network.attached.insert address handle⟩)

def detach (network : Network) (address : Address) : Bool × Network :=
  (network.attached.contains address,
    { network with attached := network.attached.erase address })

def isAttached (network : Network) (address : Address) : Bool :=
  network.attached.contains address

def address? (network : Network) (handle : Handle) : Option Address :=
  network.inboxes[handle]?.map Inbox.address

def accept (datagram : Datagram) (inbox : Inbox) : Inbox :=
  if inbox.datagrams.length < capacity then
    { inbox with datagrams := inbox.datagrams ++ [datagram] }
  else inbox

/-- Puts a datagram on its way.  Nobody at the address, or a full inbox there, is no error. -/
def deliver (network : Network) (target : Address) (datagram : Datagram) : Network :=
  match network.attached.find? target with
  | some handle =>
      { network with inboxes := network.inboxes.modify handle (accept datagram) }
  | none => network

def send (network : Network) (source target : Address) (data : Bytes) : Option Network :=
  if Layout.maxDatagram < data.length then none
  else some (network.deliver target ⟨source, data⟩)

def isOpen (network : Network) (handle : Handle) : Bool :=
  match network.address? handle with
  | some address => network.attached.find? address == some handle
  | none => false

def receive (network : Network) (handle : Handle) : Received × Network :=
  match network.inboxes[handle]? with
  | some ⟨address, datagram :: rest⟩ =>
      (.datagram datagram,
        { network with inboxes := network.inboxes.setIfInBounds handle ⟨address, rest⟩ })
  | _ => (if network.isOpen handle then .nothing else .closed, network)

def drain (network : Network) (handle : Handle) : List Datagram × Bool × Network :=
  match network.inboxes[handle]? with
  | some ⟨address, datagrams⟩ =>
      let network := { network with inboxes := network.inboxes.setIfInBounds handle ⟨address, []⟩ }
      (datagrams, !network.isOpen handle, network)
  | none => ([], true, network)

/-- Receives on a network on which nobody sends meanwhile: with nothing there, the time passes.  Gives
the time at which the receiver goes on. -/
def receiveWithin (network : Network) (handle : Handle) (timeout now : Nat) :
    Received × Nat × Network :=
  match network.receive handle with
  | (.nothing, network) => (.nothing, now + timeout, network)
  | (received, network) => (received, now, network)

end Network

end ReplicaRing
