import Mathlib.Data.List.Induction
import Mathlib.Logic.Function.Basic
import ReplicaRing.Error
import ReplicaRing.Proofs.Simulation.Network

/-! A network duplicates, reorders and misdelivers nothing.  What it has to hand over is kept in a
ledger, which knows the calls made on the network and what they answered, but not its inboxes. -/

namespace ReplicaRing

namespace Network

inductive Call
  | attach (address : Address)
  | detach (address : Address)
  /-- Whether the sender is still attached makes no difference. -/
  | send (sender : Handle) (target : Address) (data : Bytes)
  /-- One look into an inbox.  A receiver that finds nothing waits, which is to look again after the
  calls of others; one with a timeout gives up at last. -/
  | receive (receiver : Handle)
  | receiveWithin (receiver : Handle) (timeout now : Nat)

inductive Answer
  | attached (handle : Handle)
  | detached (found : Bool)
  | sent
  | refused (error : ProtocolError)
  | received (received : Received)
  | receivedAt (received : Received) (time : Nat)
  | noHandle
  deriving DecidableEq

def perform (network : Network) : Call → Answer × Network
  | .attach address =>
      let (handle, network) := network.attach address
      (.attached handle, network)
  | .detach address =>
      let (found, network) := network.detach address
      (.detached found, network)
  | .send sender target data =>
      match network.address? sender with
      | none => (.noHandle, network)
      | some source =>
          match network.send source target data with
          | none => (.refused (.oversized data.length), network)
          | some network => (.sent, network)
  | .receive receiver =>
      match network.address? receiver with
      | none => (.noHandle, network)
      | some _ =>
          let (received, network) := network.receive receiver
          (.received received, network)
  | .receiveWithin receiver timeout now =>
      match network.address? receiver with
      | none => (.noHandle, network)
      | some _ =>
          let (received, time, network) := network.receiveWithin receiver timeout now
          (.receivedAt received time, network)

/-- The history of a network as far as it bears on what is received. -/
structure Ledger where
  places : List Address := []
  /-- Who was the last to attach at an address, unless it was detached since. -/
  holder : Address → Option Handle := fun _ => none
  accepted : Handle → List Datagram := fun _ => []
  received : Handle → List Datagram := fun _ => []

namespace Ledger

def outstanding (ledger : Ledger) (handle : Handle) : Nat :=
  (ledger.accepted handle).length - (ledger.received handle).length

/-- Who takes a datagram for an address: the one who is attached there, if it has room. -/
def taker? (ledger : Ledger) (target : Address) : Option Handle :=
  (ledger.holder target).filter fun handle => ledger.outstanding handle < capacity

/-- Who gets data that is sent, and as which datagram.  Nobody gets what is too long or vanishes. -/
def accepts? (ledger : Ledger) (sender : Handle) (target : Address) (data : Bytes) :
    Option (Handle × Datagram) :=
  if Layout.maxDatagram < data.length then none
  else
    match ledger.places[sender]?, ledger.taker? target with
    | some source, some taker => some (taker, ⟨source, data⟩)
    | _, _ => none

/-- A handle is attached while nobody else has attached at its address, nor detached it. -/
def isAttached (ledger : Ledger) (handle : Handle) : Bool :=
  match ledger.places[handle]? with
  | some address => ledger.holder address == some handle
  | none => false

/-- The oldest datagram that is outstanding.  Without one, only those that are no longer attached
learn that there will be none. -/
def next (ledger : Ledger) (receiver : Handle) : Received :=
  match (ledger.accepted receiver)[(ledger.received receiver).length]? with
  | some datagram => .datagram datagram
  | none => if ledger.isAttached receiver then .nothing else .closed

/-- The only answer that is right. -/
def answer (ledger : Ledger) : Call → Answer
  | .attach _ => .attached ledger.places.length
  | .detach address => .detached (ledger.holder address).isSome
  | .send sender _ data =>
      match ledger.places[sender]? with
      | none => .noHandle
      | some _ =>
          if Layout.maxDatagram < data.length then .refused (.oversized data.length) else .sent
  | .receive receiver =>
      match ledger.places[receiver]? with
      | none => .noHandle
      | some _ => .received (ledger.next receiver)
  | .receiveWithin receiver timeout now =>
      match ledger.places[receiver]? with
      | none => .noHandle
      | some _ => .receivedAt (ledger.next receiver)
          (if ledger.next receiver = .nothing then now + timeout else now)

def gave (ledger : Ledger) (receiver : Handle) : Received → Ledger
  | .datagram datagram => { ledger with
      received := Function.update ledger.received receiver (ledger.received receiver ++ [datagram]) }
  | .nothing | .closed => ledger

def note (ledger : Ledger) : Call → Answer → Ledger
  | .attach address, .attached handle => { ledger with
      places := ledger.places ++ [address]
      holder := Function.update ledger.holder address (some handle) }
  | .detach address, .detached _ => { ledger with
      holder := Function.update ledger.holder address none }
  | .send sender target data, .sent =>
      match ledger.accepts? sender target data with
      | some (taker, datagram) => { ledger with
          accepted := Function.update ledger.accepted taker (ledger.accepted taker ++ [datagram]) }
      | none => ledger
  | .receive receiver, .received received => ledger.gave receiver received
  | .receiveWithin receiver _ _, .receivedAt received _ => ledger.gave receiver received
  | _, _ => ledger

end Ledger

structure Audit where
  network : Network := {}
  ledger : Ledger := {}

namespace Audit

def step (audit : Audit) (call : Call) : Audit :=
  let (answer, network) := audit.network.perform call
  ⟨network, audit.ledger.note call answer⟩

def after (calls : List Call) : Audit := calls.foldl step {}

end Audit

variable {network : Network} {ledger : Ledger} {target : Address} {datagram : Datagram}
  {receiver taker : Handle}

private theorem receiveWithin_eq (network : Network) (receiver : Handle) (timeout now : Nat) :
    network.receiveWithin receiver timeout now =
      ((network.receive receiver).1,
        if (network.receive receiver).1 = .nothing then now + timeout else now,
        (network.receive receiver).2) := by
  rw [receiveWithin]
  rcases network.receive receiver with ⟨received, after⟩
  cases received <;> rfl

private theorem unchanged_of_nothing
    (hnothing : (network.perform (.receive receiver)).1 = .received .nothing) :
    (network.perform (.receive receiver)).2 = network := by
  rw [Network.perform] at hnothing ⊢
  cases haddress : network.address? receiver with
  | none => rfl
  | some _ =>
      rw [haddress] at hnothing
      cases hunread : network.unread receiver with
      | nil => simp only [receive_of_unread_nil hunread]
      | cons datagram rest =>
          obtain ⟨after, hreceive, -⟩ := receive_of_unread_cons hunread
          rw [hreceive] at hnothing
          cases hnothing

structure Agrees (network : Network) (ledger : Ledger) : Prop where
  opened : ledger.places.length = network.inboxes.size
  places : ∀ handle : Handle, ledger.places[handle]? = network.address? handle
  holder : ∀ address, ledger.holder address = network.attached.find? address
  accepted : ∀ handle,
    ledger.accepted handle = ledger.received handle ++ network.unread handle
  placed : network.Placed

namespace Agrees

private theorem empty : Agrees {} {} where
  opened := rfl
  places _ := rfl
  holder _ := rfl
  accepted _ := rfl
  placed := .empty

private theorem outstanding_eq (h : Agrees network ledger) (handle : Handle) :
    ledger.outstanding handle = (network.unread handle).length := by
  rw [Ledger.outstanding, h.accepted, List.length_append, Nat.add_sub_cancel_left]

private theorem isAttached_eq (h : Agrees network ledger) (handle : Handle) :
    ledger.isAttached handle = network.isOpen handle := by
  rw [Ledger.isAttached, isOpen, h.places]
  cases network.address? handle with
  | none => rfl
  | some address => simp only [h.holder]

private theorem next_eq (h : Agrees network ledger) (receiver : Handle) :
    (network.receive receiver).1 = ledger.next receiver := by
  rw [Ledger.next, h.accepted, List.getElem?_append_right (Nat.le_refl _), Nat.sub_self,
    h.isAttached_eq]
  cases hunread : network.unread receiver with
  | nil => rw [receive_of_unread_nil hunread]; rfl
  | cons datagram rest =>
      obtain ⟨after, hreceive, -⟩ := receive_of_unread_cons hunread
      rw [hreceive]
      rfl

private theorem attach (h : Agrees network ledger) (address : Address) :
    Agrees (network.attach address).2
      (ledger.note (.attach address) (.attached (network.attach address).1)) where
  opened := by
    simp only [Ledger.note, Network.attach, List.length_append, List.length_singleton,
      Array.size_push, h.opened]
  places handle := by
    rw [Network.attach, address?, Array.getElem?_push, ← h.opened]
    simp only [Ledger.note]
    split
    case isTrue hnew => rw [hnew, List.getElem?_concat_length]; rfl
    case isFalse hold =>
      refine Eq.trans ?_ (h.places handle)
      rcases Nat.lt_or_gt_of_ne hold with hlt | hgt
      · exact List.getElem?_append_left hlt
      · rw [List.getElem?_eq_none (Nat.le_of_lt hgt), List.getElem?_eq_none]
        rw [List.length_append, List.length_singleton]
        exact hgt
  holder other := by
    simp only [Ledger.note, Network.attach, Function.update_apply, Table.find?_insert, h.holder]
  accepted handle := by
    rw [unread_attach]
    exact h.accepted handle
  placed := h.placed.attach address

private theorem detach (h : Agrees network ledger) (address : Address) :
    Agrees (network.detach address).2
      (ledger.note (.detach address) (.detached (network.detach address).1)) where
  opened := h.opened
  places := h.places
  holder other := by
    simp only [Ledger.note, Network.detach, Function.update_apply, Table.find?_erase, h.holder]
  accepted := h.accepted
  placed := h.placed.detach address

/-- A datagram goes into the inbox that the ledger notes, and otherwise it vanishes. -/
theorem taker?_cases (h : Agrees network ledger) (target : Address) :
    (ledger.taker? target = none ∧ ∀ datagram, network.deliver target datagram = network) ∨
    ∃ taker, ledger.taker? target = some taker ∧
      ∀ datagram, (network.deliver target datagram).unread =
        Function.update network.unread taker (network.unread taker ++ [datagram]) := by
  rw [Ledger.taker?, h.holder]
  cases hfound : network.attached.find? target with
  | none => exact .inl ⟨rfl, deliver_of_vacant hfound⟩
  | some taker =>
      by_cases hroom : (network.unread taker).length < capacity
      · refine .inr ⟨taker, ?_, unread_deliver_of_room hfound (h.placed target taker hfound) hroom⟩
        rw [Option.filter_some, h.outstanding_eq, decide_eq_true hroom, if_pos rfl]
      · refine .inl ⟨?_, deliver_of_full hfound (Nat.le_of_not_lt hroom)⟩
        rw [Option.filter_some, h.outstanding_eq, decide_eq_false hroom]
        rfl

private theorem send (h : Agrees network ledger) {sender : Handle} {source : Address}
    (hsource : network.address? sender = some source) (target : Address) {data : Bytes}
    (hsize : data.length ≤ Layout.maxDatagram) :
    Agrees (network.deliver target ⟨source, data⟩)
      (ledger.note (.send sender target data) .sent) := by
  rw [Ledger.note, Ledger.accepts?, if_neg (Nat.not_lt.mpr hsize), h.places, hsource]
  rcases h.taker?_cases target with ⟨htaker, hlost⟩ | ⟨taker, htaker, hunread⟩
  · rw [htaker, hlost]
    exact h
  · rw [htaker]
    exact {
      opened := by rw [size_deliver]; exact h.opened
      places := fun handle => by rw [address?_deliver]; exact h.places handle
      holder := fun address => by rw [attached_deliver]; exact h.holder address
      accepted := fun handle => by
        simp only [hunread, Function.update_apply]
        split
        case isTrue hhandle => rw [h.accepted, List.append_assoc, hhandle]
        case isFalse => exact h.accepted handle
      placed := h.placed.deliver target _ }

private theorem receive (h : Agrees network ledger) (receiver : Handle) :
    Agrees (network.receive receiver).2
      (ledger.gave receiver (network.receive receiver).1) := by
  cases hunread : network.unread receiver with
  | nil =>
      rw [receive_of_unread_nil hunread]
      split <;> exact h
  | cons datagram rest =>
      obtain ⟨after, hreceive, hafter⟩ := receive_of_unread_cons hunread
      have haddress := address?_receive hreceive
      have hplaced := h.placed.receive hreceive
      rw [hreceive]
      obtain ⟨address, others, -, rfl⟩ := receive_eq_datagram hreceive
      exact {
        opened := by rw [Array.size_setIfInBounds]; exact h.opened
        places := fun handle => by rw [haddress]; exact h.places handle
        holder := h.holder
        accepted := fun handle => by
          simp only [hafter, Ledger.gave, Function.update_apply]
          split
          case isTrue hhandle =>
            rw [h.accepted, hhandle, hunread, List.append_assoc, List.singleton_append]
          case isFalse => exact h.accepted handle
        placed := hplaced }

private theorem perform (h : Agrees network ledger) (call : Call) :
    (network.perform call).1 = ledger.answer call ∧
      Agrees (network.perform call).2 (ledger.note call (network.perform call).1) := by
  cases call with
  | attach address =>
      refine ⟨?_, h.attach address⟩
      rw [Ledger.answer, h.opened]
      rfl
  | detach address =>
      refine ⟨?_, h.detach address⟩
      rw [Ledger.answer, h.holder]
      rfl
  | send sender target data =>
      rw [Ledger.answer, h.places, Network.perform]
      cases hsource : network.address? sender with
      | none => exact ⟨rfl, h⟩
      | some source =>
          by_cases hsize : Layout.maxDatagram < data.length
          · simp only [Network.send, if_pos hsize]
            exact ⟨trivial, h⟩
          · simp only [Network.send, if_neg hsize]
            exact ⟨trivial, h.send hsource target (Nat.le_of_not_lt hsize)⟩
  | receive receiver =>
      rw [Ledger.answer, h.places, Network.perform, ← h.next_eq]
      cases network.address? receiver with
      | none => exact ⟨rfl, h⟩
      | some _ => exact ⟨rfl, h.receive receiver⟩
  | receiveWithin receiver timeout now =>
      rw [Ledger.answer, h.places, Network.perform, ← h.next_eq, receiveWithin_eq]
      cases network.address? receiver with
      | none => exact ⟨rfl, h⟩
      | some _ => exact ⟨rfl, h.receive receiver⟩

private theorem unchanged_of_not_accepted (h : Agrees network ledger) {sender : Handle}
    {data : Bytes}
    (hlost : ledger.accepts? sender target data = none) :
    (network.perform (.send sender target data)).2 = network := by
  rw [Network.perform]
  rw [Ledger.accepts?, h.places] at hlost
  cases hsource : network.address? sender with
  | none => rfl
  | some source =>
      by_cases hsize : Layout.maxDatagram < data.length
      · simp only [Network.send, if_pos hsize]
      · rw [if_neg hsize, hsource] at hlost
        simp only [Network.send, if_neg hsize]
        rcases h.taker?_cases target with ⟨-, hvanished⟩ | ⟨taker, htaker, -⟩
        · exact hvanished _
        · rw [htaker] at hlost
          cases hlost

end Agrees

namespace Audit

/-- What a network has to do after a history, by the ledger of the history. -/
structure IsFaithful (audit : Audit) : Prop where
  answers : ∀ call, (audit.network.perform call).1 = audit.ledger.answer call
  /-- All that a handle was given was accepted for it, in this order, and it holds the others. -/
  keeps : ∀ handle,
    audit.ledger.accepted handle = audit.ledger.received handle ++ audit.network.unread handle
  loses : ∀ sender target data, audit.ledger.accepts? sender target data = none →
    (audit.network.perform (.send sender target data)).2 = audit.network
  waits : ∀ receiver, (audit.network.perform (.receive receiver)).1 = .received .nothing →
    (audit.network.perform (.receive receiver)).2 = audit.network

private theorem agrees (calls : List Call) : Agrees (after calls).network (after calls).ledger := by
  induction calls using List.reverseRecOn with
  | nil => exact .empty
  | append_singleton earlier call ih =>
      rw [after, List.foldl_append]
      exact (ih.perform call).2

/-- Over every history, each datagram that was accepted for a handle comes out of its inbox once, in
the order of acceptance, with its bytes and the address of its sender, and nothing else does. -/
theorem isFaithful_after (calls : List Call) : (after calls).IsFaithful where
  answers call := ((agrees calls).perform call).1
  keeps := (agrees calls).accepted
  loses _ _ _ := (agrees calls).unchanged_of_not_accepted
  waits _ := unchanged_of_nothing

example :
    let one := Address.localhost 1
    let two := Address.localhost 2
    let audit := after [.attach one, .attach two, .send 0 two [7], .attach two, .send 0 two [8],
      .receive 1]
    audit.ledger.received 1 = [⟨one, [7]⟩] ∧
      (audit.network.perform (.receive 1)).1 = .received .closed ∧
      (audit.network.perform (.receive 2)).1 = .received (.datagram ⟨one, [8]⟩) := by
  decide

end Audit

end Network

end ReplicaRing
