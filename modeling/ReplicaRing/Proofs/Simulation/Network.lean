import Mathlib.Logic.Function.Basic
import ReplicaRing.Network

/-! A network hands over only what was sent. -/

namespace ReplicaRing

namespace Network

variable {network : Network} {sent : List (Address × Bytes)} {datagram : Datagram}

theorem address?_deliver (network : Network) (target : Address) (datagram : Datagram)
    (handle : Handle) : (network.deliver target datagram).address? handle =
      network.address? handle := by
  unfold deliver
  split
  case h_2 => rfl
  case h_1 attached _ =>
    rw [address?, Array.getElem?_modify]
    split
    case isFalse => rfl
    case isTrue =>
      rw [address?]
      cases network.inboxes[handle]? with
      | none => rfl
      | some inbox =>
          change some (accept datagram inbox).address = some inbox.address
          unfold accept
          split <;> rfl

theorem attached_deliver (network : Network) (target : Address) (datagram : Datagram) :
    (network.deliver target datagram).attached = network.attached := by
  unfold deliver
  split <;> rfl

theorem size_deliver (network : Network) (target : Address) (datagram : Datagram) :
    (network.deliver target datagram).inboxes.size = network.inboxes.size := by
  unfold deliver
  split
  case h_1 => exact Array.size_modify
  case h_2 => rfl

theorem receive_eq_datagram {handle : Handle} {after : Network}
    (h : network.receive handle = (.datagram datagram, after)) :
    ∃ address rest, network.inboxes[handle]? = some ⟨address, datagram :: rest⟩ ∧
      after = { network with
        inboxes := network.inboxes.setIfInBounds handle ⟨address, rest⟩ } := by
  unfold receive at h
  split at h
  case h_1 address first rest hinbox =>
    cases h
    exact ⟨address, rest, hinbox, rfl⟩
  case h_2 =>
    simp only [Prod.mk.injEq] at h
    obtain ⟨hnone, -⟩ := h
    split at hnone <;> cases hnone

theorem address?_receive {handle : Handle} {after : Network}
    (h : network.receive handle = (.datagram datagram, after)) (other : Handle) :
    after.address? other = network.address? other := by
  obtain ⟨address, rest, hinbox, rfl⟩ := receive_eq_datagram h
  rw [address?, Array.getElem?_setIfInBounds]
  split
  case isFalse => rfl
  case isTrue hhandle =>
    subst hhandle
    obtain ⟨hlt, -⟩ := Array.getElem?_eq_some_iff.mp hinbox
    rw [if_pos hlt, address?, hinbox]
    rfl

def unread (network : Network) (handle : Handle) : List Datagram :=
  (network.inboxes[handle]?.map Inbox.datagrams).getD []

theorem unread_attach (network : Network) (address : Address) (handle : Handle) :
    (network.attach address).2.unread handle = network.unread handle := by
  rw [unread, Network.attach, Array.getElem?_push]
  split
  case isTrue hnew =>
    rw [unread, hnew, Array.getElem?_eq_none (Nat.le_refl _)]
    rfl
  case isFalse => rfl

theorem deliver_of_vacant {target : Address} (h : network.attached.find? target = none)
    (datagram : Datagram) : network.deliver target datagram = network := by
  rw [deliver, h]

private theorem accept_of_full {inbox : Inbox} (h : capacity ≤ inbox.datagrams.length)
    (datagram : Datagram) : accept datagram inbox = inbox :=
  if_neg (Nat.not_lt.mpr h)

theorem deliver_of_full {target : Address} {taker : Handle}
    (hfound : network.attached.find? target = some taker)
    (hfull : capacity ≤ (network.unread taker).length) (datagram : Datagram) :
    network.deliver target datagram = network := by
  have hmodify : network.inboxes.modify taker (accept datagram) = network.inboxes := by
    refine Array.ext_getElem? fun handle => ?_
    rw [Array.getElem?_modify]
    split
    case isFalse => rfl
    case isTrue htaker =>
      subst htaker
      rw [unread] at hfull
      cases hinbox : network.inboxes[taker]? with
      | none => rfl
      | some inbox =>
          rw [hinbox] at hfull
          rw [Option.map_some, accept_of_full hfull]
  rw [deliver, hfound]
  simp only [hmodify]

theorem unread_deliver_of_room {target : Address} {taker : Handle}
    (hfound : network.attached.find? target = some taker)
    (haddress : network.address? taker = some target)
    (hroom : (network.unread taker).length < capacity) (datagram : Datagram) :
    (network.deliver target datagram).unread =
      Function.update network.unread taker (network.unread taker ++ [datagram]) := by
  obtain ⟨inbox, hinbox, -⟩ := Option.map_eq_some_iff.mp haddress
  have htaken : network.unread taker = inbox.datagrams := by rw [unread, hinbox]; rfl
  rw [htaken] at hroom ⊢
  funext handle
  rw [deliver, hfound, unread, Array.getElem?_modify, Function.update_apply]
  by_cases htaker : handle = taker
  · rw [if_pos htaker.symm, if_pos htaker, htaker, hinbox, Option.map_some, accept, if_pos hroom]
    rfl
  · rw [if_neg (Ne.symm htaker), if_neg htaker]
    rfl

theorem receive_of_unread_nil {receiver : Handle} (h : network.unread receiver = []) :
    network.receive receiver =
      (if network.isOpen receiver then .nothing else .closed, network) := by
  rw [unread] at h
  rw [Network.receive]
  split
  case h_1 hinbox =>
    rw [hinbox] at h
    cases h
  case h_2 => rfl

theorem receive_of_unread_cons {receiver : Handle} {rest : List Datagram}
    (h : network.unread receiver = datagram :: rest) :
    ∃ after, network.receive receiver = (.datagram datagram, after) ∧
      after.unread = Function.update network.unread receiver rest := by
  rw [unread] at h
  cases hinbox : network.inboxes[receiver]? with
  | none =>
      rw [hinbox] at h
      cases h
  | some inbox =>
      obtain ⟨address, datagrams⟩ := inbox
      rw [hinbox] at h
      cases h
      refine ⟨_, by rw [Network.receive, hinbox], ?_⟩
      obtain ⟨hlt, -⟩ := Array.getElem?_eq_some_iff.mp hinbox
      funext handle
      rw [unread, Array.getElem?_setIfInBounds, Function.update_apply]
      by_cases hreceiver : handle = receiver
      · rw [if_pos hreceiver.symm, if_pos hlt, if_pos hreceiver]
        rfl
      · rw [if_neg (Ne.symm hreceiver), if_neg hreceiver]
        rfl

def Placed (network : Network) : Prop := ∀ (address : Address) (handle : Handle),
  network.attached.find? address = some handle → network.address? handle = some address

namespace Placed

theorem empty : Placed {} := by
  intro address handle hfound
  cases hfound

theorem attach (h : network.Placed) (address : Address) : (network.attach address).2.Placed := by
  intro target handle hfound
  simp only [Network.attach, Table.find?_insert] at hfound
  rw [Network.attach, address?, Array.getElem?_push]
  split at hfound
  case isTrue htarget =>
    rw [← Option.some.inj hfound, if_pos rfl, htarget]
    rfl
  case isFalse =>
    have haddress := h target handle hfound
    split
    case isTrue hnew =>
      rw [address?, hnew, Array.getElem?_eq_none (Nat.le_refl _)] at haddress
      cases haddress
    case isFalse => exact haddress

theorem detach (h : network.Placed) (address : Address) : (network.detach address).2.Placed := by
  intro target handle hfound
  simp only [Network.detach, Table.find?_erase] at hfound
  split at hfound
  · cases hfound
  · exact h target handle hfound

theorem deliver (h : network.Placed) (target : Address) (datagram : Datagram) :
    (network.deliver target datagram).Placed := by
  intro address handle hfound
  rw [address?_deliver]
  rw [attached_deliver] at hfound
  exact h address handle hfound

theorem receive (h : network.Placed) {handle : Handle} {after : Network}
    (hreceive : network.receive handle = (.datagram datagram, after)) : after.Placed := by
  intro target other hfound
  rw [address?_receive hreceive]
  obtain ⟨address, rest, -, rfl⟩ := receive_eq_datagram hreceive
  exact h target other hfound

end Placed

/-- What waits in an inbox was sent to its address. -/
structure Carries (network : Network) (sent : List (Address × Bytes)) : Prop where
  sent : ∀ (handle : Handle) (inbox : Inbox), network.inboxes[handle]? = some inbox →
    ∀ datagram ∈ inbox.datagrams, (inbox.address, datagram.data) ∈ sent
  attached : ∀ address handle, network.attached.find? address = some handle →
    network.address? handle = some address

namespace Carries

theorem empty : Carries {} sent where
  sent handle inbox hinbox := by
    cases hinbox
  attached := Placed.empty

theorem mono {more : List (Address × Bytes)} (h : network.Carries sent) (hmore : sent ⊆ more) :
    network.Carries more where
  sent handle inbox hinbox datagram hdatagram :=
    hmore (h.sent handle inbox hinbox datagram hdatagram)
  attached := h.attached

theorem attach (h : network.Carries sent) (address : Address) :
    (network.attach address).2.Carries sent where
  sent handle inbox hinbox datagram hdatagram := by
    simp only [Network.attach, Array.getElem?_push] at hinbox
    split at hinbox
    · cases hinbox
      cases hdatagram
    · exact h.sent handle inbox hinbox datagram hdatagram
  attached := Placed.attach h.attached address

theorem detach (h : network.Carries sent) (address : Address) :
    (network.detach address).2.Carries sent where
  sent := h.sent
  attached := Placed.detach h.attached address

theorem deliver (h : network.Carries sent) {target : Address}
    (hsent : (target, datagram.data) ∈ sent) : (network.deliver target datagram).Carries sent where
  sent handle inbox hinbox waiting hwaiting := by
    unfold Network.deliver at hinbox
    split at hinbox
    case h_2 => exact h.sent handle inbox hinbox waiting hwaiting
    case h_1 attached hattached =>
      simp only [Array.getElem?_modify] at hinbox
      split at hinbox
      case isFalse => exact h.sent handle inbox hinbox waiting hwaiting
      case isTrue hhandle =>
        subst hhandle
        obtain ⟨before, hbefore, rfl⟩ := Option.map_eq_some_iff.mp hinbox
        have haddress := h.attached target attached hattached
        rw [address?, hbefore] at haddress
        cases haddress
        unfold accept at hwaiting ⊢
        split at hwaiting
        case isTrue hroom =>
          rw [if_pos hroom]
          rcases List.mem_append.mp hwaiting with hold | hnew
          · exact h.sent attached before hbefore waiting hold
          · rw [List.mem_singleton.mp hnew]
            exact hsent
        case isFalse hfull =>
          rw [if_neg hfull]
          exact h.sent attached before hbefore waiting hwaiting
  attached := Placed.deliver h.attached target datagram

theorem receive (h : network.Carries sent) {handle : Handle} {after : Network}
    (hreceive : network.receive handle = (.datagram datagram, after)) : after.Carries sent where
  sent other inbox hother waiting hwaiting := by
    obtain ⟨address, rest, hinbox, rfl⟩ := receive_eq_datagram hreceive
    simp only [Array.getElem?_setIfInBounds] at hother
    split at hother
    case isFalse => exact h.sent other inbox hother waiting hwaiting
    case isTrue hhandle =>
      subst hhandle
      split at hother
      · cases hother
        exact h.sent handle _ hinbox waiting (List.mem_cons_of_mem _ hwaiting)
      · cases hother
  attached := Placed.receive h.attached hreceive

theorem sent_of_receive (h : network.Carries sent) {handle : Handle} {after : Network}
    (hreceive : network.receive handle = (.datagram datagram, after)) {address : Address}
    (haddress : network.address? handle = some address) : (address, datagram.data) ∈ sent := by
  obtain ⟨held, rest, hinbox, -⟩ := receive_eq_datagram hreceive
  rw [address?, hinbox] at haddress
  cases haddress
  exact h.sent handle _ hinbox datagram List.mem_cons_self

end Carries

end Network

end ReplicaRing
