import ReplicaRing.Proofs.Fleet.Served
import ReplicaRing.Proofs.Server.Storing

/-! What changes the storages of a fleet, and what therefore stays in them. -/

namespace ReplicaRing.Fleet.Execution

open Server (Stores)

variable {Member S : Type} [DecidableEq Member] [Storage S] {e : Execution Member S}
  {time since moment : Nat} {member server asker : Member} {index : Nat} {key value : Bytes}

inductive Stock (e : Execution Member S) (time : Nat) (member : Member) : S → Prop
  | nothing : Stock e time member (e.node time member).storage
  | put (datagram : Bytes) (entry : Entry) (haction : e.schedule time = .deliver member datagram)
      (hsent : (e.address member, datagram) ∈ (e.after time).sent)
      (hstores : Stores datagram entry) :
      Stock e time member (Storage.put (e.node time member).storage entry.key entry.value).2
  | rewrite (storage : S) (haction : e.schedule time = .rewrite member storage) :
      Stock e time member storage

theorem stock_succ (e : Execution Member S) (time : Nat) (member : Member) :
    Stock e time member (e.node (time + 1) member).storage := by
  have hchange := e.node_succ time member
  generalize e.node (time + 1) member = node at hchange
  cases hchange with
  | advance index _ effects haction hadvance =>
      obtain ⟨operations, routes, rfl, -⟩ := Node.advance_frame hadvance
      exact .nothing
  | receive datagram haction hsent =>
      rw [Node.storage_receive, Node.response, Server.receive_storage_eq]
      rw [e.address_node] at hsent
      cases hwrite : Server.write? (e.node time member).host.protocol.version datagram with
      | none => exact .nothing
      | some entry => exact .put datagram entry haction hsent (.of_write? hwrite)
  | rewrite storage haction => exact .rewrite storage haction
  | _ => exact .nothing

/-- Every put of the key that is delivered from some moment on has this value. -/
def OnlyPuts (e : Execution Member S) (since : Nat) (key value : Bytes) : Prop :=
  ∀ time server datagram other, since ≤ time → e.schedule time = .deliver server datagram →
    (e.address server, datagram) ∈ (e.after time).sent →
    Stores datagram { key, value := other } → other = value

/-- What is written outside the protocol takes no entry away. -/
def KeepsEntries (e : Execution Member S) : Prop :=
  ∀ time member storage key held, e.schedule time = .rewrite member storage →
    e.Holds time member key (some held) → Storage.get storage key = .ok (some held)

theorem Holds.eq {held other : Option Bytes} (h : e.Holds time member key held)
    (hother : e.Holds time member key other) : held = other :=
  Except.ok.inj (h.symm.trans hother)

variable [LawfulStorage S]

private theorem Holds.succ (h : e.Holds time member key (some value)) (hkept : e.KeepsEntries)
    (honly : e.OnlyPuts since key value) (hsince : since ≤ time) :
    e.Holds (time + 1) member key (some value) := by
  have hstock := e.stock_succ time member
  unfold Holds
  generalize (e.node (time + 1) member).storage = storage at hstock
  cases hstock with
  | nothing => exact h
  | put datagram entry haction hsent hstores =>
      obtain ⟨entryKey, entryValue⟩ := entry
      cases hput : Storage.put (e.node time member).storage entryKey entryValue with
      | mk result after =>
          by_cases hkey : key = entryKey
          · subst hkey
            obtain rfl : entryValue = value :=
              honly time member datagram entryValue hsince haction hsent hstores
            cases result with
            | ok => exact LawfulStorage.get_put hput
            | error error => exact (LawfulStorage.get_put_error hput).trans h
          · exact (LawfulStorage.get_put_of_ne hput hkey).trans h
  | rewrite storage haction => exact hkept time member storage key value haction h

theorem Holds.mono {later : Nat} (h : e.Holds time member key (some value))
    (hkept : e.KeepsEntries) (honly : e.OnlyPuts since key value) (hsince : since ≤ time)
    (hle : time ≤ later) : e.Holds later member key (some value) := by
  induction hle with
  | refl => exact h
  | step hle ih => exact ih.succ hkept honly (Nat.le_trans hsince hle)

theorem Puts.holds (h : e.Puts moment server asker index key value) :
    e.Holds (moment + 1) server key (some value) :=
  LawfulStorage.get_put h.done

end ReplicaRing.Fleet.Execution
