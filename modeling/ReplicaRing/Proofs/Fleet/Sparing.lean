import ReplicaRing.Proofs.Fleet.Persistence
import ReplicaRing.Proofs.Fleet.Turns

/-! What clients find in the storages, and leave there, when nobody else writes under their keys. -/

namespace ReplicaRing.Fleet.Execution

open Server (Stores)

variable {Member S : Type} [DecidableEq Member] [Storage S] {e : Execution Member S}
  {time later since caller : Nat} {client : Caller Member} {member server : Member} {index : Nat}
  {key value : Bytes}

/-- Until a client has its answer, the puts of a key that arrive are those of its own operations, and
nothing is done to the key outside the protocol. -/
structure Spares (e : Execution Member S) (since : Nat) (key : Bytes) (caller : Nat) : Prop where
  puts : ∀ time server datagram value, since ≤ time → e.Going time caller →
    e.schedule time = .deliver server datagram →
    (e.address server, datagram) ∈ (e.after time).sent → Stores datagram { key, value } →
    ∃ member index message, e.Made time caller member index ∧
      Message.decode datagram = .ok message ∧ e.Asked time member index message
  rewrites : ∀ time server storage, since ≤ time → e.Going time caller →
    e.schedule time = .rewrite server storage →
    Storage.get storage key = Storage.get (e.node time server).storage key

def Writes (e : Execution Member S) (time caller : Nat) (key value : Bytes) : Prop :=
  ∃ member index operation level, e.Made time caller member index ∧
    e.operation? time member index = some operation ∧
    operation.request? = some (.store key value level)

private theorem ended_mono (h : (e.after time).callers[caller]? = some client)
    (hended : client.session.result? ≠ none) (hle : time ≤ later) :
    (e.after later).callers[caller]? = some client := by
  induction hle with
  | refl => exact h
  | @step later _ ih =>
      rcases caller_succ_of_some ih with ⟨hsame, -⟩ | ⟨-, hafter⟩
      · exact hsame
      · rcases e.ready_or_waits later client.member client.session with ⟨program, hready⟩ | hwaits
        · exact absurd hready.result? hended
        · rw [hafter, hwaits]
          obtain ⟨hlt, -⟩ := List.getElem?_eq_some_iff.mp ih
          exact List.getElem?_set_self hlt

theorem Going.anti (h : e.Going later caller) (hle : time ≤ later) : e.Going time caller := by
  intro client hclient
  by_contra hended
  exact hended (h client (ended_mono hclient hended hle))

namespace Spares

theorem mono (h : e.Spares since key caller) (hle : since ≤ later) : e.Spares later key caller where
  puts time server datagram value hlater := h.puts time server datagram value (Nat.le_trans hle hlater)
  rewrites time server storage hlater := h.rewrites time server storage (Nat.le_trans hle hlater)

variable [LawfulStorage S] (h : e.Spares since key caller)

include h

private theorem get_succ (hle : since ≤ time) (hgoing : e.Going time caller) (server : Member) :
    Storage.get (e.node (time + 1) server).storage key =
        Storage.get (e.node time server).storage key ∨
      ∃ value, e.Writes time caller key value ∧ e.Holds (time + 1) server key (some value) := by
  have hstock := e.stock_succ time server
  unfold Holds
  generalize (e.node (time + 1) server).storage = storage at hstock
  cases hstock with
  | nothing => exact .inl rfl
  | rewrite storage haction => exact .inl (h.rewrites time server storage hle hgoing haction)
  | put datagram entry haction hsent hstores =>
      obtain ⟨entryKey, value⟩ := entry
      cases hput : Storage.put (e.node time server).storage entryKey value with
      | mk result after =>
          by_cases hkey : key = entryKey
          case neg => exact .inl (LawfulStorage.get_put_of_ne hput hkey)
          case pos =>
            subst hkey
            cases result with
            | error error => exact .inl (LawfulStorage.get_put_error hput)
            | ok =>
                refine .inr ⟨value, ?_, LawfulStorage.get_put hput⟩
                obtain ⟨member, index, message, hmade, hdecode, operation, hoperation, hrequests⟩ :=
                  h.puts time server datagram value hle hgoing haction hsent hstores
                obtain ⟨other, hother, hrole, hentry⟩ := hstores
                rw [hdecode] at hother
                cases hother
                have hcontent := hrequests.content
                cases operation with
                | ping target id run => cases hrole.symm.trans hcontent
                | replication request id run =>
                    obtain ⟨-, hasked, hpayload⟩ := hcontent
                    rw [hentry] at hpayload
                    cases request with
                    | load => cases hrole.symm.trans hasked
                    | store asked held level =>
                        cases hpayload
                        exact ⟨member, index, _, level, hmade, hoperation, rfl⟩

theorem get_eq (hle : since ≤ time) (hgoing : ∀ moment, moment < time → e.Going moment caller)
    (hwrites : ∀ moment value, moment < time → ¬e.Writes moment caller key value)
    (server : Member) :
    Storage.get (e.node time server).storage key =
      Storage.get (e.node since server).storage key := by
  induction hle with
  | refl => rfl
  | @step time hle ih =>
      rcases h.get_succ hle (hgoing time (Nat.lt_succ_self time)) server with
        hsame | ⟨value, hvalue, -⟩
      · rw [hsame]
        exact ih (fun moment hlt => hgoing moment (Nat.lt_succ_of_lt hlt))
          fun moment value hlt => hwrites moment value (Nat.lt_succ_of_lt hlt)
      · exact absurd hvalue (hwrites time value (Nat.lt_succ_self time))

theorem holds_of_writes (hheld : e.Holds since server key (some value)) (hle : since ≤ time)
    (hgoing : ∀ moment, moment < time → e.Going moment caller)
    (hwrites : ∀ moment other, moment < time → e.Writes moment caller key other → other = value) :
    e.Holds time server key (some value) := by
  induction hle with
  | refl => exact hheld
  | @step time hle ih =>
      rcases h.get_succ hle (hgoing time (Nat.lt_succ_self time)) server with
        hsame | ⟨other, hother, hholds⟩
      · exact hsame.trans (ih (fun moment hlt => hgoing moment (Nat.lt_succ_of_lt hlt))
          fun moment other hlt => hwrites moment other (Nat.lt_succ_of_lt hlt))
      · rwa [hwrites time other (Nat.lt_succ_self time) hother] at hholds

end Spares

end ReplicaRing.Fleet.Execution
