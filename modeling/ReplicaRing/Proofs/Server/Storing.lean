import Mathlib.Logic.Function.Basic
import ReplicaRing.Proofs.Server.Answers

/-! What becomes of a storage in the hands of a server. -/

namespace ReplicaRing

/-- A put that succeeds sets its key and leaves the others; one that fails leaves them all. -/
class LawfulStorage (S : Type) [Storage S] : Prop where
  get_put : ∀ {storage after : S} {key value : Bytes},
    Storage.put storage key value = (.ok (), after) →
      Storage.get after key = .ok (some value)
  get_put_of_ne : ∀ {storage after : S} {key value other : Bytes} {result},
    Storage.put storage key value = (result, after) → other ≠ key →
      Storage.get after other = Storage.get storage other
  get_put_error : ∀ {storage after : S} {key value : Bytes} {error : StorageError},
    Storage.put storage key value = (.error error, after) →
      Storage.get after key = Storage.get storage key

instance : LawfulStorage MemoryStore where
  get_put h := by
    cases h
    exact congrArg Except.ok ((Table.find?_insert _ _ _ _).trans (if_pos rfl))
  get_put_of_ne h hne := by
    cases h
    exact congrArg Except.ok ((Table.find?_insert _ _ _ _).trans (if_neg hne))
  get_put_error h := by cases h

instance : LawfulStorage PoisonedStore where
  get_put h := by cases h
  get_put_of_ne h _ := by
    cases h
    rfl
  get_put_error h := by
    cases h
    rfl

namespace Storage

variable {S : Type} [Storage S] {storage : S}

structure Works (storage : S) : Prop where
  reads : ∀ key, ∃ held, Storage.get storage key = .ok held
  writes : ∀ key value, ∃ after, Storage.put storage key value = (.ok (), after)

def write (storage : S) (entry : Entry) : S := (Storage.put storage entry.key entry.value).2

def Lasts (storage : S) : Prop := ∀ entries : List Entry, Works (entries.foldl write storage)

def Holds (storage : S) (held : Bytes → Option Bytes) : Prop :=
  ∀ key, Storage.get storage key = .ok (held key)

theorem Works.exists_holds (h : Works storage) : ∃ held, Holds storage held :=
  Classical.skolem.mp h.reads

theorem Lasts.works (h : Lasts storage) : Works storage := h []

private theorem Lasts.write (h : Lasts storage) (entry : Entry) : Lasts
    (Storage.write storage entry) :=
  fun entries => h (entry :: entries)

end Storage

theorem MemoryStore.works (storage : MemoryStore) : Storage.Works storage where
  reads key := ⟨storage.find? key, rfl⟩
  writes key value := ⟨storage.insert key value, rfl⟩

theorem MemoryStore.lasts (storage : MemoryStore) : Storage.Lasts storage :=
  fun _ => MemoryStore.works _

def Entry.record (held : Bytes → Option Bytes) (entry : Entry) : Bytes → Option Bytes :=
  Function.update held entry.key (some entry.value)

namespace Storage

variable {S : Type} [Storage S] [LawfulStorage S] {storage : S} {held : Bytes → Option Bytes}

private theorem Holds.write (h : Holds storage held) (hworks : Works storage) (entry : Entry) :
    Holds (Storage.write storage entry) (entry.record held) := by
  obtain ⟨after, hput⟩ := hworks.writes entry.key entry.value
  rw [Storage.write, hput]
  intro key
  by_cases hkey : key = entry.key
  · subst hkey
    rw [Entry.record, Function.update_self]
    exact LawfulStorage.get_put hput
  · rw [Entry.record, Function.update_of_ne hkey]
    exact (LawfulStorage.get_put_of_ne hput hkey).trans (h key)

theorem Holds.foldl_write (h : Holds storage held) (hlasts : Lasts storage)
    (entries : List Entry) :
    Holds (entries.foldl Storage.write storage) (entries.foldl Entry.record held) := by
  induction entries generalizing storage held with
  | nil => exact h
  | cons entry rest ih => exact ih (h.write hlasts.works entry) (hlasts.write entry)

theorem get_write_of_error {entry : Entry} {error : StorageError}
    (h : (Storage.put storage entry.key entry.value).1 = .error error) (key : Bytes) :
    Storage.get (Storage.write storage entry) key = Storage.get storage key := by
  have hput : Storage.put storage entry.key entry.value =
      (.error error, Storage.write storage entry) := Prod.ext h rfl
  by_cases hkey : key = entry.key
  · subst hkey
    exact LawfulStorage.get_put_error hput
  · exact LawfulStorage.get_put_of_ne hput hkey

end Storage

namespace Server

variable {S : Type} [Storage S] {host : Host} {roster : Roster} {storage : S} {version : UInt8}
  {datagram : Bytes} {entry : Entry}

/-- The datagram asks for a put of an entry. -/
def Stores (datagram : Bytes) (entry : Entry) : Prop :=
  ∃ message, Message.decode datagram = .ok message ∧ message.role = .put ∧
    Entry.decode message.payload = .ok entry

def write? (version : UInt8) (datagram : Bytes) : Option Entry :=
  match Message.decode datagram with
  | .error _ => none
  | .ok message =>
      if message.version = version ∧ message.topic = .store ∧ message.verb = Verb.put then
        (Entry.decode message.payload).toOption
      else none

private theorem write?_of_decode {message : Message}
    (hdecode : Message.decode datagram = .ok message)
    (hversion : message.version = version) (hrole : message.role = .put) :
    write? version datagram = (Entry.decode message.payload).toOption := by
  rw [write?, hdecode]
  exact if_pos ⟨hversion, (Message.role_eq_iff rfl rfl).mp hrole⟩

private theorem write?_of_ne_put {message : Message}
    (hdecode : Message.decode datagram = .ok message)
    (hrole : message.role ≠ .put) : write? version datagram = none := by
  rw [write?, hdecode]
  exact if_neg fun h => hrole ((Message.role_eq_iff rfl rfl).mpr h.2)

theorem write?_eq_some (h : write? version datagram = some entry) :
    ∃ message, Message.decode datagram = .ok message ∧ message.version = version ∧
      message.role = .put ∧ Entry.decode message.payload = .ok entry := by
  unfold write? at h
  split at h
  · cases h
  case _ message hdecode =>
    split at h
    case isFalse => cases h
    case isTrue hput =>
      refine ⟨message, hdecode, hput.1, (Message.role_eq_iff rfl rfl).mpr hput.2, ?_⟩
      cases hentry : Entry.decode message.payload with
      | error error =>
          rw [hentry] at h
          cases h
      | ok decoded =>
          rw [hentry] at h
          cases h
          rfl

/-- A server writes what is put, and nothing else. -/
theorem receive_storage_eq (host : Host) (roster : Roster) (storage : S) (datagram : Bytes) :
    (receive host roster storage datagram).storage =
      (write? host.protocol.version datagram).elim storage (Storage.write storage) := by
  unfold receive
  split
  case h_1 hdecode => simp only [write?, hdecode, Option.elim_none]
  case h_2 message hdecode =>
    split
    case isFalse hversion =>
      simp only [write?, hdecode, if_neg fun h => hversion (And.left h), Option.elim_none]
    case isTrue hversion =>
      unfold handle
      split
      case h_4 hrole =>
        rw [write?_of_decode hdecode hversion hrole]
        change (put host storage message).2 = _
        unfold put
        cases hentry : Entry.decode message.payload with
        | error error => rfl
        | ok entry =>
            cases hput : Storage.put storage entry.key entry.value with
            | mk result after => cases result <;> simp [hput, Storage.write, Except.toOption]
      all_goals
        rename_i hrole
        rw [write?_of_ne_put hdecode (by simp [hrole])]
        rfl

theorem Stores.of_write? (h : write? version datagram = some entry) : Stores datagram entry := by
  obtain ⟨message, hdecode, -, hrole, hentry⟩ := write?_eq_some h
  exact ⟨message, hdecode, hrole, hentry⟩

end Server

end ReplicaRing
