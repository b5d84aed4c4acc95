/-! Finite maps as lists of pairs with distinct keys. -/

namespace ReplicaRing

structure Table (Key Value : Type) where
  entries : List (Key × Value)
  distinct : entries.Pairwise fun a b => a.1 ≠ b.1

namespace Table

variable {Key Value : Type}

def empty : Table Key Value := ⟨[], .nil⟩

instance : EmptyCollection (Table Key Value) := ⟨empty⟩

instance : Inhabited (Table Key Value) := ⟨empty⟩

def size (table : Table Key Value) : Nat := table.entries.length

def isEmpty (table : Table Key Value) : Bool := table.entries.isEmpty

variable [DecidableEq Key]

def find? (table : Table Key Value) (key : Key) : Option Value :=
  (table.entries.find? fun entry => entry.1 = key).map Prod.snd

def contains (table : Table Key Value) (key : Key) : Bool := (table.find? key).isSome

def erase (table : Table Key Value) (key : Key) : Table Key Value :=
  ⟨table.entries.filter fun entry => entry.1 ≠ key, table.distinct.filter _⟩

def insert (table : Table Key Value) (key : Key) (value : Value) : Table Key Value :=
  ⟨(key, value) :: (table.erase key).entries, by
    refine List.pairwise_cons.mpr ⟨fun entry hentry => ?_, (table.erase key).distinct⟩
    simp only [erase, List.mem_filter, decide_eq_true_eq] at hentry
    exact hentry.2.symm⟩

@[simp] theorem find?_empty (key : Key) : (empty : Table Key Value).find? key = none := rfl

theorem find?_erase (table : Table Key Value) (key other : Key) :
    (table.erase key).find? other = if other = key then none else table.find? other := by
  obtain ⟨entries, distinct⟩ := table
  simp only [find?, erase]
  clear distinct
  induction entries with
  | nil => simp
  | cons entry rest ih => grind

theorem find?_insert (table : Table Key Value) (key other : Key) (value : Value) :
    (table.insert key value).find? other =
      if other = key then some value else table.find? other := by
  by_cases h : other = key
  · subst h
    simp [find?, insert]
  · have := find?_erase table key other
    simp only [h, if_false] at this ⊢
    rw [← this]
    simp [find?, insert, Ne.symm h]

end Table

end ReplicaRing
