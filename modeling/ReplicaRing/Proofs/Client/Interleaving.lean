import Mathlib.Logic.Function.Basic
import ReplicaRing.Client

/-!
Two users of a service that keeps what is stored.  The service answers one access after the other, of
either user; how a load is answered is known only as far as what is held under the key.  Users that have
no key in common do not notice each other.
-/

namespace ReplicaRing

abbrev Holdings := Bytes → Option Bytes

namespace Access

def key : Access → Bytes
  | load key _ | store key _ _ => key

def apply (held : Holdings) : Access → Holdings
  | load .. => held
  | store key value _ => Function.update held key (some value)

/-- How the service may answer. -/
inductive Admits (held : Holdings) : (access : Access) → access.Result → Prop
  | found {key value : Bytes} {level : Level} {state : Replication.State}
      (hheld : held key = some value) (hvalue : state.value? = some value) :
      Admits held (load key level) state
  | missing {key : Bytes} {level : Level} {state : Replication.State}
      (hheld : held key = none) (hnacked : state.isAllNacked = true) :
      Admits held (load key level) state
  | stored {key value : Bytes} {level : Level} {outcome : Outcome}
      (hack : outcome.isAcknowledged = true) :
      Admits held (store key value level) outcome

variable {held other : Holdings} {access : Access} {accesses : List Access}

private theorem exists_admits (held : Holdings) (access : Access) :
    ∃ answer, Admits held access answer := by
  cases access with
  | load key level =>
      cases hheld : held key with
      | none => exact ⟨(.failure 1 1 : Replication.State), .missing hheld rfl⟩
      | some value => exact ⟨(.success (.found value) : Replication.State), .found hheld rfl⟩
  | store key value level => exact ⟨Outcome.success, .stored rfl⟩

private theorem Admits.congr {answer : access.Result} (h : Admits held access answer)
    (hsame : other access.key = held access.key) : Admits other access answer := by
  cases h with
  | found hheld hvalue => exact .found (hsame.trans hheld) hvalue
  | missing hheld hnacked => exact .missing (hsame.trans hheld) hnacked
  | stored hack => exact .stored hack

theorem apply_of_ne (held : Holdings) (access : Access) {key : Bytes} (h : key ≠ access.key) :
    access.apply held key = held key := by
  cases access with
  | load => rfl
  | store => exact Function.update_of_ne h _ _

private theorem apply_congr {key : Bytes} (access : Access) (h : other key = held key) :
    access.apply other key = access.apply held key := by
  cases access with
  | load => exact h
  | store stored value level =>
      by_cases hkey : key = stored
      · subst hkey
        rw [apply, apply, Function.update_self, Function.update_self]
      · rw [apply_of_ne other _ hkey, apply_of_ne held _ hkey, h]

private theorem apply_comm (held : Holdings) {first second : Access} (h : first.key ≠ second.key) :
    second.apply (first.apply held) = first.apply (second.apply held) := by
  cases first with
  | load => rfl
  | store =>
      cases second with
      | load => rfl
      | store => exact Function.update_comm h _ _ held

def applyAll (held : Holdings) (accesses : List Access) : Holdings :=
  accesses.foldl (fun held access => access.apply held) held

private theorem applyAll_append (held : Holdings) (accesses more : List Access) :
    applyAll held (accesses ++ more) = applyAll (applyAll held accesses) more :=
  List.foldl_append

theorem applyAll_of_forall_ne {key : Bytes} (h : ∀ access ∈ accesses, key ≠ access.key) :
    applyAll held accesses key = held key := by
  induction accesses generalizing held with
  | nil => rfl
  | cons first rest ih =>
      rw [List.forall_mem_cons] at h
      exact (ih h.2).trans (apply_of_ne held first h.1)

private theorem applyAll_apply_comm (held : Holdings)
    (h : ∀ other ∈ accesses, other.key ≠ access.key) :
    applyAll (access.apply held) accesses = access.apply (applyAll held accesses) := by
  induction accesses generalizing held with
  | nil => rfl
  | cons first rest ih =>
      rw [List.forall_mem_cons] at h
      calc applyAll (access.apply held) (first :: rest)
          = applyAll (first.apply (access.apply held)) rest := rfl
        _ = applyAll (access.apply (first.apply held)) rest := by rw [apply_comm held h.1]
        _ = access.apply (applyAll held (first :: rest)) := ih (first.apply held) h.2

/-- No access of the one is to a key of the other. -/
def Apart (accesses others : List Access) : Prop :=
  ∀ access ∈ accesses, ∀ other ∈ others, access.key ≠ other.key

theorem Apart.symm {others : List Access} (h : Apart accesses others) : Apart others accesses :=
  fun access haccess other hother => (h other hother access haccess).symm

private theorem Apart.head {others : List Access} (h : Apart (access :: accesses) others) :
    ∀ other ∈ others, other.key ≠ access.key :=
  fun other hother => (h access List.mem_cons_self other hother).symm

private theorem Apart.tail {others : List Access} (h : Apart (access :: accesses) others) :
    Apart accesses others :=
  fun first hmem => h first (List.mem_cons_of_mem _ hmem)

theorem applyAll_comm {others : List Access} (held : Holdings) (h : Apart accesses others) :
    applyAll held (accesses ++ others) = applyAll held (others ++ accesses) := by
  induction others generalizing held with
  | nil => rw [List.append_nil, List.nil_append]
  | cons first rest ih =>
      have hrest : Apart accesses rest := h.symm.tail.symm
      calc applyAll held (accesses ++ first :: rest)
          = applyAll (first.apply (applyAll held accesses)) rest := applyAll_append _ _ _
        _ = applyAll (applyAll (first.apply held) accesses) rest := by
            rw [applyAll_apply_comm held h.symm.head]
        _ = applyAll (first.apply held) (accesses ++ rest) := (applyAll_append _ _ _).symm
        _ = applyAll held (first :: rest ++ accesses) := ih (first.apply held) hrest

end Access

open Access (Admits Apart applyAll)

variable {Result First Second : Type} {held other : Holdings} {accesses : List Access}

inductive Carries : Accesses Result → Holdings → Result → Holdings → Prop
  | done (result : Result) (held : Holdings) : Carries (.done result) held result held
  | ask {access : Access} {next : access.Result → Accesses Result} {held after : Holdings}
      {result : Result} (answer : access.Result) (hadmits : Admits held access answer)
      (hrest : Carries (next answer) (access.apply held) result after) :
      Carries (.ask access next) held result after

/-- Two programs side by side, as far as they have been carried out, and what the service holds. -/
structure Duet (First Second : Type) where
  first : Accesses First
  second : Accesses Second
  held : Holdings

namespace Duet

inductive Step : Duet First Second → Duet First Second → Prop
  | first {access : Access} {next : access.Result → Accesses First} {second : Accesses Second}
      {held : Holdings} (answer : access.Result) (hadmits : Admits held access answer) :
      Step ⟨.ask access next, second, held⟩ ⟨next answer, second, access.apply held⟩
  | second {first : Accesses First} {access : Access} {next : access.Result → Accesses Second}
      {held : Holdings} (answer : access.Result) (hadmits : Admits held access answer) :
      Step ⟨first, .ask access next, held⟩ ⟨first, next answer, access.apply held⟩

inductive Runs : Nat → Duet First Second → Duet First Second → Prop
  | refl (duet : Duet First Second) : Runs 0 duet duet
  | step {count : Nat} {start middle reached : Duet First Second} (hrun : Runs count start middle)
      (hstep : Step middle reached) : Runs (count + 1) start reached

end Duet

/-- Whatever is answered, the program asks for these accesses, one after the other, and has the result. -/
inductive Follows : Holdings → List Access → Accesses Result → Result → Prop
  | done (held : Holdings) (result : Result) : Follows held [] (.done result) result
  | ask {held : Holdings} {access : Access} {accesses : List Access}
      {next : access.Result → Accesses Result} {result : Result}
      (hrest : ∀ answer, Admits held access answer →
        Follows (access.apply held) accesses (next answer) result) :
      Follows held (access :: accesses) (.ask access next) result

namespace Follows

variable {program : Accesses Result} {result : Result}

private theorem congr (h : Follows held accesses program result)
    (hsame : ∀ access ∈ accesses, other access.key = held access.key) :
    Follows other accesses program result := by
  induction h generalizing other with
  | done held result => exact .done other result
  | @ask held access accesses next result _ ih =>
      rw [List.forall_mem_cons] at hsame
      refine .ask fun answer hadmits => ih answer (hadmits.congr hsame.1.symm) ?_
      intro later hlater
      exact Access.apply_congr access (hsame.2 later hlater)

private theorem apply_of_ne (h : Follows held accesses program result) {access : Access}
    (hne : ∀ other ∈ accesses, other.key ≠ access.key) :
    Follows (access.apply held) accesses program result :=
  h.congr fun other hother => Access.apply_of_ne held access (hne other hother)

private theorem applyAll_of_apart (h : Follows held accesses program result) {others : List Access}
    (hapart : Apart accesses others) : Follows (applyAll held others) accesses program result :=
  h.congr fun access haccess => Access.applyAll_of_forall_ne (hapart access haccess)

private theorem carries_iff (h : Follows held accesses program result) {reached : Result}
    {after : Holdings} :
    Carries program held reached after ↔ reached = result ∧ after = applyAll held accesses := by
  induction h with
  | done held result =>
      constructor
      · intro hcarries
        cases hcarries with
        | done => exact ⟨rfl, rfl⟩
      · rintro ⟨rfl, rfl⟩
        exact .done _ _
  | @ask held access accesses next result _ ih =>
      constructor
      · intro hcarries
        cases hcarries with
        | ask answer hadmits hrest => exact (ih answer hadmits).mp hrest
      · intro hreached
        obtain ⟨answer, hadmits⟩ := Access.exists_admits held access
        exact .ask answer hadmits ((ih answer hadmits).mpr hreached)

end Follows

def InTurn (first : Accesses First) (second : Accesses Second) (held : Holdings)
    (results : First × Second) (after : Holdings) : Prop :=
  ∃ middle, Carries first held results.1 middle ∧ Carries second middle results.2 after

theorem inTurn_iff {first : Accesses First} {second : Accesses Second} {firsts seconds : List Access}
    {one : First} {two : Second} {results : First × Second} {after : Holdings}
    (hfirst : Follows held firsts first one) (hsecond : Follows held seconds second two)
    (hapart : Apart firsts seconds) :
    InTurn first second held results after ↔
      results = (one, two) ∧ after = applyAll held (firsts ++ seconds) := by
  have hlater := hsecond.applyAll_of_apart hapart.symm
  rw [Access.applyAll_append]
  constructor
  · rintro ⟨middle, hone, hother⟩
    obtain ⟨hleft, rfl⟩ := hfirst.carries_iff.mp hone
    obtain ⟨hright, rfl⟩ := hlater.carries_iff.mp hother
    exact ⟨Prod.ext hleft hright, rfl⟩
  · rintro ⟨rfl, rfl⟩
    exact ⟨_, hfirst.carries_iff.mpr ⟨rfl, rfl⟩, hlater.carries_iff.mpr ⟨rfl, rfl⟩⟩

namespace Duet

/-- Each program has accesses of its own to go, so many together, and these lead to the goal. -/
inductive Heads (results : First × Second) (goal : Holdings) : Nat → Duet First Second → Prop
  | intro {first : Accesses First} {second : Accesses Second} {held : Holdings}
      {firsts seconds : List Access}
      (hfirst : Follows held firsts first results.1)
      (hsecond : Follows held seconds second results.2) (hapart : Apart firsts seconds)
      (hgoal : applyAll held (firsts ++ seconds) = goal) :
      Heads results goal (firsts.length + seconds.length) ⟨first, second, held⟩

variable {results : First × Second} {goal : Holdings} {todo count : Nat}
  {duet start next reached : Duet First Second}

private theorem Heads.step (h : Heads results goal todo duet) (hstep : Step duet next) :
    ∃ left, todo = left + 1 ∧ Heads results goal left next := by
  cases h with
  | @intro first second held firsts seconds hfirst hsecond hapart hgoal =>
      cases hstep with
      | @first access _ _ _ answer hadmits =>
          cases hfirst with
          | @ask _ _ firsts _ _ hrest =>
              exact ⟨firsts.length + seconds.length, by rw [List.length_cons]; omega,
                .intro (hrest answer hadmits) (hsecond.apply_of_ne hapart.head) hapart.tail hgoal⟩
      | @second _ access _ _ answer hadmits =>
          cases hsecond with
          | @ask _ _ seconds _ _ hrest =>
              have hothers : ∀ first ∈ firsts, first.key ≠ access.key := hapart.symm.head
              refine ⟨firsts.length + seconds.length, rfl,
                .intro (hfirst.apply_of_ne hothers) (hrest answer hadmits) hapart.symm.tail.symm ?_⟩
              -- The goal has the accesses of the first program in front: this one is moved past them.
              calc applyAll (access.apply held) (firsts ++ seconds)
                  = applyAll (applyAll (access.apply held) firsts) seconds :=
                    Access.applyAll_append _ _ _
                _ = applyAll (applyAll held firsts) (access :: seconds) := by
                    rw [Access.applyAll_apply_comm held hothers]
                    rfl
                _ = applyAll held (firsts ++ access :: seconds) :=
                    (Access.applyAll_append _ _ _).symm
                _ = goal := hgoal

theorem Heads.runs (h : Heads results goal todo start) (hrun : Runs count start reached) :
    ∃ left, todo = left + count ∧ Heads results goal left reached := by
  induction hrun with
  | refl start => exact ⟨todo, rfl, h⟩
  | step _ hstep ih =>
      obtain ⟨left, htodo, hheads⟩ := ih h
      obtain ⟨less, hleft, hnext⟩ := hheads.step hstep
      exact ⟨less, by omega, hnext⟩

theorem Heads.exists_step (h : Heads results goal todo duet) (htodo : 0 < todo) :
    ∃ next, Step duet next := by
  cases h with
  | @intro first second held firsts seconds hfirst hsecond _ _ =>
      cases hfirst with
      | @ask _ access _ _ _ _ =>
          obtain ⟨answer, hadmits⟩ := Access.exists_admits held access
          exact ⟨_, .first answer hadmits⟩
      | done =>
          cases hsecond with
          | done => exact absurd htodo (Nat.lt_irrefl 0)
          | @ask _ access _ _ _ _ =>
              obtain ⟨answer, hadmits⟩ := Access.exists_admits held access
              exact ⟨_, .second answer hadmits⟩

theorem Heads.eq_of_zero (h : Heads results goal 0 duet) :
    duet = ⟨.done results.1, .done results.2, goal⟩ := by
  generalize hnone : 0 = todo at h
  cases h with
  | intro hfirst hsecond _ hgoal =>
      cases hfirst with
      | ask => exact absurd hnone (by rw [List.length_cons]; omega)
      | done =>
          cases hsecond with
          | ask => exact absurd hnone (by rw [List.length_cons]; omega)
          | done =>
              cases hgoal
              rfl

end Duet

end ReplicaRing
