import AttributeIndex.Proofs.Action
import AttributeIndex.Table.Unreliable
import Mathlib.Algebra.GroupWithZero.Nat

/-!
Tables whose calls either do what they are for or do nothing.

The laws speak of the entries of a table, of whether it is open and of how many of its calls have
failed without cause. Tables in memory obey them, and so do those with planned failures, whatever
is planned.
-/

namespace AttributeIndex

class Observed (σ : Type) where
  contents : σ → SortedMap Bytes Bytes
  isOpen : σ → Bool
  /-- The number of calls that have failed although the table was open. -/
  failures : σ → Nat
  reopen : σ → σ

namespace Observed

variable {σ : Type} [Observed σ]

structure Refused (before after : σ) : Prop where
  contents_eq : contents after = contents before
  isOpen_eq : isOpen after = isOpen before
  counted : failures after = failures before + 1 ∨
    isOpen before = false ∧ failures after = failures before

/-- A call either succeeds on an open table, where it answers and changes the entries as `does`
says, or fails and changes nothing. -/
def Obeys {α : Type} (call : Action σ IoError α)
    (does : SortedMap Bytes Bytes → α × SortedMap Bytes Bytes) : Prop :=
  ∀ store, call.Meets store
    (fun answer after => isOpen store = true ∧ isOpen after = true ∧
      failures after = failures store ∧ (answer, contents after) = does (contents store))
    (fun _ after => Refused store after)

def NeverFails (σ : Type) [Observed σ] : Prop :=
  ∀ store : σ, failures store = 0

end Observed

open Observed

class LawfulTable (σ : Type) [Table σ] extends Observed σ where
  get : ∀ key, Obeys (Table.get key : Action σ IoError _) fun entries => (entries.find? key, entries)
  put : ∀ key value,
    Obeys (Table.put key value : Action σ IoError _) fun entries => ((), entries.insert key value)
  remove : ∀ key, Obeys (Table.remove key : Action σ IoError _) fun entries =>
    (entries.contains key, entries.erase key)
  beginScan : Obeys (Table.beginScan : Action σ IoError _) fun entries => ((), entries)
  sync : Obeys (Table.sync : Action σ IoError _) fun entries => ((), entries)
  /-- A scan that has begun may go on after its table was closed. -/
  load : ∀ key (store : σ), (Table.load key : Action σ IoError _).Meets store
    (fun value after => value = ((contents store).find? key).getD [] ∧
      contents after = contents store ∧ isOpen after = isOpen store ∧
      failures after = failures store)
    (fun _ after => Refused store after)
  close : ∀ store : σ, (Table.close : Action σ IoError _).Meets store
    (fun _ after => contents after = contents store ∧ isOpen after = false ∧
      failures after = failures store)
    (fun _ after => Refused store after)
  size_eq : ∀ store : σ, Table.size store = (contents store).size
  keys_eq : ∀ store : σ, Table.keys store = (contents store).keys
  contents_reopen : ∀ store : σ, contents (reopen store) = contents store
  isOpen_reopen : ∀ store : σ, isOpen (reopen store) = true
  failures_reopen : ∀ store : σ, failures (reopen store) = failures store

namespace Observed.Refused

variable {σ : Type} [Observed σ] {before after : σ}

theorem failures_le (refused : Refused before after) : failures before ≤ failures after := by
  rcases refused.counted with counted | ⟨-, counted⟩
  · omega
  · omega

theorem failures_lt (refused : Refused before after) (opened : isOpen before = true) :
    failures before < failures after := by
  rcases refused.counted with counted | ⟨shut, -⟩
  · omega
  · simp [opened] at shut

end Observed.Refused

/-! ## Tables in memory -/

namespace Volatile

instance : Observed Volatile where
  contents := entries
  isOpen table := !table.isClosed
  failures _ := 0
  reopen table := ofEntries table.entries

variable {α : Type} {memory : Volatile}

theorem whileOpen_of_closed (shut : memory.isClosed = true)
    (work : SortedMap Bytes Bytes → α × SortedMap Bytes Bytes) :
    whileOpen work memory = (.error (.closed "memory"), memory) :=
  if_pos shut

theorem whileOpen_of_open (shut : memory.isClosed = false)
    (work : SortedMap Bytes Bytes → α × SortedMap Bytes Bytes) :
    whileOpen work memory =
      (.ok (work memory.entries).1, { memory with entries := (work memory.entries).2 }) :=
  if_neg (by simp [shut])

theorem obeys_whileOpen (work : SortedMap Bytes Bytes → α × SortedMap Bytes Bytes) :
    Obeys (whileOpen work) work := by
  intro table
  unfold Action.Meets whileOpen
  cases shut : table.isClosed with
  | true => exact ⟨rfl, rfl, .inr ⟨by simp [isOpen, shut], rfl⟩⟩
  | false => exact ⟨by simp [isOpen, shut], by simp [isOpen], rfl, rfl⟩

instance : LawfulTable Volatile where
  get _ := obeys_whileOpen _
  put _ _ := obeys_whileOpen _
  remove _ := obeys_whileOpen _
  beginScan := obeys_whileOpen _
  sync := obeys_whileOpen _
  load _ _ := ⟨rfl, rfl, rfl, rfl⟩
  close _ := ⟨rfl, rfl, rfl⟩
  size_eq _ := rfl
  keys_eq _ := rfl
  contents_reopen _ := rfl
  isOpen_reopen _ := rfl
  failures_reopen _ := rfl

theorem neverFails : NeverFails Volatile :=
  fun _ => rfl

end Volatile

/-! ## Tables with planned failures -/

def Plan.failed (plan : Plan) : Nat :=
  (List.range plan.calls).countP plan.fails

def Plans.failed (plans : Plans) : Nat :=
  (TableCall.all.map fun call => (plans.find call).failed).sum

theorem Plan.failed_advance (plan : Plan) :
    plan.advance.failed = plan.failed + if plan.failsNow then 1 else 0 := by
  rw [failed, advance, List.range_succ, List.countP_append, List.countP_singleton]
  cases planned : plan.fails plan.calls <;> simp [failed, failsNow, planned]

theorem Plans.failed_set (plans : Plans) (call : TableCall) (plan : Plan) :
    (plans.set call plan).failed + (plans.find call).failed = plans.failed + plan.failed := by
  cases call <;> simp [failed, TableCall.all, find, set] <;> omega

namespace Unreliable

instance : Observed Unreliable where
  contents store := store.table.entries
  isOpen store := !store.table.isClosed
  failures store := store.plans.failed
  reopen := reopen

variable {α : Type}

theorem failures_setPlan_advance (store : Unreliable) (call : TableCall) :
    failures (store.setPlan call (store.plans.find call).advance) =
      failures store + if (store.plans.find call).failsNow then 1 else 0 := by
  have moved := Plans.failed_set store.plans call (store.plans.find call).advance
  rw [Plan.failed_advance] at moved
  show (store.plans.set call (store.plans.find call).advance).failed = store.plans.failed + _
  omega

theorem making_of_fails {call : TableCall} {work : Action Volatile IoError α} {store : Unreliable}
    (planned : (store.plans.find call).failsNow = true) :
    making call work store =
      (.error (.failed (call.name ++ " failed: disk full")),
        store.setPlan call (store.plans.find call).advance) :=
  if_pos planned

theorem making_of_succeeds {call : TableCall} {work : Action Volatile IoError α}
    {store : Unreliable} (planned : (store.plans.find call).failsNow = false) :
    making call work store =
      ((work store.table).1,
        { store.setPlan call (store.plans.find call).advance with table := (work store.table).2 }) :=
  if_neg (by simp [planned])

theorem meets_making {call : TableCall} {work : Action Volatile IoError α} {store : Unreliable}
    {ok : α → Volatile → Prop}
    (meets : work.Meets store.table ok fun _ after => Refused store.table after) :
    (making call work).Meets store
      (fun answer after => ok answer after.table ∧ failures after = failures store)
      (fun _ after => Refused store after) := by
  have counted := failures_setPlan_advance store call
  unfold Action.Meets at *
  cases planned : (store.plans.find call).failsNow with
  | true =>
    rw [planned] at counted
    rw [making_of_fails planned]
    exact ⟨rfl, rfl, .inl counted⟩
  | false =>
    rw [planned] at counted
    rw [making_of_succeeds planned]
    cases performed : work store.table with
    | mk outcome after =>
      rw [performed] at meets
      cases outcome with
      | ok answer => exact ⟨meets, counted⟩
      | error failure =>
        refine ⟨meets.contents_eq, meets.isOpen_eq, .inr ⟨?_, counted⟩⟩
        rcases meets.counted with impossible | ⟨shut, -⟩
        · exact absurd impossible (by simp [failures])
        · exact shut

theorem obeys_making {call : TableCall} {work : Action Volatile IoError α}
    {does : SortedMap Bytes Bytes → α × SortedMap Bytes Bytes} (obeys : Obeys work does) :
    Obeys (making call work) does := by
  intro store
  refine (meets_making (obeys store.table)).mono ?_ fun _ _ refused => refused
  rintro answer after ⟨⟨opened, stays, -, done⟩, same⟩
  exact ⟨opened, stays, same, done⟩

instance : LawfulTable Unreliable where
  get key := obeys_making (LawfulTable.get key)
  put key value := obeys_making (LawfulTable.put key value)
  remove key := obeys_making (LawfulTable.remove key)
  beginScan := obeys_making LawfulTable.beginScan
  sync := obeys_making LawfulTable.sync
  load key store :=
    (meets_making (LawfulTable.load key store.table)).mono
      (fun _ _ ⟨⟨value, kept, opened, _⟩, same⟩ => ⟨value, kept, opened, same⟩)
      fun _ _ refused => refused
  close store :=
    (meets_making (LawfulTable.close store.table)).mono
      (fun _ _ ⟨⟨kept, shut, _⟩, same⟩ => ⟨kept, shut, same⟩) fun _ _ refused => refused
  size_eq _ := rfl
  keys_eq _ := rfl
  contents_reopen _ := rfl
  isOpen_reopen _ := rfl
  failures_reopen _ := rfl

end Unreliable

end AttributeIndex
