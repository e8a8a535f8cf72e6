import AttributeIndex.Proofs.Lru
import AttributeIndex.Proofs.Table.Faithful
import AttributeIndex.Table.ReadCache

namespace AttributeIndex

open AttributeIndex.Action

namespace ReadCache

inductive Step
  | ask (request : Table.Request)
  | bypass (request : Table.Request)
  deriving DecidableEq, Repr

variable {σ : Type} [Table σ]

def Step.request : Step → Table.Request
  | ask request => request
  | bypass request => request

def Step.perform : Step → Action (ReadCache σ) IoError Table.Answer
  | ask request => request.perform
  | bypass request => bypassing request.perform

variable {valid : σ → Prop} {holds : σ → Volatile} {table : ReadCache σ} {ε α : Type}

/-! ## Calls -/

omit [Table σ] in
theorem asking_apply (work : Action σ ε α) (table : ReadCache σ) :
    asking work table = ((work table.inner).1, { table with inner := (work table.inner).2 }) :=
  rfl

theorem get_of_hit {key value : Bytes} (cached : table.cache.find? key = some value) :
    get key table = (.ok (some value),
      { table with cache := table.cache.touch key, hits := table.hits + 1 }) := by
  unfold get
  rw [bind_apply]
  simp only [get_apply, cached]
  rfl

theorem get_of_miss {key : Bytes} (missed : table.cache.find? key = none) :
    get key table =
      ((Table.get key table.inner).1,
        { table with
          inner := (Table.get key table.inner).2
          cache :=
            match (Table.get key table.inner).1 with
            | .ok (some value) => table.cache.insert key value
            | _ => table.cache
          misses := table.misses + 1 }) := by
  unfold get
  rw [bind_apply]
  simp only [get_apply, missed]
  rw [bind_apply]
  simp only [modify_apply]
  rw [bind_apply, asking_apply]
  cases performed : (Table.get key : Action σ IoError (Option Bytes)) table.inner with
  | mk outcome inner =>
    cases outcome with
    | error failure => simp
    | ok value? => cases value? <;> rfl

theorem holds_get (faithful : Table.Faithful valid holds) (inner : valid table.inner)
    (key : Bytes) : holds (get key table).2.inner = holds table.inner := by
  cases cached : table.cache.find? key with
  | some value => rw [get_of_hit cached]
  | none =>
    have mirrors := faithful.get key table.inner inner
    rw [get_of_miss cached]
    cases performed : (Table.get key : Action σ IoError (Option Bytes)) table.inner with
    | mk outcome left =>
      cases outcome with
      | error failure => exact (mirrors.failed_of performed).2
      | ok value? => exact Volatile.eq_of_whileOpen (mirrors.ok_of performed).2

theorem put_eq (key value : Bytes) :
    put key value table =
      ((Table.put key value table.inner).1,
        { table with
          inner := (Table.put key value table.inner).2
          cache :=
            match (Table.put key value table.inner).1 with
            | .ok () => table.cache.insert key value
            | .error _ => table.cache }) := by
  unfold put
  rw [bind_apply, asking_apply]
  cases performed : (Table.put key value : Action σ IoError Unit) table.inner with
  | mk outcome inner => cases outcome <;> rfl

theorem perform_scan (steps : List (Cursor.Step Tuple)) :
    ((Table.Request.scan steps).perform : Action (ReadCache σ) IoError Table.Answer) =
      asking (Table.Request.scan steps).perform := by
  funext table
  let related := fun (outer : ReadCache σ) (inner : σ) => outer = { table with inner }
  have matched : Scan.Matched related := by
    refine ⟨?_, ?_⟩
    · rintro _ inner rfl
      rfl
    · rintro _ inner key rfl
      exact ⟨rfl, rfl⟩
  have begins : Agree related (Table.beginScan : Action (ReadCache σ) IoError Unit) Table.beginScan
      table table.inner := ⟨rfl, rfl⟩
  obtain ⟨same, left⟩ := Table.perform_scan_agree matched begins steps
  exact Prod.ext same left

theorem perform_agree (step : Step) (other : ∀ key, step ≠ .ask (.get key)) (table : ReadCache σ) :
    Agree (fun (outer : ReadCache σ) inner => outer.inner = inner) step.perform step.request.perform
      table table.inner := by
  have through : ∀ {α : Type} (change : α → Table.Answer) {call : Action (ReadCache σ) IoError α}
      {inner : Action σ IoError α}, (call table).1 = (inner table.inner).1 →
      (call table).2.inner = (inner table.inner).2 →
      Agree (fun outer inner => outer.inner = inner) (change <$> call) (change <$> inner)
        table table.inner :=
    fun change _ _ same left => Agree.map change ⟨same, left⟩
  cases step with
  | bypass request => exact ⟨rfl, rfl⟩
  | ask request =>
    cases request with
    | get key => exact absurd rfl (other key)
    | put key value =>
      have called : Table.put key value table = _ := put_eq key value
      exact through _ (by rw [called]) (by rw [called])
    | remove key => exact through _ rfl rfl
    | size => exact ⟨rfl, rfl⟩
    | isEmpty => exact ⟨rfl, rfl⟩
    | scan steps =>
      rw [Step.perform, perform_scan]
      exact ⟨rfl, rfl⟩
    | sync => exact through _ rfl rfl
    | close => exact through _ rfl rfl

/-! ## What is cached -/

structure Coherent (valid : σ → Prop) (holds : σ → Volatile) (table : ReadCache σ) : Prop where
  valid : valid table.inner
  held : ∀ key value, (key, value) ∈ table.cache.entries →
    (holds table.inner).entries.find? key = some value
  emptied : (holds table.inner).isClosed = true → table.cache.entries = []

namespace Coherent

omit [Table σ] in
theorem of_empty (inner : valid table.inner) (empty : table.cache.entries = []) :
    Coherent valid holds table where
  valid := inner
  held key value member := by
    rw [empty] at member
    cases member
  emptied _ := empty

variable (coherent : Coherent valid holds table)

include coherent

omit [Table σ] in
theorem shrink {after : ReadCache σ} (kept : Table.Kept valid holds table.inner after.inner)
    (fewer : after.cache.entries ⊆ table.cache.entries) : Coherent valid holds after where
  valid := kept.1
  held key value member := by
    rw [kept.2]
    exact coherent.held key value (fewer member)
  emptied shut := by
    rw [kept.2] at shut
    exact List.eq_nil_of_subset_nil (coherent.emptied shut ▸ fewer)

omit [Table σ] in
theorem grow {after : ReadCache σ} {key value : Bytes} (inner : valid after.inner)
    (opened : (holds after.inner).isClosed = false)
    (written : after.cache = table.cache.insert key value)
    (here : (holds after.inner).entries.find? key = some value)
    (elsewhere : ∀ other, other ≠ key →
      (holds after.inner).entries.find? other = (holds table.inner).entries.find? other) :
    Coherent valid holds after where
  valid := inner
  held other stored member := by
    rw [written] at member
    rcases Lru.eq_or_mem_of_mem_insert member with same | ⟨present, distinct⟩
    · cases same
      exact here
    · rw [elsewhere other distinct]
      exact coherent.held other stored present
  emptied shut := by simp [opened] at shut

omit [Table σ] in
theorem of_cached {key value : Bytes} (cached : table.cache.find? key = some value) :
    (holds table.inner).isClosed = false ∧
      (holds table.inner).entries.find? key = some value := by
  have member := Lru.mem_of_find? cached
  refine ⟨?_, coherent.held key value member⟩
  rw [← Bool.not_eq_true]
  intro shut
  rw [coherent.emptied shut] at member
  cases member

variable (faithful : Table.Faithful valid holds)

include faithful

theorem get_meets (key : Bytes) :
    (get key).Meets table
      (fun value? after => value? = (holds table.inner).entries.find? key ∧
        (holds table.inner).isClosed = false ∧ Coherent valid holds after)
      fun failure after => (Table.get key table.inner).1 = .error failure ∧
        Coherent valid holds after := by
  cases cached : table.cache.find? key with
  | some value =>
    obtain ⟨opened, held⟩ := coherent.of_cached cached
    rw [Meets, get_of_hit cached]
    exact ⟨held.symm, opened, coherent.shrink ⟨coherent.valid, rfl⟩ (Lru.touch_subset _ _)⟩
  | none =>
    have mirrors := faithful.get key table.inner coherent.valid
    rw [Meets, get_of_miss cached]
    cases performed : (Table.get key : Action σ IoError (Option Bytes)) table.inner with
    | mk outcome inner =>
      cases outcome with
      | error failure =>
        exact ⟨rfl, coherent.shrink (mirrors.failed_of performed) (List.Subset.refl _)⟩
      | ok value? =>
        obtain ⟨still, answered⟩ := mirrors.ok_of performed
        obtain ⟨opened, -, same, -⟩ := Volatile.of_whileOpen answered
        have kept : holds inner = holds table.inner := Volatile.eq_of_whileOpen answered
        refine ⟨same, opened, ?_⟩
        cases value? with
        | none => exact coherent.shrink ⟨still, kept⟩ (List.Subset.refl _)
        | some value =>
          refine coherent.grow still ?_ rfl ?_ fun other _ => ?_
          · exact kept ▸ opened
          · exact kept ▸ same.symm
          · exact congrArg (fun memory => memory.entries.find? other) kept

theorem put_meets (key value : Bytes) :
    (put key value).Meets table (fun _ => Coherent valid holds) fun _ => Coherent valid holds := by
  have mirrors := faithful.put key value table.inner coherent.valid
  rw [Meets, put_eq]
  cases performed : (Table.put key value : Action σ IoError Unit) table.inner with
  | mk outcome inner =>
    cases outcome with
    | error failure => exact coherent.shrink (mirrors.failed_of performed) (List.Subset.refl _)
    | ok done =>
      obtain ⟨still, stored⟩ := mirrors.ok_of performed
      obtain ⟨-, opened, -, entries⟩ := Volatile.of_whileOpen stored
      refine coherent.grow still opened rfl ?_ fun other distinct => ?_
      · rw [entries, SortedMap.find?_insert, if_pos rfl]
      · rw [entries, SortedMap.find?_insert, if_neg distinct]

theorem remove_meets (key : Bytes) :
    (remove key).Meets table (fun _ => Coherent valid holds) fun _ => Coherent valid holds := by
  have mirrors := faithful.remove key table.inner coherent.valid
  have called : remove key table = asking (Table.remove key)
      { table with cache := table.cache.erase key } := rfl
  rw [Meets, called, asking_apply]
  have fewer : (table.cache.erase key).entries ⊆ table.cache.entries := List.filter_sublist.subset
  cases performed : (Table.remove key : Action σ IoError Bool) table.inner with
  | mk outcome inner =>
    cases outcome with
    | error failure => exact coherent.shrink (mirrors.failed_of performed) fewer
    | ok removed =>
      obtain ⟨still, erased⟩ := mirrors.ok_of performed
      obtain ⟨-, opened, -, entries⟩ := Volatile.of_whileOpen erased
      refine ⟨still, fun other value member => ?_, fun shut => ?_⟩
      · obtain ⟨present, distinct⟩ := Lru.mem_erase.1 member
        rw [entries, SortedMap.find?_erase, if_neg distinct]
        exact coherent.held other value present
      · rw [opened] at shut
        cases shut

theorem step (step : Step) : Coherent valid holds (step.perform table).2 := by
  cases step with
  | bypass request => exact of_empty (faithful.perform coherent.valid request) rfl
  | ask request =>
    cases request with
    | get key =>
      have gets := (coherent.get_meets faithful key).mono (fun _ _ done => done.2.2)
        fun _ _ done => done.2
      exact left_map gets.left
    | put key value => exact left_map (coherent.put_meets faithful key value).left
    | remove key => exact left_map (coherent.remove_meets faithful key).left
    | size => exact coherent
    | isEmpty => exact coherent
    | scan steps =>
      rw [Step.perform, perform_scan]
      exact coherent.shrink (faithful.perform_scan coherent.valid steps) (List.Subset.refl _)
    | sync =>
      have synced := (faithful.sync.reads coherent.valid).left
      exact left_map (coherent.shrink synced (List.Subset.refl _))
    | close =>
      have closed := (faithful.close table.inner coherent.valid).mono (fun _ _ done => done.1)
        fun _ _ kept => kept.1
      exact left_map (of_empty closed.left rfl)

theorem outcomes (steps : List Step) :
    Coherent valid holds (Action.outcomes Step.perform steps table).2 := by
  induction steps generalizing table with
  | nil => exact coherent
  | cons first rest ih => exact ih (coherent.step faithful first)

end Coherent

/-- The table behind the cache is seen as it is. A read that the cache answers may succeed where the
inner table fails, but answers only what that holds. -/
structure Transparent (holds : σ → Volatile) (table : ReadCache σ) : Prop where
  cached : ∀ key value, (key, value) ∈ table.cache.entries →
    (holds table.inner).entries.find? key = some value
  get_ok : ∀ key value?, (Table.get key table).1 = .ok value? →
    value? = (holds table.inner).entries.find? key
  get_eq : ∀ key, (Table.get key table).1 = (Table.get key table.inner).1 ∨
    ∃ value failure, (Table.get key table).1 = .ok (some value) ∧
      (key, value) ∈ table.cache.entries ∧ (Table.get key table.inner).1 = .error failure
  get_inner : ∀ key, holds (Table.get key table).2.inner = holds table.inner
  closed : (holds table.inner).isClosed = true →
    ∀ key, ∃ failure, (Table.get key table).1 = .error failure
  passes : ∀ step : Step, (∀ key, step ≠ .ask (.get key)) →
    (step.perform table).1 = (step.request.perform table.inner).1 ∧
      (step.perform table).2.inner = (step.request.perform table.inner).2

theorem Coherent.transparent (coherent : Coherent valid holds table)
    (faithful : Table.Faithful valid holds) : Transparent holds table where
  cached := coherent.held
  get_ok key value? answered := by
    have gets := coherent.get_meets faithful key
    exact (gets.ok_of (Prod.ext answered rfl)).1
  get_eq key := by
    show (get key table).1 = _ ∨ ∃ value failure, (get key table).1 = _ ∧ _
    cases found : table.cache.find? key with
    | none => exact .inl (by rw [get_of_miss found])
    | some value =>
      rw [get_of_hit found]
      cases performed : (Table.get key : Action σ IoError (Option Bytes)) table.inner with
      | mk outcome inner =>
        cases outcome with
        | error failure => exact .inr ⟨value, failure, rfl, Lru.mem_of_find? found, rfl⟩
        | ok value? =>
          have mirrors := faithful.get key table.inner coherent.valid
          obtain ⟨-, -, same, -⟩ := Volatile.of_whileOpen (mirrors.ok_of performed).2
          exact .inl (by rw [same, (coherent.of_cached found).2])
  get_inner key := holds_get faithful coherent.valid key
  closed shut key := by
    cases performed : (Table.get key : Action (ReadCache σ) IoError (Option Bytes)) table with
    | mk outcome after =>
      cases outcome with
      | error failure => exact ⟨failure, rfl⟩
      | ok value? =>
        have opened := ((coherent.get_meets faithful key).ok_of performed).2.1
        simp [shut] at opened
  passes step other := perform_agree step other table

/-- Behind a cache of any size, a table whose failing calls change nothing is seen as it is after
every run, whatever has failed by then. -/
theorem transparent_after (faithful : Table.Faithful valid holds) {inner : σ} (start : valid inner)
    (capacity : Nat) (steps : List Step) :
    Transparent holds (Action.outcomes Step.perform steps (ofTable inner capacity)).2 :=
  have coherent : Coherent valid holds (ofTable inner capacity) := .of_empty start rfl
  (coherent.outcomes faithful steps).transparent faithful

theorem transparent_after_failingReads :
    let store := (Unreliable.ofEntries .empty).setPlan .get (.after 0)
    let table := (Action.outcomes Step.perform [.ask (.put [1] [7]), .bypass (.remove [2]),
      .ask (.put [3] [8]), .ask (.remove [9])] (ofTable store 1)).2
    Table.Faithful (fun _ => True) (Table.observed : Unreliable → Volatile) ∧
      Transparent Table.observed table ∧ (Table.get [3] table).1 = .ok (some [8]) ∧
      (Table.get [1] table).1 = .error (.failed "get failed: disk full") :=
  ⟨Table.faithful_of_lawful,
    transparent_after Table.faithful_of_lawful trivial 1 _, rfl, rfl⟩

end ReadCache

end AttributeIndex
