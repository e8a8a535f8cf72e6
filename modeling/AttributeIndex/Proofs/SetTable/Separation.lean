import AttributeIndex.Proofs.SetTable.Life

namespace AttributeIndex

open Observed

def Request.changes? {D : Type} : Request D → Option Bytes
  | .put key _ | .remove key _ | .take key => some key
  | _ => none

theorem SetMap.find?_after {D : Type} [Ord D] {map : SetMap D} {request : Request D} {key : Bytes}
    (other : request.changes? ≠ some key) : (map.after request).find? key = map.find? key := by
  cases reading : request.isReading with
  | true => rw [SetMap.after_of_isReading reading]
  | false =>
    have stored : ∀ changed set, changed ≠ key → (map.store changed set).find? key = map.find? key :=
      fun changed set different => (find?_store map changed key set).trans (if_neg (Ne.symm different))
    cases request with
    | put changed element => exact stored changed _ fun same => other (congrArg some same)
    | remove changed element => exact stored changed _ fun same => other (congrArg some same)
    | take changed => exact stored changed _ fun same => other (congrArg some same)
    | _ => cases reading

namespace SetTable

open Layout Stores

variable {σ D : Type} [Ord D] [Std.TransOrd D] [Table σ] [LawfulTable σ] {codec : Codec D}
  {map : SetMap D} {ids : Nat} {table : SetTable σ D} {stores : Stores σ} {holding : Holding σ D}

omit [Std.TransOrd D] in
theorem Keeps.separate (keeps : Keeps codec ids holding) {key other : Bytes} {id : UInt64}
    (first : holding.stores.Redirects key id) (second : holding.stores.Redirects other id) :
    key = other := by
  cases keeps with
  | dropped hold =>
    have same := hold.rests.slots_eq
    exact hold.rests.coherent.distinct key other id (leads_iff.2 (same ▸ first))
      (leads_iff.2 (same ▸ second))
  | opened models fitted =>
    exact models.coherent.distinct key other id (leads_iff.2 first) (leads_iff.2 second)

theorem perform_beside (request : Request D) (models : Models codec map ids table.layout)
    (room : ids + 1 < 2 ^ 64) :
    ∃ next, Models codec next (ids + 1) (request.perform table).2.layout ∧
      ∀ other, request.changes? ≠ some other → next.find? other = map.find? other := by
  have performs := perform_does request models room fun impossible : False => impossible.elim
  cases performed : request.perform table with
  | mk outcome after =>
    cases outcome with
    | ok answer =>
      obtain ⟨_, _, next⟩ := Action.Meets.ok_of performs performed
      exact ⟨_, next, fun _ => SetMap.find?_after⟩
    | error failure =>
      obtain ⟨_, same⟩ := Action.Meets.failed_of performs performed
      exact ⟨_, same, fun _ _ => rfl⟩

/-- No two keys ever share a record, and a request about one key leaves the sets of all others, as
long as each handle that is dropped leaves the records of all sets behind. Record ids have 64 bits,
so the life must be shorter. -/
theorem separate_after (faithful : codec.Faithful) (noSlots : contents stores.primary = .empty)
    (noRecords : contents stores.overflow = .empty) (name : String) (events : List (Event D))
    (leaveRecords : DropsLeaveRecords stores name codec events) (short : events.length + 2 < 2 ^ 64) :
    (∀ key other id, (stores.after name codec events).stores.Redirects key id →
      (stores.after name codec events).stores.Redirects other id → key = other) ∧
    ∀ table, stores.after name codec events = .opened table → ∀ request : Request D,
      ∃ map next, Shows codec map table ∧ Shows codec next (request.perform table).2 ∧
        ∀ other, request.changes? ≠ some other → next.find? other = map.find? other := by
  have keeps := keeps_after faithful noSlots noRecords events leaveRecords (by omega)
  refine ⟨fun key other id => keeps.separate, fun table reached request => ?_⟩
  rw [reached] at keeps
  cases keeps with
  | @opened map _ models fitted =>
    obtain ⟨next, after, elsewhere⟩ := perform_beside request models (by omega)
    exact ⟨map, next, models.shows, after.shows, elsewhere⟩

def rewritten : List (Event UInt64) :=
  [.reopen 1 4] ++ [.call (.ask (.put [7] 1))] ++ [.call (.ask (.put [7] 2))] ++
    [.call (.ask (.take [7]))] ++ [.call (.ask .sync)] ++ [.reopen 1 4] ++
    [.call (.ask (.put [8] 5))] ++ [.call (.ask (.put [8] 6))]

theorem separate_after_rewritten :
    DropsLeaveRecords stuckStores "ids" .uint64 rewritten ∧
    (∀ key other id, (stuckStores.after "ids" .uint64 rewritten).stores.Redirects key id →
      (stuckStores.after "ids" .uint64 rewritten).stores.Redirects other id → key = other) ∧
    ∀ table, stuckStores.after "ids" .uint64 rewritten = .opened table →
      ∀ request : Request UInt64, ∃ map next, Shows .uint64 map table ∧
        Shows .uint64 next (request.perform table).2 ∧
        ∀ other, request.changes? ≠ some other → next.find? other = map.find? other := by
  have first : DropsLeaveRecords stuckStores "ids" .uint64 [.reopen 1 4] :=
    dropsLeaveRecords_nil.reopen trivial 1 4
  have dropped := (((first.call (.ask (.put [7] 1))).call (.ask (.put [7] 2))).call
    (.ask (.take [7]))).call (.ask .sync)
  have leaveRecords : DropsLeaveRecords stuckStores "ids" .uint64 rewritten :=
    ((dropped.reopen (by decide +kernel) 1 4).call (.ask (.put [8] 5))).call (.ask (.put [8] 6))
  exact ⟨leaveRecords,
    separate_after Codec.uint64_faithful rfl rfl "ids" rewritten leaveRecords (by decide)⟩

def reissued : List (Event UInt64) :=
  [.reopen 1 4, .call (.ask (.put [7] 1)), .call (.ask (.put [7] 2)), .call (.ask (.take [7])),
    .reopen 1 4, .call (.ask (.put [8] 5)), .call (.ask (.put [8] 6))]

theorem not_separate_after_reissued :
    ¬ (∀ key other id, (stuckStores.after "ids" .uint64 reissued).stores.Redirects key id →
      (stuckStores.after "ids" .uint64 reissued).stores.Redirects other id → key = other) ∧
    (stuckStores.after "ids" .uint64 reissued).answer? (.elements [7]) =
      some (.ok (.set (some [5, 6]))) := by
  refine ⟨fun separate => ?_, by decide +kernel⟩
  have same := separate [7] [8] 1 (by decide +kernel) (by decide +kernel)
  exact absurd same (by decide)

end SetTable

end AttributeIndex
