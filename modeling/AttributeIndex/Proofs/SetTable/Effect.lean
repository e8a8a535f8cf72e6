import AttributeIndex.Proofs.SetTable.Layout

namespace AttributeIndex.SetTable

open Observed

variable {σ D α β : Type} [Ord D] [Observed σ]

def layout (table : SetTable σ D) : Layout D where
  codec := table.codec
  limit := table.limit
  slots := contents table.stores.primary
  records := contents table.stores.overflow
  sets := table.sets
  nextId := table.nextId
  count := table.count

def failures (table : SetTable σ D) : Nat :=
  Observed.failures table.stores.primary + Observed.failures table.stores.overflow

structure Live (table : SetTable σ D) : Prop where
  isClosed_eq : table.isClosed = false
  primary : isOpen table.stores.primary = true
  overflow : isOpen table.stores.overflow = true

structure Kept (before after : SetTable σ D) : Prop where
  name_eq : after.name = before.name
  isClosed_eq : after.isClosed = before.isClosed
  primary_eq : isOpen after.stores.primary = isOpen before.stores.primary
  overflow_eq : isOpen after.stores.overflow = isOpen before.stores.overflow

structure Quiet (before after : SetTable σ D) : Prop extends Kept before after where
  failures_eq : failures after = failures before

/-- Something failed; if the table is live and all sets fit, then a store call did. -/
structure Rough (fit : Prop) (before after : SetTable σ D) : Prop extends Kept before after where
  failures_le : failures before ≤ failures after
  blame : before.Live → fit → failures before < failures after

theorem Kept.refl (table : SetTable σ D) : Kept table table :=
  ⟨rfl, rfl, rfl, rfl⟩

theorem Kept.trans {first second third : SetTable σ D} (before : Kept first second)
    (after : Kept second third) : Kept first third :=
  ⟨after.name_eq.trans before.name_eq, after.isClosed_eq.trans before.isClosed_eq,
    after.primary_eq.trans before.primary_eq, after.overflow_eq.trans before.overflow_eq⟩

theorem Kept.live_iff {before after : SetTable σ D} (kept : Kept before after) :
    after.Live ↔ before.Live := by
  constructor
  · intro live
    exact ⟨kept.isClosed_eq ▸ live.isClosed_eq, kept.primary_eq ▸ live.primary,
      kept.overflow_eq ▸ live.overflow⟩
  · intro live
    exact ⟨kept.isClosed_eq.trans live.isClosed_eq, kept.primary_eq.trans live.primary,
      kept.overflow_eq.trans live.overflow⟩

theorem Quiet.refl (table : SetTable σ D) : Quiet table table :=
  ⟨.refl table, rfl⟩

theorem Quiet.trans {first second third : SetTable σ D} (before : Quiet first second)
    (after : Quiet second third) : Quiet first third :=
  ⟨before.toKept.trans after.toKept, after.failures_eq.trans before.failures_eq⟩

theorem Quiet.rough {fit : Prop} {first second third : SetTable σ D} (before : Quiet first second)
    (after : Rough fit second third) : Rough fit first third where
  toKept := before.toKept.trans after.toKept
  failures_le := by
    rw [← before.failures_eq]
    exact after.failures_le
  blame live fits := by
    rw [← before.failures_eq]
    exact after.blame (before.live_iff.2 live) fits

theorem Rough.later {fit : Prop} {first second third : SetTable σ D}
    (before : Rough fit first second) (kept : Kept second third)
    (further : failures second ≤ failures third) : Rough fit first third where
  toKept := before.toKept.trans kept
  failures_le := Nat.le_trans before.failures_le further
  blame live fits := Nat.lt_of_lt_of_le (before.blame live fits) further

theorem Rough.of_refused {fit : Prop} {before after : SetTable σ D} (kept : Kept before after)
    (same : failures after = failures before) (cause : before.Live → ¬ fit) :
    Rough fit before after :=
  ⟨kept, Nat.le_of_eq same.symm, fun live fits => absurd fits (cause live)⟩

def Does (action : Action (SetTable σ D) Error α) (table : SetTable σ D) (fit : Prop)
    (ok : α → Layout D → Prop) (failed : Layout D → Prop) : Prop :=
  action.Meets table (fun answer after => Quiet table after ∧ ok answer after.layout)
    (fun _ after => Rough fit table after ∧ failed after.layout)

variable {table : SetTable σ D} {fit : Prop} {ok : α → Layout D → Prop} {failed : Layout D → Prop}

theorem Does.mono {action : Action (SetTable σ D) Error α} {ok' : α → Layout D → Prop}
    {failed' : Layout D → Prop} (does : Does action table fit ok failed)
    (weakenOk : ∀ answer after, ok answer after → ok' answer after)
    (weakenFailed : ∀ after, failed after → failed' after) : Does action table fit ok' failed' :=
  Action.Meets.mono does (fun _ _ ⟨quiet, done⟩ => ⟨quiet, weakenOk _ _ done⟩)
    fun _ _ ⟨rough, left⟩ => ⟨rough, weakenFailed _ left⟩

theorem does_pure {answer : α} (done : ok answer table.layout) :
    Does (pure answer) table fit ok failed :=
  ⟨.refl table, done⟩

theorem does_throw {failure : Error} (left : failed table.layout) (cause : table.Live → ¬ fit) :
    Does (throw failure : Action (SetTable σ D) Error α) table fit ok failed :=
  ⟨.of_refused (.refl table) rfl cause, left⟩

theorem does_bind {first : Action (SetTable σ D) Error β} {next : β → Action (SetTable σ D) Error α}
    {middle : β → Layout D → Prop} (does : Does first table fit middle failed)
    (further : ∀ answer after, Quiet table after → middle answer after.layout →
      Does (next answer) after fit ok failed) : Does (first >>= next) table fit ok failed := by
  rw [Does, Action.meets_bind]
  refine Action.Meets.mono does ?_ fun _ _ => id
  intro answer after ⟨quiet, reached⟩
  refine Action.Meets.mono (further answer after quiet reached) ?_ ?_
  · exact fun _ _ ⟨calm, done⟩ => ⟨quiet.trans calm, done⟩
  · exact fun _ _ ⟨rough, left⟩ => ⟨quiet.rough rough, left⟩

theorem does_map {change : β → α} {action : Action (SetTable σ D) Error β}
    (does : Does action table fit (fun answer after => ok (change answer) after) failed) :
    Does (change <$> action) table fit ok failed :=
  Action.meets_map.2 does

theorem does_get_bind {next : SetTable σ D → Action (SetTable σ D) Error α}
    (does : Does (next table) table fit ok failed) : Does (get >>= next) table fit ok failed := by
  rw [Does, Action.meets_bind, Action.meets_get]
  exact does

theorem does_modify {ok : Unit → Layout D → Prop} {change : SetTable σ D → SetTable σ D}
    (quiet : Quiet table (change table)) (done : ok () (change table).layout) :
    Does (modify change) table fit ok failed :=
  Action.meets_modify.2 ⟨quiet, done⟩

theorem does_attempt_bind {action : Action (SetTable σ D) Error β}
    {next : Except Error β → Action (SetTable σ D) Error α} {middle : β → Layout D → Prop}
    {broken : Layout D → Prop} (does : Does action table fit middle broken)
    (further : ∀ answer after, Quiet table after → middle answer after.layout →
      Does (next (.ok answer)) after fit ok failed)
    (repaired : ∀ failure after, broken after.layout →
      (next (.error failure)).Meets after (fun _ _ => False) fun _ last =>
        Kept after last ∧ failures after ≤ failures last ∧ failed last.layout) :
    Does (Action.attempt action >>= next) table fit ok failed := by
  rw [Does, Action.meets_bind, Action.meets_attempt]
  refine Action.Meets.mono does ?_ ?_
  · intro answer after ⟨quiet, reached⟩
    refine Action.Meets.mono (further answer after quiet reached) ?_ ?_
    · exact fun _ _ ⟨calm, done⟩ => ⟨quiet.trans calm, done⟩
    · exact fun _ _ ⟨rough, left⟩ => ⟨quiet.rough rough, left⟩
  · intro failure after ⟨rough, left⟩
    refine Action.Meets.mono (repaired failure after left) ?_ ?_
    · exact fun _ _ impossible => impossible.elim
    · exact fun _ last ⟨kept, further, done⟩ => ⟨rough.later kept further, done⟩

theorem does_query {answer : SetTable σ D → Except Error α}
    (done : ∀ value, answer table = .ok value → ok value table.layout)
    (left : ∀ failure, answer table = .error failure → failed table.layout ∧ (table.Live → ¬ fit)) :
    Does (Action.query answer) table fit ok failed := by
  rw [Does, Action.meets_query]
  cases outcome : answer table with
  | ok value => exact ⟨.refl table, done value outcome⟩
  | error failure =>
    obtain ⟨stays, cause⟩ := left failure outcome
    exact ⟨.of_refused (.refl table) rfl cause, stays⟩

theorem requireOpen_does :
    Does requireOpen table fit (fun _ after => table.isClosed = false ∧ after = table.layout)
      (fun after => after = table.layout) := by
  refine does_get_bind ?_
  split
  · rename_i shut
    refine does_throw rfl fun live => ?_
    rw [live.isClosed_eq] at shut
    cases shut
  · rename_i opened
    exact does_pure ⟨by simpa using opened, rfl⟩

variable {does : SortedMap Bytes Bytes → α × SortedMap Bytes Bytes}

theorem onPrimary_meets {call : Action σ IoError α} (obeys : Obeys call does) :
    (onPrimary call).Meets table
      (fun answer after => Quiet table after ∧ isOpen table.stores.primary = true ∧
        answer = (does table.layout.slots).1 ∧
        after.layout = { table.layout with slots := (does table.layout.slots).2 })
      (fun _ after => Kept table after ∧ failures table ≤ failures after ∧
        (isOpen table.stores.primary = true → failures table < failures after) ∧
        after.layout = table.layout) := by
  rw [onPrimary, Action.meets_bind, Action.meets_get, onStores, Action.meets_on, Stores.onPrimary,
    Action.meets_on]
  refine (obeys table.stores.primary).mono ?_ ?_
  · intro answer after ⟨opened, stays, same, done⟩
    have answered : answer = (does (contents table.stores.primary)).1 := congrArg Prod.fst done
    have changed : contents after = (does (contents table.stores.primary)).2 := congrArg Prod.snd done
    refine ⟨⟨⟨rfl, rfl, stays.trans opened.symm, rfl⟩, ?_⟩, opened, answered, ?_⟩
    · exact congrArg (· + Observed.failures table.stores.overflow) same
    · exact congrArg (fun slots => { table.layout with slots }) changed
  · intro failure after refused
    refine ⟨⟨rfl, rfl, refused.isOpen_eq, rfl⟩, ?_, fun opened => ?_, ?_⟩
    · exact Nat.add_le_add_right refused.failures_le _
    · exact Nat.add_lt_add_right (refused.failures_lt opened) _
    · exact congrArg (fun slots => { table.layout with slots }) refused.contents_eq

theorem onPrimary_does {call : Action σ IoError α} (obeys : Obeys call does) :
    Does (onPrimary call) table fit
      (fun answer after => isOpen table.stores.primary = true ∧
        answer = (does table.layout.slots).1 ∧
        after = { table.layout with slots := (does table.layout.slots).2 })
      (fun after => after = table.layout) := by
  refine (onPrimary_meets obeys).mono (fun _ _ done => done) ?_
  intro _ _ ⟨kept, atLeast, more, same⟩
  exact ⟨⟨kept, atLeast, fun live _ => more live.primary⟩, same⟩

theorem onOverflow_does {call : Action σ IoError α} (obeys : Obeys call does) :
    Does (onOverflow call) table fit
      (fun answer after => answer = (does table.layout.records).1 ∧
        after = { table.layout with records := (does table.layout.records).2 })
      (fun after => after = table.layout) := by
  refine does_get_bind ?_
  rw [Does, onStores, Action.meets_on, Stores.onOverflow, Action.meets_on]
  refine (obeys table.stores.overflow).mono ?_ ?_
  · intro answer after ⟨opened, stays, same, done⟩
    have answered : answer = (does (contents table.stores.overflow)).1 := congrArg Prod.fst done
    have changed : contents after = (does (contents table.stores.overflow)).2 := congrArg Prod.snd done
    refine ⟨⟨⟨rfl, rfl, rfl, stays.trans opened.symm⟩, ?_⟩, answered, ?_⟩
    · exact congrArg (Observed.failures table.stores.primary + ·) same
    · exact congrArg (fun records => { table.layout with records }) changed
  · intro failure after refused
    refine ⟨⟨⟨rfl, rfl, rfl, refused.isOpen_eq⟩, ?_, fun live _ => ?_⟩, ?_⟩
    · exact Nat.add_le_add_left refused.failures_le _
    · exact Nat.add_lt_add_left (refused.failures_lt live.overflow) _
    · exact congrArg (fun records => { table.layout with records }) refused.contents_eq

/-! ## Operations that can be left half done -/

/-- As `Does`, where a failing store call may also leave the operation half done. -/
def Tries (action : Action (SetTable σ D) Error α) (table : SetTable σ D) (fit : Prop)
    (ok : α → Layout D → Prop) (failed half : Layout D → Prop) : Prop :=
  action.Meets table (fun answer after => Quiet table after ∧ ok answer after.layout)
    (fun _ after => Rough fit table after ∧
      (failed after.layout ∨ half after.layout ∧ failures table < failures after))

variable {half : Layout D → Prop}

theorem Does.tries {action : Action (SetTable σ D) Error α} (does : Does action table fit ok failed) :
    Tries action table fit ok failed half :=
  Action.Meets.mono does (fun _ _ done => done) fun _ _ ⟨rough, left⟩ => ⟨rough, .inl left⟩

theorem Tries.mono {action : Action (SetTable σ D) Error α} {ok' : α → Layout D → Prop}
    {failed' half' : Layout D → Prop} (tries : Tries action table fit ok failed half)
    (weakenOk : ∀ answer after, ok answer after → ok' answer after)
    (weakenFailed : ∀ after, failed after → failed' after)
    (weakenHalf : ∀ after, half after → half' after) : Tries action table fit ok' failed' half' :=
  Action.Meets.mono tries (fun _ _ ⟨quiet, done⟩ => ⟨quiet, weakenOk _ _ done⟩)
    fun _ _ ⟨rough, left⟩ =>
      ⟨rough, left.imp (weakenFailed _) fun ⟨broken, more⟩ => ⟨weakenHalf _ broken, more⟩⟩

theorem Tries.toDoes {action : Action (SetTable σ D) Error α}
    (tries : Tries action table fit ok failed half) (same : ∀ after, half after → failed after) :
    Does action table fit ok failed :=
  Action.Meets.mono tries (fun _ _ done => done)
    fun _ _ ⟨rough, left⟩ => ⟨rough, left.elim id fun ⟨broken, _⟩ => same _ broken⟩

theorem tries_bind {first : Action (SetTable σ D) Error β}
    {next : β → Action (SetTable σ D) Error α} {middle : β → Layout D → Prop}
    (tries : Tries first table fit middle failed half)
    (further : ∀ answer after, Quiet table after → middle answer after.layout →
      Tries (next answer) after fit ok failed half) :
    Tries (first >>= next) table fit ok failed half := by
  rw [Tries, Action.meets_bind]
  refine Action.Meets.mono tries ?_ fun _ _ => id
  intro answer after ⟨quiet, reached⟩
  refine Action.Meets.mono (further answer after quiet reached) ?_ ?_
  · exact fun _ _ ⟨calm, done⟩ => ⟨quiet.trans calm, done⟩
  · intro _ last ⟨rough, left⟩
    rw [quiet.failures_eq] at left
    exact ⟨quiet.rough rough, left⟩

theorem tries_get_bind {next : SetTable σ D → Action (SetTable σ D) Error α}
    (tries : Tries (next table) table fit ok failed half) :
    Tries (get >>= next) table fit ok failed half := by
  rw [Tries, Action.meets_bind, Action.meets_get]
  exact tries

theorem tries_attempt_bind {action : Action (SetTable σ D) Error β}
    {next : Except Error β → Action (SetTable σ D) Error α} {middle : β → Layout D → Prop}
    {broken : Layout D → Prop} (tries : Tries action table fit middle (fun _ => False) broken)
    (further : ∀ answer after, Quiet table after → middle answer after.layout →
      Does (next (.ok answer)) after fit ok failed)
    (repaired : ∀ failure after, broken after.layout →
      (next (.error failure)).Meets after (fun _ _ => False) fun _ last =>
        Kept after last ∧ failures after ≤ failures last ∧ half last.layout) :
    Tries (Action.attempt action >>= next) table fit ok failed half := by
  rw [Tries, Action.meets_bind, Action.meets_attempt]
  refine Action.Meets.mono tries ?_ ?_
  · intro answer after ⟨quiet, reached⟩
    refine Action.Meets.mono (further answer after quiet reached) ?_ ?_
    · exact fun _ _ ⟨calm, done⟩ => ⟨quiet.trans calm, done⟩
    · exact fun _ _ ⟨rough, left⟩ => ⟨quiet.rough rough, .inl left⟩
  · intro failure after ⟨rough, left⟩
    obtain ⟨left, more⟩ := left.resolve_left id
    refine Action.Meets.mono (repaired failure after left) ?_ ?_
    · exact fun _ _ impossible => impossible.elim
    · intro _ last ⟨kept, later, done⟩
      exact ⟨rough.later kept later, .inr ⟨done, Nat.lt_of_lt_of_le more later⟩⟩

theorem onPrimary_tries {call : Action σ IoError α} (obeys : Obeys call does)
    (opened : isOpen table.stores.primary = true) :
    Tries (onPrimary call) table fit
      (fun answer after => answer = (does table.layout.slots).1 ∧
        after = { table.layout with slots := (does table.layout.slots).2 })
      (fun _ => False) (fun after => after = table.layout) := by
  refine (onPrimary_meets obeys).mono (fun _ _ ⟨quiet, _, done⟩ => ⟨quiet, done⟩) ?_
  intro _ _ ⟨kept, atLeast, more, same⟩
  exact ⟨⟨kept, atLeast, fun _ _ => more opened⟩, .inr ⟨same, more opened⟩⟩

end AttributeIndex.SetTable
