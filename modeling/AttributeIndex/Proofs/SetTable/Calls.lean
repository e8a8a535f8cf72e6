import AttributeIndex.Proofs.SetTable.Failures
import AttributeIndex.Proofs.SetTable.Passage

namespace AttributeIndex

open Observed

def Request.releases? {D : Type} : Request D → Option Bytes
  | .remove key _ | .take key => some key
  | _ => none

namespace SetTable

open Layout

variable {σ D : Type} [Ord D] [Std.TransOrd D] [Table σ] [LawfulTable σ] {table : SetTable σ D}

theorem reading_moves {request : Request D} (reading : request.isReading = true)
    (cache : table.layout.CacheOrdered) :
    Does request.perform table False (fun _ => Moves table.layout) (Moves table.layout) := by
  have sound : False → table.layout.Sound := False.elim
  have finish : ∀ {α : Type} {read : Action (SetTable σ D) Error α} (answer : α → Answer D),
      Does read table False (fun _ => Moves table.layout) (Moves table.layout) →
      Does (do return answer (← read)) table False (fun _ => Moves table.layout)
        (Moves table.layout) :=
    fun _ does => does_bind does fun _ _ _ moves => does_pure moves
  have reads : ∀ {β : Type} (key : Bytes) (read : Option (OrderedSet D compare) → β),
      Does (do return read (← elements key)) table False (fun _ => Moves table.layout)
        (Moves table.layout) :=
    fun key _ => does_bind (elements_moves cache sound) fun _ _ _ ⟨moves, _⟩ => does_pure moves
  cases request with
  | put | remove | take => cases reading
  | contains key element => exact finish _ (reads key _)
  | countOf key => exact finish _ (reads key _)
  | elements key =>
    exact finish _ ((elements_moves cache sound).mono (fun _ _ done => done.1) fun _ left => left)
  | firstElement key => exact finish _ (reads key _)
  | slots => exact finish _ ((slots_moves cache sound).mono (fun _ _ done => done.1) fun _ left => left)
  | sync =>
    refine does_bind ((sync_moves cache False.elim).mono (fun _ _ done => done.1) fun _ left => left) ?_
    exact fun _ _ _ moves => does_pure moves

theorem perform_passes (request : Request D) (cache : table.layout.CacheOrdered) :
    Tries request.perform table False (fun _ => Pass table.layout) (Moves table.layout)
      (Slip request.releases? table.layout) := by
  have sound : False → table.layout.Sound := False.elim
  have reads : request.isReading = true →
      Tries request.perform table False (fun _ => Pass table.layout) (Moves table.layout)
        (Slip request.releases? table.layout) := fun reading =>
    ((reading_moves reading cache).mono (fun _ _ => .moved) fun _ left => left).tries
  cases request with
  | put key element =>
    refine tries_bind ((put_tries cache False.elim).mono (fun _ _ done => done) (fun _ left => left) ?_) ?_
    · exact fun _ ⟨_, moves, orphan⟩ => .orphaned moves orphan
    · intro _ _ _ ⟨_, _, prepared, puts⟩
      exact (does_pure (.of_course prepared puts.course)).tries
  | remove key element =>
    refine tries_bind ((remove_tries cache sound).mono (fun _ _ done => done) (fun _ left => left) ?_) ?_
    · exact fun _ ⟨_, moves, unfile⟩ => .unfiled moves unfile
    · intro _ _ _ ⟨_, _, prepared, removes⟩
      exact (does_pure (.of_course prepared removes.course)).tries
  | take key =>
    refine tries_bind ((take_tries cache sound).mono (fun _ _ done => done) (fun _ left => left) ?_) ?_
    · exact fun _ ⟨_, moves, unfile⟩ => .unfiled moves unfile
    · intro _ _ _ ⟨_, _, prepared, takes⟩
      exact (does_pure (.of_course prepared takes.course)).tries
  | contains | countOf | elements | firstElement | slots | sync => exact reads rfl

theorem request_keeps (request : Request D) (cache : table.layout.CacheOrdered) :
    request.perform.Meets table (fun _ => Kept table) fun _ => Kept table :=
  Action.Meets.mono (perform_passes request cache) (fun _ _ done => done.1.toKept)
    fun _ _ left => left.1.toKept

structure Ran [Observed σ] (before after : SetTable σ D) : Prop where
  failures_le : failures before ≤ failures after
  passes : Pass before.layout after.layout ∨
    ∃ lost, Slip lost before.layout after.layout ∧ failures before < failures after

theorem request_ran (request : Request D) (cache : table.layout.CacheOrdered) :
    request.perform.Meets table (fun _ => Ran table) fun _ => Ran table := by
  refine Action.Meets.mono (perform_passes request cache) ?_ ?_
  · exact fun _ _ ⟨quiet, pass⟩ => ⟨Nat.le_of_eq quiet.failures_eq.symm, .inl pass⟩
  · exact fun _ _ ⟨rough, left⟩ => ⟨rough.failures_le, left.imp .moved fun half => ⟨_, half⟩⟩

theorem call_ran (call : Call D) (cache : table.layout.CacheOrdered) :
    Ran table (call.perform table).2 := by
  have ran : call.perform.Meets table (fun _ => Ran table) fun _ => Ran table := by
    cases call with
    | ask request => exact Action.meets_discard.2 (request_ran request cache)
    | rawSlot key =>
      have same : ∀ after : SetTable σ D, after.layout = table.layout →
          Pass table.layout after.layout := fun _ same => same ▸ .moved .refl
      refine Action.meets_discard.2
        (Action.Meets.mono (rawSlot_does key : Does _ _ False _ _) ?_ ?_)
      · exact fun _ _ ⟨quiet, unchanged⟩ =>
          ⟨Nat.le_of_eq quiet.failures_eq.symm, .inl (same _ unchanged)⟩
      · exact fun _ _ ⟨rough, unchanged⟩ => ⟨rough.failures_le, .inl (same _ unchanged)⟩
    | close =>
      refine (close_moves cache (False.elim : False → _)).mono ?_ ?_
      · exact fun _ _ ⟨counted, moves, _⟩ => ⟨Nat.le_of_eq counted.symm, .inl (.moved moves)⟩
      · exact fun _ _ ⟨atLeast, _, moves, _⟩ => ⟨atLeast, .inl (.moved moves)⟩
  exact ran.left

omit [Table σ] [LawfulTable σ] in
theorem Ran.cacheOrdered [Observed σ] {before after : SetTable σ D} (ran : Ran before after)
    (cache : before.layout.CacheOrdered) : after.layout.CacheOrdered := by
  rcases ran.passes with pass | ⟨_, slip, _⟩
  · exact pass.cacheOrdered cache
  · exact slip.cacheOrdered cache

omit [Std.TransOrd D] [Table σ] [LawfulTable σ] in
theorem Ran.codec_eq [Observed σ] {before after : SetTable σ D} (ran : Ran before after) :
    after.codec = before.codec := by
  rcases ran.passes with pass | ⟨_, slip, _⟩
  · exact pass.codec_eq
  · exact slip.codec_eq

/-- What stays as it is through one handle, and what does if no store call fails. -/
structure Persists [Observed σ] (before after : SetTable σ D) : Prop where
  failures_le : failures before ≤ failures after
  fixed : Fixed before.layout after.layout
  withinLimit : before.layout.InlineWithinLimit → after.layout.InlineWithinLimit
  fitted : before.layout.Fitted → after.layout.Fitted
  noStray : failures after = failures before → before.layout.NoStrayRecord → after.layout.NoStrayRecord
  recorded : failures after = failures before → before.layout.Recorded → after.layout.Recorded

omit [Std.TransOrd D] [Table σ] [LawfulTable σ] in
theorem Persists.trans [Observed σ] {first second third : SetTable σ D}
    (before : Persists first second)
    (after : Persists second third) : Persists first third where
  failures_le := Nat.le_trans before.failures_le after.failures_le
  fixed := before.fixed.trans after.fixed
  withinLimit withinLimit := after.withinLimit (before.withinLimit withinLimit)
  fitted fitted := after.fitted (before.fitted fitted)
  noStray same noStray := by
    have earlier := before.failures_le
    have later := after.failures_le
    exact after.noStray (by omega) (before.noStray (by omega) noStray)
  recorded same recorded := by
    have earlier := before.failures_le
    have later := after.failures_le
    exact after.recorded (by omega) (before.recorded (by omega) recorded)

omit [Table σ] [LawfulTable σ] in
theorem Ran.persists [Observed σ] {before after : SetTable σ D} (ran : Ran before after)
    (coherent : before.layout.Coherent) (room : before.layout.nextId.toNat + 1 < 2 ^ 64) :
    Persists before after := by
  refine ⟨ran.failures_le, ?_, fun withinLimit => ?_, fun fitted => ?_, fun same noStray => ?_,
    fun same recorded => ?_⟩
  · rcases ran.passes with pass | ⟨_, slip, _⟩
    · exact pass.fixed
    · exact slip.fixed
  · rcases ran.passes with pass | ⟨_, slip, _⟩
    · exact pass.withinLimit coherent room withinLimit
    · exact slip.withinLimit withinLimit
  · rcases ran.passes with pass | ⟨_, slip, _⟩
    · exact pass.fitted coherent fitted
    · exact slip.fitted coherent fitted
  · rcases ran.passes with pass | ⟨_, _, more⟩
    · exact pass.noStray coherent noStray
    · omega
  · rcases ran.passes with pass | ⟨_, _, more⟩
    · exact pass.recorded coherent recorded
    · omega

theorem afterCalls_persists {codec : Codec D} {map : SetMap D} {ids : Nat} (calls : List (Call D))
    (models : Models codec map ids table.layout) (room : ids + calls.length < 2 ^ 64) :
    Persists table (table.afterCalls calls) := by
  induction calls generalizing table map ids with
  | nil => exact ⟨Nat.le_refl _, ⟨rfl, rfl⟩, id, id, fun _ => id, fun _ => id⟩
  | cons call calls ih =>
    rw [List.length_cons] at room
    have small := models.nextId_le
    obtain ⟨next, onward⟩ := afterCalls_models [call] models (by rw [List.length_singleton]; omega)
    have first := (call_ran call models.coherent.cacheOrdered).persists models.coherent (by omega)
    exact first.trans (ih onward (by rw [List.length_singleton]; omega))

end SetTable

end AttributeIndex
