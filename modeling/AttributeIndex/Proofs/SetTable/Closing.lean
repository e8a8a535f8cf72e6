import AttributeIndex.Proofs.SetTable.Flushing

namespace AttributeIndex.SetTable

open Observed Layout

section States

variable {σ D : Type} [Ord D] [Observed σ]

def isSevered (table : SetTable σ D) : Bool :=
  !table.isClosed && !isOpen table.stores.primary

def Closable (table : SetTable σ D) : Prop :=
  table.isClosed = true ∨ table.isSevered = false ∧ table.layout.Flushable

structure Stands (table : SetTable σ D) : Prop where
  cacheOrdered : table.layout.CacheOrdered
  overflow : table.isClosed = false → isOpen table.stores.overflow = true

/-- What a close leaves that has written all changes and closed the primary store, but could not close
the overflow store. -/
structure Severed [Table σ] (before after : SetTable σ D) (failure : Error) : Prop where
  primary : isOpen before.stores.primary = true
  isSevered_eq : after.isSevered = true
  moves : Moves before.layout after.layout
  uncached : ∀ id, after.layout.sets.find? id = none
  overflow : isOpen after.stores.overflow = true
  cause : ∃ store reason, (Table.close : Action σ IoError Unit) store =
    (.error reason, after.stores.overflow) ∧ failure = .io after.name reason

variable {table after : SetTable σ D}

theorem isSevered_of_closed (shut : table.isClosed = true) : table.isSevered = false := by
  rw [isSevered, shut]
  rfl

theorem isSevered_of_open (opened : isOpen table.stores.primary = true) :
    table.isSevered = false := by
  rw [isSevered, opened, Bool.not_true, Bool.and_false]

theorem Kept.isSevered_eq (kept : Kept table after) : after.isSevered = table.isSevered := by
  rw [isSevered, isSevered, kept.isClosed_eq, kept.primary_eq]

theorem Stands.live (stands : Stands table) (opened : table.isClosed = false)
    (whole : table.isSevered = false) : table.Live := by
  refine ⟨opened, ?_, stands.overflow opened⟩
  simpa [isSevered, opened] using whole

theorem Stands.of_kept (stands : Stands table) (kept : Kept table after)
    (cache : after.layout.CacheOrdered) : Stands after where
  cacheOrdered := cache
  overflow opened := kept.overflow_eq.trans (stands.overflow (kept.isClosed_eq.symm.trans opened))

theorem Severed.not_closable [Table σ] {failure : Error} (left : Severed table after failure) :
    ¬ after.Closable := by
  rintro (shut | ⟨whole, _⟩)
  · cases (isSevered_of_closed shut).symm.trans left.isSevered_eq
  · cases whole.symm.trans left.isSevered_eq

end States

variable {σ D : Type} [Ord D] [Table σ] [LawfulTable σ] {table : SetTable σ D}

/-! ## One close -/

theorem closePrimary_shuts : (onPrimary Table.close : Action (SetTable σ D) Error Unit).Meets table
    (fun _ after => isOpen after.stores.primary = false) fun _ _ => True := by
  rw [onPrimary, Action.meets_bind, Action.meets_get, onStores, Action.meets_on, Stores.onPrimary,
    Action.meets_on]
  exact (LawfulTable.close table.stores.primary).mono (fun _ _ closed => closed.2.1)
    fun _ _ _ => trivial

omit [LawfulTable σ] in
theorem closeOverflow_fails : (onOverflow Table.close : Action (SetTable σ D) Error Unit).Meets table
    (fun _ _ => True)
    (fun failure after => after.stores.primary = table.stores.primary ∧
      ∃ store reason, (Table.close : Action σ IoError Unit) store =
        (.error reason, after.stores.overflow) ∧ failure = .io after.name reason) := by
  rw [onOverflow, Action.meets_bind, Action.meets_get, onStores, Action.meets_on, Stores.onOverflow,
    Action.meets_on]
  exact .intro (fun _ _ _ => trivial)
    fun reason overflow performed => ⟨rfl, table.stores.overflow, reason, performed, rfl⟩

variable [Std.TransOrd D]

theorem sync_opened (cache : table.layout.CacheOrdered) :
    Does sync table False (fun _ _ => isOpen table.stores.primary = true) fun _ => True := by
  refine does_bind (requireOpen_does.mono (fun _ _ done => done) fun _ _ => trivial)
    fun _ opened quiet ⟨_, same⟩ => ?_
  rw [← same] at cache
  refine does_get_bind ?_
  refine does_bind ((writeBackAll_moves cache False.elim).mono (fun _ _ _ => trivial)
    fun _ _ => trivial) fun _ written calm _ => ?_
  refine does_bind (writeHeader_moves.mono (fun _ _ _ => trivial) fun _ _ => trivial)
    fun _ announced still _ => ?_
  refine does_bind ((onPrimary_does LawfulTable.sync).mono (fun _ _ done => done.1)
    fun _ _ => trivial) fun _ durable _ primary => ?_
  refine (onOverflow_does LawfulTable.sync).mono (fun _ _ _ => ?_) fun _ _ => trivial
  rw [← quiet.primary_eq, ← calm.primary_eq, ← still.primary_eq]
  exact primary

theorem close_severs (stands : Stands table) :
    close.Meets table (fun _ _ => table.isSevered = false)
      (fun failure after => after.isSevered = table.isSevered ∨ Severed table after failure) := by
  rw [close, Action.meets_bind, Action.meets_get]
  split
  · exact isSevered_of_closed ‹_›
  · rename_i unclosed
    have unclosed := Bool.eq_false_of_not_eq_true unclosed
    have overflow := stands.overflow unclosed
    rw [Action.meets_bind]
    refine Action.Meets.mono
      (Action.Meets.and (sync_moves stands.cacheOrdered False.elim)
        (sync_opened stands.cacheOrdered)) ?_ ?_
    · rintro _ synced ⟨⟨quiet, moves, clean⟩, _, primary⟩
      have emptied : Moves table.layout { synced.layout with sets := synced.layout.sets.clear } :=
        moves.trans (clean.moves_clear (moves.cacheOrdered stands.cacheOrdered))
      rw [Action.meets_bind, Action.meets_modify, Action.meets_bind]
      refine Action.Meets.mono ((closePrimary_meets False).and closePrimary_shuts) ?_ ?_
      · rintro _ half ⟨⟨cleared, halfClosed, halfOpen, _⟩, shut⟩
        rw [Action.meets_bind]
        refine Action.Meets.mono (closeOverflow_meets.and closeOverflow_fails) ?_ ?_
        · exact fun _ _ _ => isSevered_of_open primary
        · rintro failure last ⟨⟨same, lastClosed, lastOpen, _⟩, samePrimary, cause⟩
          have layout : last.layout = { synced.layout with sets := synced.layout.sets.clear } :=
            same.trans cleared
          have isClosed : last.isClosed = false :=
            lastClosed.trans (halfClosed.trans (quiet.isClosed_eq.trans unclosed))
          refine .inr ⟨primary, ?_, ?_, fun id => ?_, ?_, cause⟩
          · rw [isSevered, isClosed, samePrimary, shut]
            rfl
          · rw [layout]
            exact emptied
          · rw [layout]
            exact Lru.find?_clear
          · exact lastOpen.trans (halfOpen.trans (quiet.overflow_eq.trans overflow))
      · rintro _ left ⟨⟨rough, _⟩, _⟩
        exact .inl (rough.isSevered_eq.trans quiet.isSevered_eq)
    · rintro _ left ⟨⟨rough, _⟩, _⟩
      exact .inl rough.isSevered_eq

theorem close_eq_ok_iff (stands : Stands table) :
    (close table).1 = .ok () ↔ failures (close table).2 = failures table ∧ table.Closable := by
  have closes :=
    (close_moves stands.cacheOrdered (id : table.layout.Flushable → _)).and (close_severs stands)
  cases performed : close table with
  | mk outcome after =>
    cases outcome with
    | ok done =>
      obtain ⟨⟨counted, moves, _, gone⟩, whole⟩ := closes.ok_of performed
      refine ⟨fun _ => ⟨counted, ?_⟩, fun _ => rfl⟩
      cases unclosed : table.isClosed with
      | true => exact .inl unclosed
      | false =>
        refine .inr ⟨whole, (moves.flushable_iff stands.cacheOrdered).1 fun id cached found => ?_⟩
        cases (gone unclosed id).symm.trans found
    | error failure =>
      obtain ⟨⟨_, blame, _, unclosed, _⟩, _⟩ := closes.failed_of performed
      refine ⟨nofun, fun ⟨counted, closable⟩ => ?_⟩
      obtain ⟨whole, flushable⟩ := closable.resolve_left (by rw [unclosed]; exact Bool.false_ne_true)
      have more := blame (stands.live unclosed whole) flushable
      dsimp only at counted
      omega

theorem isClosed_close (stands : Stands table) :
    (close table).2.isClosed = true ↔ (close table).1 = .ok () := by
  have closes := close_moves stands.cacheOrdered (False.elim : False → _)
  cases performed : close table with
  | mk outcome after =>
    cases outcome with
    | ok done => exact ⟨fun _ => rfl, fun _ => (closes.ok_of performed).2.2.1⟩
    | error failure =>
      obtain ⟨_, _, _, _, unclosed, _⟩ := closes.failed_of performed
      exact ⟨fun shut => absurd (unclosed.symm.trans shut) Bool.false_ne_true, nofun⟩

theorem closable_of_failed (stands : Stands table) {failure : Error} {failed : SetTable σ D}
    (performed : close table = (.error failure, failed)) :
    (failed.Closable ↔ table.Closable) ∨ Severed table failed failure := by
  obtain ⟨_, _, moves, unclosed, still, _⟩ :=
    (close_moves stands.cacheOrdered (False.elim : False → _)).failed_of performed
  refine ((close_severs stands).failed_of performed).imp_left fun same => ?_
  rw [Closable, Closable, unclosed, still, same, moves.flushable_iff stands.cacheOrdered]

theorem closable_iff_of_failed (stands : Stands table) (closable : table.Closable) {failure : Error}
    {failed : SetTable σ D} (performed : close table = (.error failure, failed)) :
    failed.Closable ↔ ¬ Severed table failed failure := by
  refine ⟨fun again left => left.not_closable again, fun whole => ?_⟩
  exact ((closable_of_failed stands performed).resolve_right whole).2 closable

/-! ## Runs -/

def Harmless {α : Type} (action : Action (SetTable σ D) Error α) : Prop :=
  ∀ table, Stands table → action.Meets table (fun _ after => Stands after ∧ Kept table after)
    fun _ after => Stands after ∧ Kept table after

theorem request_harmless (request : Request D) :
    Harmless (request.perform : Action (SetTable σ D) Error _) := by
  intro table stands
  have ran := (request_ran request stands.cacheOrdered).and (request_keeps request stands.cacheOrdered)
  refine ran.mono ?_ ?_
  · exact fun _ _ ⟨passed, kept⟩ =>
      ⟨stands.of_kept kept (passed.cacheOrdered stands.cacheOrdered), kept⟩
  · exact fun _ _ ⟨passed, kept⟩ =>
      ⟨stands.of_kept kept (passed.cacheOrdered stands.cacheOrdered), kept⟩

omit [Std.TransOrd D] in
theorem rawSlot_harmless (key : Bytes) :
    Harmless (rawSlot key : Action (SetTable σ D) Error _) := by
  intro table stands
  refine Action.Meets.mono (rawSlot_does key : Does _ _ False _ _) ?_ ?_
  · exact fun _ _ ⟨quiet, same⟩ =>
      ⟨stands.of_kept quiet.toKept (same ▸ stands.cacheOrdered), quiet.toKept⟩
  · exact fun _ _ ⟨rough, same⟩ =>
      ⟨stands.of_kept rough.toKept (same ▸ stands.cacheOrdered), rough.toKept⟩

omit [Std.TransOrd D] in
theorem harmless_of_answered {α : Type} {action : Action (SetTable σ D) Error α}
    {answer : α → Answer D} (harmless : Harmless (do return answer (← action))) : Harmless action :=
  fun table stands => Action.meets_bind.1 (harmless table stands)

theorem close_stands (stands : Stands table) : Stands (close table).2 := by
  have keeps : close.Meets table (fun _ => Stands) fun _ => Stands := by
    refine (close_moves stands.cacheOrdered (False.elim : False → _)).mono ?_ ?_
    · intro _ after ⟨_, moves, shut, _⟩
      exact ⟨moves.cacheOrdered stands.cacheOrdered, fun unclosed => by cases shut.symm.trans unclosed⟩
    · intro _ after ⟨_, _, moves, unclosed, _, same⟩
      exact ⟨moves.cacheOrdered stands.cacheOrdered, fun _ => same.trans (stands.overflow unclosed)⟩
  exact keeps.left

theorem call_stands (call : AttributeIndex.Call D) (stands : Stands table) :
    Stands (call.perform table).2 ∧ (call ≠ .close → Kept table (call.perform table).2) := by
  cases call with
  | ask request =>
    obtain ⟨still, kept⟩ := (request_harmless request table stands).left
    exact ⟨Action.left_map still, fun _ => Action.left_map kept⟩
  | rawSlot key =>
    obtain ⟨still, kept⟩ := (rawSlot_harmless key table stands).left
    exact ⟨Action.left_map still, fun _ => Action.left_map kept⟩
  | close => exact ⟨close_stands stands, fun noClose => absurd rfl noClose⟩

theorem afterCalls_stands (calls : List (AttributeIndex.Call D)) (stands : Stands table) :
    Stands (table.afterCalls calls) := by
  induction calls generalizing table with
  | nil => exact stands
  | cons call calls ih => exact ih (call_stands call stands).1

theorem close_isSevered (stands : Stands table) :
    (close table).2.isSevered = table.isSevered ∨
      ∃ failure, (close table).1 = .error failure ∧ Severed table (close table).2 failure := by
  have severs := close_severs stands
  cases performed : close table with
  | mk outcome after =>
    cases outcome with
    | ok done =>
      have shut := (isClosed_close stands).2 (by rw [performed])
      rw [performed] at shut
      exact .inl ((isSevered_of_closed shut).trans (severs.ok_of performed).symm)
    | error failure => exact (severs.failed_of performed).imp_right fun left => ⟨failure, rfl, left⟩

theorem call_isSevered_iff (call : AttributeIndex.Call D) (stands : Stands table) :
    (call.perform table).2.isSevered = true ↔ table.isSevered = true ∨
      call = .close ∧ ∃ failure failed, close table = (.error failure, failed) ∧
        Severed table failed failure := by
  cases call with
  | close =>
    rw [eq_self, true_and]
    exact Action.marked_iff (fun _ _ left => left.isSevered_eq) (close_isSevered stands)
  | _ =>
    rw [((call_stands _ stands).2 (by simp)).isSevered_eq]
    simp

theorem afterCalls_isSevered_iff (calls : List (AttributeIndex.Call D)) (stands : Stands table)
    (whole : table.isSevered = false) :
    (table.afterCalls calls).isSevered = true ↔
      ∃ earlier later, calls = earlier ++ .close :: later ∧
        ∃ failure failed, close (table.afterCalls earlier) = (.error failure, failed) ∧
          Severed (table.afterCalls earlier) failed failure := by
  refine (Action.marked_foldl_iff (fun _ call still => (call_stands call still).1)
    (fun _ call still => call_isSevered_iff call still) calls stands).trans (or_iff_right ?_)
  rw [whole]
  exact Bool.false_ne_true

omit [Std.TransOrd D] in
theorem openOver_stands {name : String} {codec : Codec D} {limit cacheSize : Nat}
    {stores left : Stores σ} {opened : SetTable σ D}
    (opening : openOver name codec limit cacheSize stores = (.ok opened, left)) :
    Stands opened ∧ opened.isSevered = false := by
  have live := ((openOver_reads name codec limit cacheSize stores).ok_of opening).live
  exact ⟨⟨(serves_of_openOver opening).cacheOrdered, fun _ => live.overflow⟩,
    isSevered_of_open live.primary⟩

/-- What comes of closing a table after some calls. If it fails, it can be done again, unless that
severed the table. -/
structure Closes (opened : SetTable σ D) (calls : List (AttributeIndex.Call D)) : Prop where
  succeeds : (close (opened.afterCalls calls)).1 = .ok () ↔
    failures (close (opened.afterCalls calls)).2 = failures (opened.afterCalls calls) ∧
      (opened.afterCalls calls).Closable
  marks : (close (opened.afterCalls calls)).2.isClosed = true ↔
    (close (opened.afterCalls calls)).1 = .ok ()
  again : ∀ failure failed, close (opened.afterCalls calls) = (.error failure, failed) →
    (opened.afterCalls calls).Closable → failures (close failed).2 = failures failed →
      ((close failed).1 = .ok () ↔ ¬ Severed (opened.afterCalls calls) failed failure)
  severed : (opened.afterCalls calls).isSevered = true ↔
    ∃ earlier later, calls = earlier ++ .close :: later ∧
      ∃ failure failed, close (opened.afterCalls earlier) = (.error failure, failed) ∧
        Severed (opened.afterCalls earlier) failed failure

theorem Stands.closes (stands : Stands table) (whole : table.isSevered = false)
    (calls : List (AttributeIndex.Call D)) : Closes table calls := by
  have reached := afterCalls_stands calls stands
  refine ⟨close_eq_ok_iff reached, isClosed_close reached, ?_,
    afterCalls_isSevered_iff calls stands whole⟩
  intro failure failed performed closable quiet
  have left : Stands failed := by
    rw [← show (close (table.afterCalls calls)).2 = failed from congrArg Prod.snd performed]
    exact close_stands reached
  rw [close_eq_ok_iff left, ← closable_iff_of_failed reached closable performed]
  exact and_iff_right quiet

end AttributeIndex.SetTable
