import AttributeIndex.Proofs.Index.Requests

/-!
Pairs of an entry that are removed from the forward table, and put back when a change fails.

The set of a pair removed just before has room for it where it is, so putting it back moves no set to
a record.
-/

namespace AttributeIndex.Index

open Observed

variable {σ V : Type} [Table σ] [LawfulTable σ]

/-! ## Putting pairs back -/

structure Removed (map : SetMap UInt64) (keys : List Bytes) (id : UInt64) : Prop where
  nodup : keys.Nodup
  present : ∀ key ∈ keys, map.has key id = true

structure Restorable (keys : List Bytes) (table : SetTable σ UInt64) : Prop where
  withinLimit : table.layout.InlineWithinLimit
  spare : ∀ key ∈ keys, table.layout.Spare key
  overflow : table.isClosed = false → isOpen table.stores.overflow = true
  live : keys ≠ [] → table.Live

structure Restored (map : SetMap UInt64) (ids : Nat) (aligned : Prop) (before after : SetTable σ UInt64) :
    Prop where
  kept : SetTable.Kept before after
  failures_le : SetTable.failures before ≤ SetTable.failures after
  withinLimit : after.layout.InlineWithinLimit
  models : ∃ left, SetTable.Models .uint64 left ids after.layout ∧
    (map.Fits .uint64 → aligned → SetTable.failures after = SetTable.failures before → left = map)

theorem Removed.tail {map : SetMap UInt64} {key : Bytes} {keys : List Bytes} {id : UInt64}
    (removed : Removed map (key :: keys) id) : Removed map keys id :=
  ⟨(List.nodup_cons.1 removed.nodup).2,
    fun other member => removed.present other (List.mem_cons_of_mem key member)⟩

theorem Restorable.of_kept {keys others : List Bytes} {before after : SetTable σ UInt64}
    (restorable : Restorable keys before) (kept : SetTable.Kept before after)
    (withinLimit : after.layout.InlineWithinLimit) (spare : ∀ other ∈ others, after.layout.Spare other)
    (live : others ≠ [] → before.Live) : Restorable others after where
  withinLimit := withinLimit
  spare := spare
  overflow opened := by
    rw [kept.overflow_eq]
    exact restorable.overflow (kept.isClosed_eq ▸ opened)
  live nonempty := kept.live_iff.2 (live nonempty)

theorem Restorable.grown {key : Bytes} {keys : List Bytes} {id : UInt64}
    {before after : SetTable σ UInt64} (restorable : Restorable (key :: keys) before)
    (fresh : key ∉ keys) (kept : SetTable.Kept before after)
    (grown : SetTable.Grown key id before.layout after.layout) : Restorable keys after := by
  -- The set grows where it is, so the sets of the other keys keep their room.
  refine restorable.of_kept kept (grown.withinLimit restorable.withinLimit) (fun other member => ?_)
    fun _ => restorable.live (List.cons_ne_nil key keys)
  have different : other ≠ key := fun same => fresh (same ▸ member)
  exact grown.toAdvanced.spare different (restorable.spare other (List.mem_cons_of_mem key member))

theorem Restorable.stalled {key : Bytes} {keys : List Bytes} {before after : SetTable σ UInt64}
    (restorable : Restorable (key :: keys) before) (kept : SetTable.Kept before after)
    (stalled : SetTable.Stalled key before.layout after.layout) : Restorable keys after :=
  restorable.of_kept kept (stalled.toRearranged.withinLimit restorable.withinLimit)
    (fun other member => stalled.toRearranged.spare
      (restorable.spare other (List.mem_cons_of_mem key member)))
    fun _ => restorable.live (List.cons_ne_nil key keys)

theorem Restored.after_step {map : SetMap UInt64} {ids : Nat} {aligned further : Prop}
    {before middle after : SetTable σ UInt64} (restored : Restored map ids further middle after)
    (kept : SetTable.Kept before middle)
    (failures_le : SetTable.failures before ≤ SetTable.failures middle)
    (aligns : map.Fits .uint64 → aligned →
      SetTable.failures middle = SetTable.failures before → further) :
    Restored map ids aligned before after := by
  obtain ⟨left, reached, same⟩ := restored.models
  refine ⟨kept.trans restored.kept, Nat.le_trans failures_le restored.failures_le, restored.withinLimit,
    left, reached, fun fits aligned none => ?_⟩
  have rest := restored.failures_le
  have quiet : SetTable.failures middle = SetTable.failures before := by omega
  exact same fits (aligns fits aligned quiet) (none.trans quiet.symm)

variable {map current : SetMap UInt64} {ids : Nat} {id : UInt64} {index : Index σ V}

omit [LawfulTable σ] in
theorem restoreForward_frame (keys : List Bytes) :
    (restoreForward keys id).Meets index (fun _ after => ∃ forward, after = { index with forward })
      fun _ _ => False := by
  refine Action.meets_forM (fun _ (state : Index σ V) => ∃ forward, state = { index with forward })
    ?_ keys ⟨index.forward, rfl⟩
  rintro key rest _ ⟨forward, rfl⟩
  rw [Action.meets_ignoring, meets_onForward]
  unfold Action.Meets
  split
  · exact ⟨_, rfl⟩
  · exact ⟨_, rfl⟩

theorem restoreForward_meets {keys : List Bytes} (removed : Removed map keys id)
    (proper : map.Proper) (models : SetTable.Models .uint64 current ids index.forward.layout)
    (room : ids + 1 < 2 ^ 64) (restorable : Restorable keys index.forward) :
    (restoreForward keys id).Meets index
      (fun _ after => ∃ forward, after = { index with forward } ∧
        Restored map ids (current = map.removeAll keys id) index.forward forward)
      (fun _ _ => False) := by
  induction keys generalizing index current with
  | nil =>
    refine ⟨index.forward, rfl, .refl _, Nat.le_refl _, restorable.withinLimit, current, models, ?_⟩
    exact fun _ same _ => same
  | cons key keys ih =>
    have fresh : key ∉ keys := (List.nodup_cons.1 removed.nodup).1
    have restores : current = map.removeAll (key :: keys) id →
        current.put key id = map.removeAll keys id := by
      intro same
      rw [same]
      exact SetMap.put_removeAll proper fresh (removed.present key List.mem_cons_self)
    have fits : map.Fits .uint64 ∧ current = map.removeAll (key :: keys) id →
        (current.put key id).Fits .uint64 := by
      intro ⟨fits, same⟩
      rw [restores same]
      exact fits.removeAll keys id
    show Action.Meets (Action.ignoring (onForward (SetTable.put key id)) >>= fun _ =>
      restoreForward keys id) index _ _
    rw [Action.meets_bind, Action.meets_ignoring, meets_onForward]
    -- A failure is ignored, so the other pairs are put back in either case.
    apply Action.Meets.mono (SetTable.putSpare_models models room
      (restorable.spare key List.mem_cons_self) fits)
    · intro _ forward ⟨quiet, further, grown⟩
      apply (@ih _ { index with forward } removed.tail further
        (restorable.grown fresh quiet.toKept grown)).mono
      · rintro _ _ ⟨last, rfl, restored⟩
        exact ⟨last, rfl, restored.after_step quiet.toKept (Nat.le_of_eq quiet.failures_eq.symm)
          fun _ aligned _ => restores aligned⟩
      · exact fun _ _ => False.elim
    · intro _ forward ⟨rough, further, stalled⟩
      apply (@ih _ { index with forward } removed.tail further
        (restorable.stalled rough.toKept stalled)).mono
      · rintro _ _ ⟨last, rfl, restored⟩
        refine ⟨last, rfl, restored.after_step rough.toKept rough.failures_le ?_⟩
        intro fits aligned none
        have more := rough.blame (restorable.live (List.cons_ne_nil key keys)) ⟨fits, aligned⟩
        exact absurd none (Nat.ne_of_gt more)
      · exact fun _ _ => False.elim

/-! ## Removing the pairs of an entry from the forward table -/

structure Stopped (map : SetMap UInt64) (ids : Nat) (before after : SetTable σ UInt64) : Prop where
  kept : SetTable.Kept before after
  failures_le : SetTable.failures before ≤ SetTable.failures after
  withinLimit : after.layout.InlineWithinLimit
  models : ∃ left, SetTable.Models .uint64 left ids after.layout ∧
    (map.Fits .uint64 → SetTable.failures after ≤ SetTable.failures before + 1 → left = map)

theorem Restorable.add {removed : List Bytes} {key : Bytes} {list : List UInt64}
    {before after : SetTable σ UInt64} (restorable : Restorable removed before)
    (reached : SetTable.Reached before) (quiet : SetTable.Quiet before after)
    (shrunk : SetTable.Shrunk key list before.layout after.layout)
    (fewer : list.length < (before.layout.view.setOf key).length) :
    Restorable (removed ++ [key]) after := by
  have live : before.Live :=
    ⟨reached.isClosed_eq, reached.primary, restorable.overflow reached.isClosed_eq⟩
  apply restorable.of_kept quiet.toKept
      (shrunk.withinLimit restorable.withinLimit (Nat.le_of_lt fewer)) _
    fun _ => live
  intro other member
  by_cases same : other = key
  · rw [same]
    exact shrunk.spare restorable.withinLimit fewer
  · obtain before | here := List.mem_append.1 member
    · exact shrunk.toAdvanced.spare same (restorable.spare other before)
    · exact absurd (List.mem_singleton.1 here) same

theorem Restorable.skip {removed : List Bytes} {key : Bytes} {list : List UInt64}
    {before after : SetTable σ UInt64} (restorable : Restorable removed before)
    (quiet : SetTable.Quiet before after)
    (shrunk : SetTable.Shrunk key list before.layout after.layout)
    (fewer : list.length ≤ (before.layout.view.setOf key).length) : Restorable removed after := by
  apply restorable.of_kept quiet.toKept (shrunk.withinLimit restorable.withinLimit fewer) _
      restorable.live
  intro other member
  have spare := restorable.spare other member
  by_cases same : other = key
  · subst same
    exact shrunk.still_spare spare fewer
  · exact shrunk.toAdvanced.spare same spare

theorem Restorable.settled {removed : List Bytes} {before after : SetTable σ UInt64}
    (restorable : Restorable removed before) (kept : SetTable.Kept before after)
    (settled : SetTable.Settled before.layout after.layout) : Restorable removed after :=
  restorable.of_kept kept (settled.withinLimit restorable.withinLimit)
    (fun other member => settled.toRearranged.spare (restorable.spare other member)) restorable.live

theorem restoreForward_stops {removed : List Bytes} {forward : SetTable σ UInt64}
    (taken : Removed map removed id) (proper : map.Proper)
    (models : SetTable.Models .uint64 (map.removeAll removed id) ids forward.layout)
    (room : ids + 1 < 2 ^ 64) (rough : SetTable.Rough (map.Fits .uint64) index.forward forward)
    (restorable : Restorable removed index.forward) (again : Restorable removed forward) :
    (restoreForward removed id).Meets { index with forward }
      (fun _ after => ∃ last, after = { index with forward := last } ∧
        Stopped map ids index.forward last) (fun _ _ => False) := by
  cases removed with
  | nil =>
    refine ⟨forward, rfl, rough.toKept, rough.failures_le, again.withinLimit, map, models, ?_⟩
    exact fun _ _ => rfl
  | cons key keys =>
    apply (restoreForward_meets taken proper models room again).mono
    · rintro _ _ ⟨last, rfl, restored⟩
      obtain ⟨left, reached, same⟩ := restored.models
      have further := restored.failures_le
      dsimp only at further
      refine ⟨last, rfl, rough.toKept.trans restored.kept, Nat.le_trans rough.failures_le further,
        restored.withinLimit, left, reached, fun fits few => ?_⟩
      have more := rough.blame (restorable.live (List.cons_ne_nil key keys)) fits
      apply same fits rfl
      dsimp only
      omega
    · exact fun _ _ => False.elim

structure Withdrawn (map : SetMap UInt64) (ids : Nat) (id : UInt64) (removed keys answer : List Bytes)
    (before after : SetTable σ UInt64) : Prop where
  quiet : SetTable.Quiet before after
  taken : Removed map answer id
  aligned : map.removeAll answer id = map.removeAll (removed ++ keys) id
  models : SetTable.Models .uint64 (map.removeAll answer id) ids after.layout
  withinLimit : before.layout.InlineWithinLimit → after.layout.InlineWithinLimit
  restorable : Restorable removed before → Restorable answer after

/-- A removal that has failed on the way, and was undone if the pairs could be put back. -/
structure Withheld (map : SetMap UInt64) (ids : Nat) (removed : List Bytes)
    (before after : Index σ V) : Prop where
  blame : before.forward.Live → map.Fits .uint64 → ∃ middle : SetTable σ UInt64,
    SetTable.failures before.forward < SetTable.failures middle
  stopped : Restorable removed before.forward → ∃ forward, after = { before with forward } ∧
    Stopped map ids before.forward forward

theorem Removed.snoc {map : SetMap UInt64} {removed : List Bytes} {key : Bytes} {id : UInt64}
    (taken : Removed map removed id) (fresh : key ∉ removed) (present : map.has key id = true) :
    Removed map (removed ++ [key]) id := by
  constructor
  · apply List.nodup_append.2
    refine ⟨taken.nodup, List.nodup_singleton key, ?_⟩
    rintro other member _ last rfl
    rw [List.mem_singleton.1 last] at member
    exact fresh member
  · intro other member
    obtain before | last := List.mem_append.1 member
    · exact taken.present other before
    · rw [List.mem_singleton.1 last]
      exact present

structure Passed (map : SetMap UInt64) (id : UInt64) (key : Bytes) (removed others : List Bytes)
    (before after : SetTable σ UInt64) : Prop where
  quiet : SetTable.Quiet before after
  taken : Removed map others id
  aligned : (map.removeAll removed id).remove key id = map.removeAll others id
  withinLimit : before.layout.InlineWithinLimit → after.layout.InlineWithinLimit
  restorable : Restorable removed before → Restorable others after

section Passed

variable {key : Bytes} {keys removed others answer : List Bytes}
  {before middle after : SetTable σ UInt64}

theorem Passed.of_present
    (models : SetTable.Models .uint64 (map.removeAll removed id) ids before.layout)
    (taken : Removed map removed id) (reached : SetTable.Reached before)
    (quiet : SetTable.Quiet before after)
    (shrunk : SetTable.Shrunk key
      (Sequence.erase compare id ((map.removeAll removed id).setOf key)) before.layout after.layout)
    (present : (map.removeAll removed id).has key id = true) :
    Passed map id key removed (removed ++ [key]) before after := by
  have there := SetMap.has_of_removeAll present
  have fewer := Sequence.length_erase (models.coherent.proper.ascending key)
    (show Sequence.has compare id _ = true from models.view_eq ▸ present)
  rw [← models.view_eq] at shrunk
  refine ⟨quiet, taken.snoc there.1 there.2, ?_, ?_, ?_⟩
  · rw [SetMap.removeAll_append]
    rfl
  · exact fun withinLimit => shrunk.withinLimit withinLimit (by omega)
  · exact fun restorable => restorable.add reached quiet shrunk (by omega)

theorem Passed.of_absent
    (models : SetTable.Models .uint64 (map.removeAll removed id) ids before.layout)
    (taken : Removed map removed id) (quiet : SetTable.Quiet before after)
    (shrunk : SetTable.Shrunk key
      (Sequence.erase compare id ((map.removeAll removed id).setOf key)) before.layout after.layout)
    (absent : (map.removeAll removed id).has key id = false) :
    Passed map id key removed removed before after := by
  have idle := SetMap.remove_eq_self (models.view_eq ▸ models.coherent.proper) absent
  rw [Sequence.erase_eq_self absent, ← models.view_eq] at shrunk
  exact ⟨quiet, taken, idle, fun withinLimit => shrunk.withinLimit withinLimit (Nat.le_refl _),
    fun restorable => restorable.skip quiet shrunk (Nat.le_refl _)⟩

theorem Withdrawn.of_passed (passed : Passed map id key removed others before middle)
    (withdrawn : Withdrawn map ids id others keys answer middle after) :
    Withdrawn map ids id removed (key :: keys) answer before after where
  quiet := passed.quiet.trans withdrawn.quiet
  taken := withdrawn.taken
  aligned := by
    rw [withdrawn.aligned, SetMap.removeAll_append, SetMap.removeAll_append, ← passed.aligned]
    rfl
  models := withdrawn.models
  withinLimit withinLimit := withdrawn.withinLimit (passed.withinLimit withinLimit)
  restorable restorable := withdrawn.restorable (passed.restorable restorable)

theorem Withheld.of_passed {last : Index σ V} {forward : SetTable σ UInt64}
    (passed : Passed map id key removed others index.forward forward)
    (withheld : Withheld map ids others { index with forward } last) :
    Withheld map ids removed index last where
  blame live fits := by
    rw [← passed.quiet.failures_eq]
    exact withheld.blame (passed.quiet.live_iff.2 live) fits
  stopped restorable := by
    obtain ⟨left, rfl, stopped⟩ := withheld.stopped (passed.restorable restorable)
    obtain ⟨held, reached, same⟩ := stopped.models
    refine ⟨left, rfl, passed.quiet.toKept.trans stopped.kept, ?_, stopped.withinLimit, held,
      reached, ?_⟩
    · exact passed.quiet.failures_eq ▸ stopped.failures_le
    · exact passed.quiet.failures_eq ▸ same

theorem restoreForward_withholds {α : Type} {failure : Error} {forward : SetTable σ UInt64}
    {given : α → Index σ V → Prop}
    (taken : Removed map removed id) (proper : map.Proper)
    (models : SetTable.Models .uint64 (map.removeAll removed id) ids forward.layout)
    (room : ids + 1 < 2 ^ 64) (rough : SetTable.Rough (map.Fits .uint64) index.forward forward)
    (settled : SetTable.Settled index.forward.layout forward.layout) :
    (do
      restoreForward removed id
      throw failure : Action (Index σ V) Error α).Meets { index with forward } given
      (fun _ after => Withheld map ids removed index after) := by
  have blame : index.forward.Live → map.Fits .uint64 → ∃ middle : SetTable σ UInt64,
      SetTable.failures index.forward < SetTable.failures middle :=
    fun live fits => ⟨forward, rough.blame live fits⟩
  rw [Action.meets_bind]
  by_cases restorable : Restorable removed index.forward
  · have again := restorable.settled rough.toKept settled
    apply (restoreForward_stops taken proper models room rough restorable again).mono
    · intro _ after stopped
      exact Action.meets_throw.2 ⟨blame, fun _ => stopped⟩
    · exact fun _ _ => False.elim
  · apply (restoreForward_frame removed).mono
    · intro _ after _
      exact Action.meets_throw.2 ⟨blame, fun yes => absurd yes restorable⟩
    · exact fun _ _ => False.elim

theorem removeForward_meets {keys removed : List Bytes} (taken : Removed map removed id)
    (proper : map.Proper)
    (models : SetTable.Models .uint64 (map.removeAll removed id) ids index.forward.layout)
    (room : ids + 1 < 2 ^ 64) :
    (removeForward id removed keys).Meets index
      (fun answer after => ∃ forward, after = { index with forward } ∧
        Withdrawn map ids id removed keys answer index.forward forward)
      (fun _ after => Withheld map ids removed index after) := by
  -- The pairs removed so far are carried along, as a failure further on puts them back.
  induction keys generalizing index removed with
  | nil =>
    refine ⟨index.forward, rfl, .refl _, taken, ?_, models, fun withinLimit => withinLimit,
      fun same => same⟩
    rw [List.append_nil]
  | cons key keys ih =>
    have fits : map.Fits .uint64 → (map.removeAll removed id).Fits .uint64 :=
      fun fits => fits.removeAll removed id
    rw [removeForward, Action.meets_bind, Action.meets_attempt, meets_onForward]
    apply Action.Meets.mono (SetTable.remove_models models fits)
    · intro found forward ⟨quiet, reached, same, further, shrunk⟩
      have rest : ∀ {others : List Bytes}, Passed map id key removed others index.forward forward →
          (removeForward id others keys).Meets { index with forward }
            (fun answer after => ∃ forward, after = { index with forward } ∧
              Withdrawn map ids id removed (key :: keys) answer index.forward forward)
            (fun _ after => Withheld map ids removed index after) := by
        intro others passed
        rw [passed.aligned] at further
        apply (@ih { index with forward } others passed.taken further).mono
        · rintro answer _ ⟨last, rfl, withdrawn⟩
          exact ⟨last, rfl, .of_passed passed withdrawn⟩
        · exact fun _ _ withheld => .of_passed passed withheld
      cases found with
      | true => exact rest (.of_present models taken reached quiet shrunk same.symm)
      | false => exact rest (.of_absent models taken quiet shrunk same.symm)
    · intro failure forward ⟨rough, further, settled⟩
      exact restoreForward_withholds taken proper further room rough settled

end Passed

end AttributeIndex.Index
