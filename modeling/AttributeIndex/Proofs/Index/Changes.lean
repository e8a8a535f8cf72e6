import AttributeIndex.Proofs.Index.Restoring

namespace AttributeIndex.Index

open Observed

variable {σ V : Type} [Table σ] [LawfulTable σ] {map : SetMap UInt64} {ids : Nat} {id : UInt64}
  {index : Index σ V}

/-! ## What a change comes to -/

/-- While the forward table is not closed, all four stores but its primary one are surely open, and
no set in a slot has outgrown the limit. -/
structure StoresOpen (index : Index σ V) : Prop where
  withinLimit : index.forward.layout.InlineWithinLimit
  overflow : index.forward.isClosed = false → isOpen index.forward.stores.overflow = true
  reverse : index.forward.isClosed = false → index.reverse.Live

/-- At most one store call has failed, or none of the forward stores. -/
def Contained (before after : Index σ V) : Prop :=
  SetTable.failures after.forward = SetTable.failures before.forward ∨
    failures after ≤ failures before + 1

def SetsFitFormat (codec : Codec V) (maps : Maps) (request : Request V) : Prop :=
  maps.Fits ∧ (maps.after codec request).Fits

structure Performed (name : String) (codec : Codec V) (maps : Maps) (ids : Nat) (request : Request V)
    (before : Index σ V) (answer : Answer V) (after : Index σ V) : Prop where
  quiet : Quiet before after
  answered : maps.answer name codec request = .ok answer
  models : Models codec (maps.after codec request) (ids + 1) after
  withinLimit : before.forward.layout.InlineWithinLimit → after.forward.layout.InlineWithinLimit

/-- The request was refused, or a store call failed on the way. The maps are as they were if not too
many store calls failed. -/
structure Undone (name : String) (codec : Codec V) (maps : Maps) (ids : Nat) (request : Request V)
    (before : Index σ V) (failure : Error) (after : Index σ V) : Prop where
  blame : before.Live → SetsFitFormat codec maps request →
    (maps.answer name codec request = .error failure ∧ Kept before after ∧
      Models codec maps (ids + 1) after) ∨
    ∃ middle : Index σ V, failures before < failures middle
  kept : before.StoresOpen → Kept before after
  withinLimit : before.StoresOpen → after.forward.layout.InlineWithinLimit
  models : before.StoresOpen → ∃ left, Models codec left (ids + 1) after ∧
    (SetsFitFormat codec maps request → Contained before after → left = maps)

def Changes {α : Type} (name : String) (codec : Codec V) (maps : Maps) (ids : Nat)
    (request : Request V) (action : Action (Index σ V) Error α) (wrap : α → Answer V)
    (index : Index σ V) : Prop :=
  action.Meets index
    (fun result after => Performed name codec maps ids request index (wrap result) after)
    (fun failure after => Undone name codec maps ids request index failure after)

variable {codec : Codec V} {maps : Maps} {name : String} {request : Request V} {failure : Error}

theorem Contained.forward_eq {before after : Index σ V} (contained : Contained before after)
    (noFewer : SetTable.failures before.forward ≤ SetTable.failures after.forward)
    (more : SetTable.failures before.reverse < SetTable.failures after.reverse) :
    SetTable.failures after.forward = SetTable.failures before.forward := by
  obtain none | one := contained
  · exact none
  · unfold failures at one
    omega

theorem StoresOpen.live (storesOpen : index.StoresOpen) (reached : SetTable.Reached index.forward) :
    index.forward.Live :=
  ⟨reached.isClosed_eq, reached.primary, storesOpen.overflow reached.isClosed_eq⟩

theorem Undone.of_settled {after : Index σ V} {more : Nat} (enough : more ≤ ids + 1)
    (rough : Rough (SetsFitFormat codec maps request ∧ maps.answer name codec request ≠ .error failure)
      index after) (models : Models codec maps more after)
    (withinLimit : index.forward.layout.InlineWithinLimit → after.forward.layout.InlineWithinLimit) :
    Undone name codec maps ids request index failure after where
  blame live setsFit := by
    by_cases refused : maps.answer name codec request = .error failure
    · exact .inl ⟨refused, rough.toKept, models.later enough⟩
    · exact .inr ⟨after, rough.blame live ⟨setsFit, refused⟩⟩
  kept _ := rough.toKept
  withinLimit storesOpen := withinLimit storesOpen.withinLimit
  models _ := ⟨maps, models.later enough, fun _ _ => rfl⟩

def Unexplained (name : String) (codec : Codec V) (maps : Maps) (request : Request V)
    (failure : Error) : Prop :=
  SetsFitFormat codec maps request ∧ maps.answer name codec request ≠ .error failure

theorem Kept.storesOpen {after : Index σ V} (kept : Kept index after)
    (withinLimit : index.forward.layout.InlineWithinLimit → after.forward.layout.InlineWithinLimit)
    (storesOpen : index.StoresOpen) :
    after.StoresOpen where
  withinLimit := withinLimit storesOpen.withinLimit
  overflow opened := by
    rw [kept.forward.overflow_eq]
    exact storesOpen.overflow (kept.forward.isClosed_eq ▸ opened)
  reverse opened := kept.reverse.live_iff.2 (storesOpen.reverse (kept.forward.isClosed_eq ▸ opened))

theorem changes_bind {α β : Type} {first : Action (Index σ V) Error β}
    {next : β → Action (Index σ V) Error α} {wrap : α → Answer V} {done : β → Prop}
    (models : Models codec maps ids index)
    (does : Does first index (Unexplained name codec maps request)
      (fun answer after => done answer ∧ Settled index after) (Settled index))
    (further : ∀ answer after, done answer → Models codec maps ids after →
      Changes name codec maps ids request (next answer) wrap after) :
    Changes name codec maps ids request (first >>= next) wrap index := by
  rw [Changes, Action.meets_bind]
  apply Action.Meets.mono does
  · intro answer after ⟨quiet, reached, settled⟩
    have counted : failures after = failures index := quiet.failures_eq
    apply (further answer after reached (models.settled settled)).mono
    · intro result last performed
      exact ⟨quiet.trans performed.quiet, performed.answered, performed.models,
        fun withinLimit => performed.withinLimit (settled.forward.withinLimit withinLimit)⟩
    · intro failure last undone
      have storesOpen := quiet.toKept.storesOpen settled.forward.withinLimit
      constructor
      · intro live setsFit
        rw [← counted]
        apply (undone.blame (quiet.live_iff.2 live) setsFit).imp_left
        exact fun ⟨refused, kept, same⟩ => ⟨refused, quiet.toKept.trans kept, same⟩
      · exact fun before => quiet.toKept.trans (undone.kept (storesOpen before))
      · exact fun before => undone.withinLimit (storesOpen before)
      · intro before
        obtain ⟨left, reached, same⟩ := undone.models (storesOpen before)
        refine ⟨left, reached, fun setsFit contained => same setsFit ?_⟩
        rw [Contained, quiet.forward_eq, counted]
        exact contained
  · exact fun failure after ⟨rough, settled⟩ =>
      .of_settled (Nat.le_succ ids) rough (models.settled settled) settled.forward.withinLimit

theorem changes_open {α : Type} {next : Action (Index σ V) Error α} {wrap : α → Answer V}
    (models : Models codec maps ids index)
    (further : ∀ after, Models codec maps ids after →
      Changes name codec maps ids request next wrap after) :
    Changes name codec maps ids request (do requireOpen; next) wrap index := by
  have opens : Does requireOpen index (Unexplained name codec maps request)
      (fun _ after => True ∧ Settled index after) (Settled index) := by
    apply Action.Meets.mono (requireOpen_does models.refl)
    · rintro _ _ ⟨quiet, rfl⟩
      exact ⟨quiet, trivial, models.refl⟩
    · exact fun _ _ left => left
  exact changes_bind models opens fun _ after _ => further after

theorem changes_keyed {α : Type} {value : V} {next : Bytes → Action (Index σ V) Error α}
    {wrap : α → Answer V} (models : Models codec maps ids index)
    (refused : ∀ failure, codec.encode value = .error failure →
      maps.answer name codec request = .error failure)
    (further : ∀ key after, codec.encode value = .ok key → Models codec maps ids after →
      Changes name codec maps ids request (next key) wrap after) :
    Changes name codec maps ids request (do requireOpen; next (← encode value)) wrap index := by
  apply changes_open models
  intro opened models
  have encodes : Does (encode value) opened (Unexplained name codec maps request)
      (fun key after => codec.encode value = .ok key ∧ Settled opened after) (Settled opened) := by
    rw [← models.codec_eq]
    apply does_query
    · exact fun key encoded => ⟨encoded, models.refl⟩
    · intro failure refusal
      rw [models.codec_eq] at refusal
      refine ⟨models.refl, fun unexplained => unexplained.2 ?_⟩
      rw [models.codec_eq]
      exact refused failure refusal
  exact changes_bind models encodes further

structure RolledBack (setsFit : Prop) (map : SetMap UInt64) (ids : Nat)
    (before forward last : SetTable σ UInt64) : Prop where
  kept : SetTable.Kept forward last
  failures_le : SetTable.failures forward ≤ SetTable.failures last
  withinLimit : last.layout.InlineWithinLimit
  models : ∃ left, SetTable.Models .uint64 left ids last.layout ∧
    (setsFit → (before.isClosed = false → SetTable.failures last = SetTable.failures forward) →
      left = map)

theorem RolledBack.refl {setsFit : Prop} {map : SetMap UInt64} {before forward : SetTable σ UInt64}
    (withinLimit : forward.layout.InlineWithinLimit)
    (models : SetTable.Models .uint64 map ids forward.layout) :
    RolledBack setsFit map ids before forward forward :=
  ⟨.refl _, Nat.le_refl _, withinLimit, map, models, fun _ _ => rfl⟩

theorem Undone.of_rolledBack {forward last : SetTable σ UInt64} {reverse : SetTable σ Bytes}
    (models : Models codec maps ids index) (quiet : SetTable.Quiet index.forward forward)
    (rough : SetTable.Rough (SetsFitFormat codec maps request) index.reverse reverse)
    (reversed : SetTable.Models .bytes maps.reverse (ids + 1) reverse.layout)
    (rolledBack : index.StoresOpen →
      RolledBack (SetsFitFormat codec maps request) maps.forward (ids + 1) index.forward forward last) :
    Undone name codec maps ids request index failure { index with forward := last, reverse } where
  blame live setsFit := by
    refine .inr ⟨{ index with forward, reverse }, ?_⟩
    have more := rough.blame live.reverse setsFit
    show _ < SetTable.failures forward + SetTable.failures reverse
    rw [quiet.failures_eq]
    exact Nat.add_lt_add_left more _
  kept storesOpen := ⟨rfl, rfl, rfl, quiet.toKept.trans (rolledBack storesOpen).kept, rough.toKept⟩
  withinLimit storesOpen := (rolledBack storesOpen).withinLimit
  models storesOpen := by
    obtain ⟨left, reached, same⟩ := (rolledBack storesOpen).models
    refine ⟨⟨left, maps.reverse⟩, ⟨models.codec_eq, reached, reversed⟩, fun setsFit contained => ?_⟩
    have none : index.forward.isClosed = false →
        SetTable.failures last = SetTable.failures forward := by
      intro opened
      have noFewer := (rolledBack storesOpen).failures_le
      rw [quiet.failures_eq] at noFewer ⊢
      exact contained.forward_eq noFewer (rough.blame (storesOpen.reverse opened) setsFit)
    rw [same setsFit none]

theorem restore_undoes {α : Type} {wrap : α → Answer V} {removed : List Bytes}
    {forward : SetTable σ UInt64} {reverse : SetTable σ Bytes} (models : Models codec maps ids index)
    (room : ids + 1 < 2 ^ 64) (taken : Removed maps.forward removed id)
    (quiet : SetTable.Quiet index.forward forward)
    (further : SetTable.Models .uint64 (maps.forward.removeAll removed id) ids forward.layout)
    (rough : SetTable.Rough (SetsFitFormat codec maps request) index.reverse reverse)
    (reversed : SetTable.Models .bytes maps.reverse (ids + 1) reverse.layout)
    (restorable : index.StoresOpen → Restorable removed forward) :
    (do
      restoreForward removed id
      throw failure : Action (Index σ V) Error α).Meets { index with forward, reverse }
      (fun result after => Performed name codec maps ids request index (wrap result) after)
      (fun failure after => Undone name codec maps ids request index failure after) := by
  have proper : maps.forward.Proper := models.forward.view_eq ▸ models.forward.coherent.proper
  rw [Action.meets_bind]
  by_cases storesOpen : index.StoresOpen
  · cases removed with
    | nil =>
      show Undone name codec maps ids request index failure { index with forward, reverse }
      apply Undone.of_rolledBack models quiet rough reversed
      exact fun _ => .refl (restorable storesOpen).withinLimit (further.later (Nat.le_succ ids))
    | cons key keys =>
      have live := (restorable storesOpen).live (List.cons_ne_nil key keys)
      have opened := quiet.isClosed_eq.symm.trans live.isClosed_eq
      apply (@restoreForward_meets _ _ _ _ _ _ _ id { index with forward, reverse } _ taken proper
        further room (restorable storesOpen)).mono
      · rintro _ _ ⟨last, rfl, restored⟩
        obtain ⟨left, reached, same⟩ := restored.models
        apply Action.meets_throw.2
        apply Undone.of_rolledBack models quiet rough reversed
        exact fun _ => ⟨restored.kept, restored.failures_le, restored.withinLimit, left,
          reached.later (Nat.le_succ ids), fun setsFit none => same setsFit.1.forward rfl (none opened)⟩
      · exact fun _ _ => False.elim
  · apply (restoreForward_frame removed).mono
    · rintro _ _ ⟨last, rfl⟩
      exact Action.meets_throw.2
        (Undone.of_rolledBack models quiet rough reversed fun yes => absurd yes storesOpen)
    · exact fun _ _ => False.elim

theorem remove_undoes {α : Type} {wrap : α → Answer V} {key : Bytes} {forward : SetTable σ UInt64}
    {reverse : SetTable σ Bytes} (models : Models codec maps ids index)
    (fresh : maps.forward.has key id = false)
    (fits : SetsFitFormat codec maps request → (maps.forward.put key id).Fits .uint64)
    (reached : SetTable.Reached index.forward) (quiet : SetTable.Quiet index.forward forward)
    (further : SetTable.Models .uint64 (maps.forward.put key id) (ids + 1) forward.layout)
    (withinLimit : index.forward.layout.InlineWithinLimit → forward.layout.InlineWithinLimit)
    (rough : SetTable.Rough (SetsFitFormat codec maps request) index.reverse reverse)
    (reversed : SetTable.Models .bytes maps.reverse (ids + 1) reverse.layout) :
    (do
      Action.ignoring (onForward (SetTable.remove key id))
      throw failure : Action (Index σ V) Error α).Meets { index with forward, reverse }
      (fun result after => Performed name codec maps ids request index (wrap result) after)
      (fun failure after => Undone name codec maps ids request index failure after) := by
  have proper : maps.forward.Proper := models.forward.view_eq ▸ models.forward.coherent.proper
  rw [Action.meets_bind, Action.meets_ignoring, meets_onForward]
  apply Action.Meets.mono (SetTable.remove_models further fits)
  · rintro _ last ⟨calm, _, _, restored, shrunk⟩
    rw [SetMap.remove_put proper fresh] at restored
    apply Action.meets_throw.2
    apply Undone.of_rolledBack models quiet rough reversed
    intro storesOpen
    refine ⟨calm.toKept, Nat.le_of_eq calm.failures_eq.symm, ?_, maps.forward, restored,
      fun _ _ => rfl⟩
    apply shrunk.withinLimit (withinLimit storesOpen.withinLimit)
    rw [further.view_eq]
    exact List.length_filter_le _ _
  · rintro _ last ⟨broken, still, settled⟩
    apply Action.meets_throw.2
    apply Undone.of_rolledBack models quiet rough reversed
    intro storesOpen
    refine ⟨broken.toKept, broken.failures_le,
      settled.withinLimit (withinLimit storesOpen.withinLimit), _, still, ?_⟩
    intro setsFit none
    have more := broken.blame (quiet.live_iff.2 (storesOpen.live reached)) setsFit
    have same := none reached.isClosed_eq
    omega

theorem StoresOpen.restorable {index : Index σ V} (storesOpen : index.StoresOpen) :
    Restorable [] index.forward :=
  ⟨storesOpen.withinLimit, fun _ member => absurd member List.not_mem_nil, storesOpen.overflow,
    fun nonempty => absurd rfl nonempty⟩

theorem Undone.of_withheld {after : Index σ V} (models : Models codec maps ids index)
    (withheld : Withheld maps.forward ids [] index after) :
    Undone name codec maps ids request index failure after := by
  have undo : index.StoresOpen → ∃ forward, after = { index with forward } ∧
      Stopped maps.forward ids index.forward forward :=
    fun storesOpen => withheld.stopped storesOpen.restorable
  constructor
  · intro live setsFit
    obtain ⟨middle, more⟩ := withheld.blame live.forward setsFit.1.forward
    refine .inr ⟨{ index with forward := middle }, ?_⟩
    exact Nat.add_lt_add_right more _
  · intro storesOpen
    obtain ⟨forward, rfl, stopped⟩ := undo storesOpen
    exact ⟨rfl, rfl, rfl, stopped.kept, .refl _⟩
  · intro storesOpen
    obtain ⟨forward, rfl, stopped⟩ := undo storesOpen
    exact stopped.withinLimit
  · intro storesOpen
    obtain ⟨forward, rfl, stopped⟩ := undo storesOpen
    obtain ⟨left, reached, same⟩ := stopped.models
    refine ⟨⟨left, maps.reverse⟩, (models.withForward reached).later (Nat.le_succ ids), ?_⟩
    intro setsFit contained
    have few : SetTable.failures forward ≤ SetTable.failures index.forward + 1 := by
      obtain none | one := contained
      · exact Nat.le_of_eq none |>.trans (Nat.le_succ _)
      · unfold failures at one
        dsimp only at one
        omega
    rw [same setsFit.1.forward few]

theorem add_changes (value : V) (id : UInt64) (models : Models codec maps ids index)
    (room : ids + 1 < 2 ^ 64) :
    Changes name codec maps ids (.add value id) (add value id) .flag index := by
  apply changes_keyed models
  · intro failure refused
    rw [Maps.answer, refused]
    rfl
  intro key index encoded models
  have after : maps.after codec (.add value id) =
      ⟨maps.forward.put key id, maps.reverse.put (entryKey id) key⟩ := by
    rw [Maps.after, encoded]
  have fits : SetsFitFormat codec maps (.add value id) → (maps.forward.put key id).Fits .uint64 ∧
      (maps.reverse.put (entryKey id) key).Fits .bytes := by
    intro setsFit
    have fits := setsFit.2
    rw [after] at fits
    exact ⟨fits.forward, fits.reverse⟩
  have proper : maps.forward.Proper := models.forward.view_eq ▸ models.forward.coherent.proper
  rw [Changes, Action.meets_bind, meets_onForward]
  apply Action.Meets.mono (SetTable.put_models models.forward room fun setsFit => (fits setsFit).1)
  · rintro added forward ⟨quiet, reached, isNew, further, grown⟩
    rw [Action.meets_bind, Action.meets_attempt, meets_onReverse]
    apply Action.Meets.mono (SetTable.put_models models.reverse room fun setsFit => (fits setsFit).2)
    · rintro _ reverse ⟨calm, _, _, reversed, _⟩
      refine ⟨⟨⟨rfl, rfl, rfl, quiet.toKept, calm.toKept⟩, quiet.failures_eq, calm.failures_eq⟩, ?_, ?_,
        grown.withinLimit⟩
      · rw [Maps.answer, encoded, isNew]
        rfl
      · rw [after]
        exact ⟨models.codec_eq, further, reversed⟩
    · rintro failure reverse ⟨rough, reversed, _⟩
      cases added with
      | false =>
        have present : maps.forward.has key id = true := by simpa using isNew
        rw [SetMap.put_eq_self proper present] at further
        apply Undone.of_rolledBack models quiet rough reversed
        exact fun storesOpen => .refl (grown.withinLimit storesOpen.withinLimit) further
      | true =>
        have fresh : maps.forward.has key id = false := by simpa using isNew
        dsimp only
        rw [if_pos rfl]
        exact remove_undoes models fresh (fun setsFit => (fits setsFit).1) reached quiet further
          grown.withinLimit rough reversed
  · rintro failure forward ⟨rough, further, stalled⟩
    apply Undone.of_settled (Nat.le_refl _)
    · exact (Rough.onForward rough).mono And.left
    · exact (models.later (Nat.le_succ ids)).withForward further
    · exact stalled.toRearranged.withinLimit

theorem remove_changes (value : V) (id : UInt64) (models : Models codec maps ids index)
    (room : ids + 1 < 2 ^ 64) :
    Changes name codec maps ids (.remove value id) (remove value id) .flag index := by
  apply changes_keyed models
  · intro failure refused
    rw [Maps.answer, refused]
    rfl
  intro key index encoded models
  have after : maps.after codec (.remove value id) =
      ⟨maps.forward.remove key id, maps.reverse.remove (entryKey id) key⟩ := by
    rw [Maps.after, encoded]
  have proper : maps.forward.Proper := models.forward.view_eq ▸ models.forward.coherent.proper
  have forwardFits : SetsFitFormat codec maps (.remove value id) → maps.forward.Fits .uint64 :=
    fun setsFit => setsFit.1.forward
  have reverseFits : SetsFitFormat codec maps (.remove value id) → maps.reverse.Fits .bytes :=
    fun setsFit => setsFit.1.reverse
  rw [Changes, Action.meets_bind, meets_onForward]
  apply Action.Meets.mono (SetTable.remove_models models.forward forwardFits)
  · rintro removed forward ⟨quiet, reached, wasThere, further, shrunk⟩
    have fewer : (Sequence.erase compare id (maps.forward.setOf key)).length ≤
        (maps.forward.setOf key).length := List.length_filter_le _ _
    have withinLimit : index.forward.layout.InlineWithinLimit → forward.layout.InlineWithinLimit :=
      fun withinLimit => shrunk.withinLimit withinLimit (models.forward.view_eq ▸ fewer)
    rw [Action.meets_bind, Action.meets_attempt, meets_onReverse]
    apply Action.Meets.mono (SetTable.remove_models models.reverse reverseFits)
    · rintro _ reverse ⟨calm, _, _, reversed, _⟩
      refine ⟨⟨⟨rfl, rfl, rfl, quiet.toKept, calm.toKept⟩, quiet.failures_eq, calm.failures_eq⟩, ?_, ?_,
        withinLimit⟩
      · rw [Maps.answer, encoded, wasThere]
        rfl
      · rw [after]
        exact ⟨models.codec_eq, further.later (Nat.le_succ ids), reversed.later (Nat.le_succ ids)⟩
    · rintro failure reverse ⟨rough, reversed, _⟩
      have reversed := reversed.later (Nat.le_succ ids)
      cases removed with
      | false =>
        have absent := wasThere.symm
        rw [SetMap.remove_eq_self proper absent] at further
        apply Undone.of_rolledBack models quiet rough reversed
        exact fun storesOpen =>
          .refl (withinLimit storesOpen.withinLimit) (further.later (Nat.le_succ ids))
      | true =>
        have present := wasThere.symm
        have shorter := Sequence.length_erase (proper.ascending key) present
        have taken : Removed maps.forward [key] id := by
          refine ⟨List.nodup_singleton key, fun other member => ?_⟩
          rw [List.mem_singleton.1 member]
          exact present
        dsimp only
        rw [if_pos rfl]
        apply restore_undoes models room taken quiet further rough reversed
        intro storesOpen
        apply storesOpen.restorable.add reached quiet shrunk
        rw [models.forward.view_eq]
        omega
  · rintro failure forward ⟨rough, further, settled⟩
    apply Undone.of_settled (Nat.le_succ ids)
    · exact (Rough.onForward rough).mono And.left
    · exact models.withForward further
    · exact settled.withinLimit

theorem dropEntry_changes (id : UInt64) (models : Models codec maps ids index)
    (room : ids + 1 < 2 ^ 64) :
    Changes name codec maps ids (.dropEntry id) (dropEntry id) .number index := by
  apply changes_open models
  intro index models
  have reverseFits : SetsFitFormat codec maps (.dropEntry id) → maps.reverse.Fits .bytes :=
    fun setsFit => setsFit.1.reverse
  have reads : Does (onReverse (SetTable.elements (entryKey id))) index
      (Unexplained name codec maps (.dropEntry id))
      (fun answer after => (answer.map OrderedSet.toList = maps.reverse.find? (entryKey id) ∧
        ∀ set, answer = some set → set.Ordered) ∧ Settled index after) (Settled index) :=
    readReverse_does models (SetTable.elements_models models.reverse Maps.Fits.reverse)
      fun _ unexplained => unexplained.1.1
  apply changes_bind models reads
  rintro keys? index ⟨found, ordered⟩ models
  have listed := SetTable.setOf_of_elements found
  cases keys? with
  | none =>
    have nothing : maps.reverse.setOf (entryKey id) = [] := listed
    have proper : maps.reverse.Proper := models.reverse.view_eq ▸ models.reverse.coherent.proper
    have after : maps.after codec (.dropEntry id) = maps := by
      rw [Maps.after, SetMap.take, ← nothing, proper.store_setOf, nothing]
      rfl
    refine ⟨.refl index, ?_, ?_, fun withinLimit => withinLimit⟩
    · rw [Maps.answer, nothing]
      rfl
    · rw [after]
      exact models.later (Nat.le_succ ids)
  | some keys =>
    have proper : maps.forward.Proper := models.forward.view_eq ▸ models.forward.coherent.proper
    have keysListed : maps.reverse.setOf (entryKey id) = keys.toList := listed
    have after : maps.after codec (.dropEntry id) =
        ⟨maps.forward.removeAll keys.toList id, maps.reverse.take (entryKey id)⟩ := by
      rw [Maps.after, keysListed]
    rw [Changes, Action.meets_bind]
    have none : Removed maps.forward [] id :=
      ⟨List.nodup_nil, fun _ member => absurd member List.not_mem_nil⟩
    apply (removeForward_meets none proper models.forward room).mono
    · rintro removed _ ⟨forward, rfl, withdrawn⟩
      rw [Action.meets_bind, Action.meets_attempt, meets_onReverse]
      apply Action.Meets.mono (SetTable.take_models models.reverse reverseFits)
      · rintro _ reverse ⟨calm, _, reversed⟩
        have quiet := withdrawn.quiet
        refine ⟨⟨⟨rfl, rfl, rfl, quiet.toKept, calm.toKept⟩, quiet.failures_eq, calm.failures_eq⟩, ?_,
          ?_, withdrawn.withinLimit⟩
        · rw [Maps.answer, keysListed, (ordered keys rfl).size_eq]
          rfl
        · rw [after]
          have further := withdrawn.models
          rw [withdrawn.aligned] at further
          exact ⟨models.codec_eq, further.later (Nat.le_succ ids), reversed.later (Nat.le_succ ids)⟩
      · rintro failure reverse ⟨rough, reversed⟩
        have reversed := reversed.later (Nat.le_succ ids)
        apply restore_undoes models room withdrawn.taken withdrawn.quiet withdrawn.models rough
          reversed
        exact fun storesOpen => withdrawn.restorable storesOpen.restorable
    · exact fun failure _ withheld => .of_withheld models withheld

theorem Changes.answering {α : Type} {action : Action (Index σ V) Error α} {wrap : α → Answer V}
    (changes : Changes name codec maps ids request action wrap index) :
    Changes name codec maps ids request (do return wrap (← action)) (fun answer => answer) index := by
  rw [Changes, Action.meets_bind]
  exact Action.Meets.mono changes (fun _ _ performed => performed) fun _ _ undone => undone

theorem Reads.changes {α : Type} {action : Action (Index σ V) Error α} {wrap : α → Answer V}
    (reads : Reads name codec maps ids request action wrap) (reading : request.isReading = true)
    (models : Models codec maps ids index) (named : index.config.attributeId = name) :
    Changes name codec maps ids request action wrap index := by
  apply Action.Meets.mono (reads index models named)
  · intro result after ⟨quiet, answered, settled⟩
    refine ⟨quiet, answered, ?_, settled.forward.withinLimit⟩
    rw [Maps.after_of_isReading reading]
    exact (models.settled settled).later (Nat.le_succ ids)
  · intro failure after ⟨rough, settled⟩
    apply Undone.of_settled (Nat.le_succ ids) _ (models.settled settled) settled.forward.withinLimit
    exact rough.mono fun ⟨setsFit, unforeseen⟩ => ⟨setsFit.1, unforeseen⟩

theorem perform_changes (request : Request V) (models : Models codec maps ids index)
    (named : index.config.attributeId = name) (room : ids + 1 < 2 ^ 64) :
    Changes name codec maps ids request request.perform (fun answer => answer) index := by
  cases reading : request.isReading with
  | true => exact (reads_perform reading).changes reading models named
  | false =>
    cases request with
    | add value id => exact (add_changes value id models room).answering
    | remove value id => exact (remove_changes value id models room).answering
    | dropEntry id => exact (dropEntry_changes id models room).answering
    | _ => cases reading

end AttributeIndex.Index
