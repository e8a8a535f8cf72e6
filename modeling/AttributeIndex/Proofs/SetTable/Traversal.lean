import AttributeIndex.Proofs.SetTable.Operations
import AttributeIndex.Proofs.Table.Scanning

namespace AttributeIndex.SetTable

open Observed Layout

section Loops

variable {σ D ι : Type} [Ord D] [Observed σ] {table : SetTable σ D} {fit : Prop}
  {failed : Layout D → Prop}

theorem does_forM {work : ι → Action (SetTable σ D) Error Unit} (kept : List ι → Layout D → Prop)
    (step : ∀ element rest (table : SetTable σ D), kept (element :: rest) table.layout →
      Does (work element) table fit (fun _ after => kept rest after) failed)
    (list : List ι) (start : kept list table.layout) :
    Does (list.forM work) table fit (fun _ after => kept [] after) failed := by
  induction list generalizing table with
  | nil => exact does_pure start
  | cons element rest ih =>
    refine does_bind (step element rest table start) fun _ after _ further => ?_
    exact ih further

end Loops

variable {σ D : Type} [Ord D] [Table σ] [LawfulTable σ] {table : SetTable σ D} {fit : Prop}

theorem keysFrom_meets {limit : Nat} {scan : Scan σ} {rest : List (Bytes × Bytes)}
    (stands : Scan.Stands scan rest) (enough : rest.length < limit) :
    (keysFrom limit).Meets scan
      (fun keys after => keys = rest.map Prod.fst ∧ Unchanged scan.table after.table)
      (fun _ after => Refused scan.table after.table) := by
  induction limit generalizing scan rest with
  | zero => omega
  | succ limit ih =>
    rw [keysFrom, Action.meets_bind]
    refine (Scan.next_meets stands).mono ?_ fun _ _ refused => refused
    intro moved after ⟨same, landed⟩
    cases rest with
    | nil =>
      subst landed
      exact ⟨rfl, same⟩
    | cons entry rest =>
      obtain ⟨rfl, here, further⟩ := landed
      simp only [if_true]
      rw [Action.meets_bind, Action.meets_query, here]
      dsimp only
      rw [Action.meets_bind]
      refine (ih further (by simpa using enough)).mono ?_ fun _ _ refused => same.refused refused
      rintro keys last ⟨rfl, still⟩
      exact ⟨rfl, same.trans still⟩

theorem keys_does {name : String} :
    Does (onStores (Stores.onPrimary id
        (Table.scanning (.io name) (keysFrom (table.keyCount + 1))))) table fit
      (fun keys after => keys = table.layout.view.keys ∧ after = table.layout)
      (fun after => after = table.layout) := by
  rw [Does, onStores, Action.meets_on, Stores.onPrimary, Action.meets_on, Table.meets_scanning]
  refine (LawfulTable.beginScan table.stores.primary).mono ?_ ?_
  · rintro _ begun ⟨opened, stays, counted, done⟩
    have same : Unchanged table.stores.primary begun :=
      ⟨congrArg Prod.snd done, stays.trans opened.symm, counted⟩
    have enough : (contents begun).entries.length < table.keyCount + 1 := by
      rw [same.contents_eq, keyCount, LawfulTable.size_eq]
      exact Nat.lt_succ_self _
    refine (keysFrom_meets (.start rfl) enough).mono ?_ ?_
    · rintro keys after ⟨rfl, still⟩
      have kept := same.trans still
      refine ⟨⟨⟨rfl, rfl, kept.isOpen_eq, rfl⟩, ?_⟩, ?_, ?_⟩
      · exact congrArg (· + Observed.failures table.stores.overflow) kept.failures_eq
      · rw [keys_view]
        exact congrArg SortedMap.keys same.contents_eq
      · exact congrArg (fun slots => { table.layout with slots }) kept.contents_eq
    · intro failure after refused
      have refused := same.refused refused
      refine ⟨⟨⟨rfl, rfl, refused.isOpen_eq, rfl⟩, ?_, fun live _ => ?_⟩, ?_⟩
      · exact Nat.add_le_add_right refused.failures_le _
      · exact Nat.add_lt_add_right (refused.failures_lt live.primary) _
      · exact congrArg (fun slots => { table.layout with slots }) refused.contents_eq
  · intro failure after refused
    refine ⟨⟨⟨rfl, rfl, refused.isOpen_eq, rfl⟩, ?_, fun live _ => ?_⟩, ?_⟩
    · exact Nat.add_le_add_right refused.failures_le _
    · exact Nat.add_lt_add_right (refused.failures_lt live.primary) _
    · exact congrArg (fun slots => { table.layout with slots }) refused.contents_eq

variable [Std.TransOrd D]

theorem elementsOf_moves {keys : List Bytes} (cache : table.layout.CacheOrdered)
    (sound : fit → table.layout.Sound) :
    Does (elementsOf keys) table fit
      (fun answer after => Moves table.layout after ∧
        (table.layout.Coherent → answer.map (fun entry => (entry.1, entry.2.toList)) =
          (keys.filterMap fun key => (table.layout.view.find? key).map (key, ·))) ∧
        ∀ entry ∈ answer, entry.2.Ordered)
      (Moves table.layout) := by
  induction keys generalizing table with
  | nil => exact does_pure ⟨.refl, fun _ => rfl, fun _ member => absurd member List.not_mem_nil⟩
  | cons key keys ih =>
    refine does_bind ((elements_moves cache sound).mono (fun _ _ done => done) fun _ left => left) ?_
    intro answer after _ ⟨moves, _, found, ordered⟩
    have found : table.layout.Coherent →
        answer.map OrderedSet.toList = table.layout.view.find? key := by
      intro coherent
      have settled := Settled.of_moves coherent moves
      rw [found, ← settled.coherent.find?_view, settled.view_eq]
    have later : fit → after.layout.Sound := fun fit => moves.sound (sound fit)
    have rest := ih (moves.cacheOrdered cache) later
    cases answer with
    | none =>
      refine rest.mono ?_ fun _ => moves.trans
      rintro rest last ⟨further, listed, all⟩
      refine ⟨moves.trans further, fun coherent => ?_, all⟩
      have settled := Settled.of_moves coherent moves
      rw [listed settled.coherent, settled.view_eq,
        List.filterMap_cons_none (by rw [← found coherent]; rfl)]
    | some set =>
      refine does_bind (rest.mono (fun _ _ done => done) fun _ => moves.trans) ?_
      intro rest last _ ⟨further, listed, all⟩
      refine does_pure ⟨moves.trans further, fun coherent => ?_,
        List.forall_mem_cons.2 ⟨ordered set rfl, all⟩⟩
      have settled := Settled.of_moves coherent moves
      have head : (table.layout.view.find? key).map (key, ·) = some (key, set.toList) := by
        rw [← found coherent]
        rfl
      simp only [List.map_cons, listed settled.coherent, settled.view_eq, List.filterMap_cons, head]

theorem slots_moves (cache : table.layout.CacheOrdered) (sound : fit → table.layout.Sound) :
    Does slots table fit
      (fun answer after => Moves table.layout after ∧
        (table.layout.Coherent →
          answer.map (fun entry => (entry.1, entry.2.toList)) = table.layout.view.entries) ∧
        ∀ entry ∈ answer, entry.2.Ordered)
      (Moves table.layout) := by
  refine does_bind (requireOpen_does.mono (fun _ _ done => done) ?_) fun _ opened _ ⟨_, same⟩ => ?_
  · rintro _ rfl
    exact .refl
  refine does_get_bind ?_
  refine does_bind (keys_does.mono (fun _ _ done => done) ?_) fun keys after _ ⟨listed, still⟩ => ?_
  · rintro _ rfl
    exact same ▸ .refl
  have unchanged := still.trans same
  rw [← unchanged] at cache sound ⊢
  refine (elementsOf_moves cache sound).mono ?_ fun _ left => left
  rintro answer last ⟨moves, elements, ordered⟩
  refine ⟨moves, fun coherent => ?_, ordered⟩
  rw [elements coherent, listed, ← still, SortedMap.filterMap_keys]

theorem slots_does (coherent : table.layout.Coherent)
    (fits : fit → table.layout.view.Fits table.layout.codec) :
    Does slots table fit
      (fun answer after => Settled table.layout after ∧
        answer.map (fun entry => (entry.1, entry.2.toList)) = table.layout.view.entries ∧
        ∀ entry ∈ answer, entry.2.Ordered)
      (Settled table.layout) := by
  refine ((slots_moves coherent.cacheOrdered fun fit => ⟨coherent, fits fit⟩).settled coherent).mono ?_
    fun _ left => left
  rintro answer after ⟨settled, listed, ordered⟩
  exact ⟨settled, listed coherent, ordered⟩

def Clean (layout : Layout D) : Prop :=
  ∀ id cached, layout.sets.find? id = some cached → cached.dirty = false

theorem writeBackAll_moves (cache : table.layout.CacheOrdered)
    (flushable : fit → table.layout.Flushable) :
    Does (table.sets.keys.forM writeBack) table fit
      (fun _ after => Moves table.layout after ∧ Clean after) (Moves table.layout) := by
  have start : ∀ id, table.layout.Waits id → id ∈ table.sets.keys := by
    rintro id ⟨cached, found, -⟩
    exact Lru.mem_keys.2 (Option.isSome_of_eq_some found)
  -- All sets that wait are among those still to be written back.
  refine (does_forM (fun left layout => Moves table.layout layout ∧
    ∀ id, layout.Waits id → id ∈ left) ?_ _ ⟨.refl, start⟩).mono ?_ fun _ left => left
  · intro id rest middle ⟨moves, pending⟩
    refine (writeBack_moves (moves.cacheOrdered cache)
      fun fit => moves.flushable (flushable fit)).mono ?_ fun _ => moves.trans
    rintro _ after ⟨further, idle, others⟩
    refine ⟨moves.trans further, fun other waits => ?_⟩
    have different : other ≠ id := fun same => idle (same ▸ waits)
    obtain ⟨cached, found, dirty⟩ := waits
    rw [others other different] at found
    exact (List.mem_cons.1 (pending other ⟨cached, found, dirty⟩)).resolve_left different
  · rintro _ after ⟨moves, pending⟩
    refine ⟨moves, fun id cached found => ?_⟩
    cases dirty : cached.dirty with
    | false => rfl
    | true => exact absurd (pending id ⟨cached, found, dirty⟩) List.not_mem_nil

theorem sync_moves (cache : table.layout.CacheOrdered) (flushable : fit → table.layout.Flushable) :
    Does sync table fit (fun _ after => Moves table.layout after ∧ Clean after)
      (Moves table.layout) := by
  refine does_bind (requireOpen_does.mono (fun _ _ done => done) ?_) fun _ opened _ ⟨_, same⟩ => ?_
  · rintro _ rfl
    exact .refl
  rw [← same] at cache flushable ⊢
  refine does_get_bind ?_
  refine does_bind ((writeBackAll_moves cache flushable).mono (fun _ _ done => done) fun _ left => left)
    fun _ written _ ⟨moves, clean⟩ => ?_
  refine does_bind (writeHeader_moves.mono (fun _ _ done => done) fun _ => moves.trans)
    fun _ announced _ ⟨further, sets⟩ => ?_
  have moves := moves.trans further
  rw [Clean, ← sets] at clean
  refine does_bind ((onPrimary_does LawfulTable.sync).mono (fun _ _ done => done) ?_) ?_
  · rintro _ rfl
    exact moves
  intro _ durable _ ⟨_, _, unchanged⟩
  have unchanged : durable.layout = announced.layout := unchanged
  refine (onOverflow_does LawfulTable.sync).mono ?_ ?_
  · intro _ last ⟨_, still⟩
    have still : last = announced.layout := still.trans unchanged
    rw [still]
    exact ⟨moves, clean⟩
  · rintro _ rfl
    rw [unchanged]
    exact moves

theorem sync_does (coherent : table.layout.Coherent)
    (fits : fit → table.layout.view.Fits table.layout.codec) :
    Does sync table fit (fun _ after => Settled table.layout after ∧ Clean after)
      (Settled table.layout) :=
  (sync_moves coherent.cacheOrdered fun fit => Sound.flushable ⟨coherent, fits fit⟩).settled coherent

/-! ## Closing -/

omit [Std.TransOrd D] in
theorem closePrimary_meets (fit : Prop) :
    (onPrimary Table.close : Action (SetTable σ D) Error Unit).Meets table
      (fun _ after => after.layout = table.layout ∧ after.isClosed = table.isClosed ∧
        isOpen after.stores.overflow = isOpen table.stores.overflow ∧
        failures after = failures table)
      (fun _ after => Rough fit table after ∧ after.layout = table.layout) := by
  rw [onPrimary, Action.meets_bind, Action.meets_get, onStores, Action.meets_on, Stores.onPrimary,
    Action.meets_on]
  refine (LawfulTable.close table.stores.primary).mono ?_ ?_
  · rintro _ after ⟨kept, _, counted⟩
    refine ⟨?_, rfl, rfl, ?_⟩
    · exact congrArg (fun slots => { table.layout with slots }) kept
    · exact congrArg (· + Observed.failures table.stores.overflow) counted
  · intro _ after refused
    refine ⟨⟨⟨rfl, rfl, refused.isOpen_eq, rfl⟩, ?_, fun live _ => ?_⟩, ?_⟩
    · exact Nat.add_le_add_right refused.failures_le _
    · exact Nat.add_lt_add_right (refused.failures_lt live.primary) _
    · exact congrArg (fun slots => { table.layout with slots }) refused.contents_eq

omit [Std.TransOrd D] in
theorem closeOverflow_meets :
    (onOverflow Table.close : Action (SetTable σ D) Error Unit).Meets table
      (fun _ after => after.layout = table.layout ∧ failures after = failures table)
      (fun _ after => after.layout = table.layout ∧ after.isClosed = table.isClosed ∧
        isOpen after.stores.overflow = isOpen table.stores.overflow ∧
        failures table ≤ failures after ∧
        (isOpen table.stores.overflow = true → failures table < failures after)) := by
  rw [onOverflow, Action.meets_bind, Action.meets_get, onStores, Action.meets_on, Stores.onOverflow,
    Action.meets_on]
  refine (LawfulTable.close table.stores.overflow).mono ?_ ?_
  · rintro _ after ⟨kept, _, counted⟩
    refine ⟨?_, ?_⟩
    · exact congrArg (fun records => { table.layout with records }) kept
    · exact congrArg (Observed.failures table.stores.primary + ·) counted
  · intro _ after refused
    refine ⟨?_, rfl, refused.isOpen_eq, ?_, fun opened => ?_⟩
    · exact congrArg (fun records => { table.layout with records }) refused.contents_eq
    · exact Nat.add_le_add_left refused.failures_le _
    · exact Nat.add_lt_add_left (refused.failures_lt opened) _

omit [Std.TransOrd D] in
theorem closeStores_meets (fit : Prop) :
    (do
      onPrimary Table.close
      onOverflow Table.close
      modify fun table => { table with isClosed := true } : Action (SetTable σ D) Error Unit).Meets table
      (fun _ after => after.layout = table.layout ∧ failures after = failures table ∧
        after.isClosed = true)
      (fun _ after => after.layout = table.layout ∧ after.isClosed = table.isClosed ∧
        isOpen after.stores.overflow = isOpen table.stores.overflow ∧
        failures table ≤ failures after ∧ (table.Live → fit → failures table < failures after)) := by
  rw [Action.meets_bind]
  refine (closePrimary_meets fit).mono ?_ ?_
  · rintro _ half ⟨same, stillOpen, overflow, counted⟩
    rw [Action.meets_bind]
    refine closeOverflow_meets.mono ?_ ?_
    · rintro _ last ⟨still, lastCounted⟩
      rw [Action.meets_modify]
      exact ⟨still.trans same, lastCounted.trans counted, rfl⟩
    · rintro _ last ⟨still, lastClosed, lastOverflow, atLeast, more⟩
      refine ⟨still.trans same, lastClosed.trans stillOpen, lastOverflow.trans overflow,
        counted ▸ atLeast, fun live _ => ?_⟩
      rw [← counted]
      exact more (overflow.trans live.overflow)
  · rintro _ left ⟨rough, same⟩
    exact ⟨same, rough.isClosed_eq, rough.overflow_eq, rough.failures_le, rough.blame⟩

omit [Std.TransOrd D] in
theorem Clean.moves_clear {layout : Layout D} (clean : Clean layout) (cache : layout.CacheOrdered) :
    Moves layout { layout with sets := layout.sets.clear } :=
  .single (.recache (Lru.bounded_clear cache.bounded) rfl fun id => .inr ⟨Lru.find?_clear, clean id⟩)

theorem close_moves (cache : table.layout.CacheOrdered) (flushable : fit → table.layout.Flushable) :
    close.Meets table
      (fun _ after => failures after = failures table ∧ Moves table.layout after.layout ∧
        after.isClosed = true ∧
        (table.isClosed = false → ∀ id, after.layout.sets.find? id = none))
      (fun _ after => failures table ≤ failures after ∧
        (table.Live → fit → failures table < failures after) ∧
        Moves table.layout after.layout ∧ table.isClosed = false ∧ after.isClosed = false ∧
        isOpen after.stores.overflow = isOpen table.stores.overflow) := by
  rw [close, Action.meets_bind, Action.meets_get]
  split
  · rename_i shut
    refine ⟨rfl, .refl, shut, fun opened => ?_⟩
    rw [opened] at shut
    cases shut
  · rename_i opened
    have opened := Bool.eq_false_of_not_eq_true opened
    rw [Action.meets_bind]
    refine Action.Meets.mono (sync_moves cache flushable) ?_ ?_
    · rintro _ synced ⟨quiet, moves, clean⟩
      rw [Action.meets_bind, Action.meets_modify]
      have cleared : SetTable.Quiet table { synced with sets := synced.sets.clear } :=
        ⟨⟨quiet.name_eq, quiet.isClosed_eq, quiet.primary_eq, quiet.overflow_eq⟩, quiet.failures_eq⟩
      have moves : Moves table.layout
          ({ synced with sets := synced.sets.clear } : SetTable σ D).layout :=
        moves.trans (clean.moves_clear (moves.cacheOrdered cache))
      rw [← cleared.failures_eq]
      refine (closeStores_meets fit).mono ?_ ?_
      · rintro _ last ⟨same, counted, shut⟩
        rw [same]
        exact ⟨counted, moves, shut, fun _ _ => rfl⟩
      · rintro _ last ⟨same, stillOpen, overflow, atLeast, more⟩
        rw [same]
        exact ⟨atLeast, fun live => more (cleared.live_iff.2 live), moves, opened,
          stillOpen.trans (cleared.isClosed_eq.trans opened), overflow.trans cleared.overflow_eq⟩
    · rintro _ left ⟨rough, moves⟩
      exact ⟨rough.failures_le, rough.blame, moves, opened, rough.isClosed_eq.trans opened,
        rough.overflow_eq⟩

theorem close_meets (coherent : table.layout.Coherent)
    (fits : fit → table.layout.view.Fits table.layout.codec) :
    close.Meets table
      (fun _ after => failures after = failures table ∧ Settled table.layout after.layout ∧
        after.isClosed = true ∧
        (table.isClosed = false → ∀ id, after.layout.sets.find? id = none))
      (fun _ after => failures table ≤ failures after ∧
        (table.Live → fit → failures table < failures after) ∧
        Settled table.layout after.layout ∧ table.isClosed = false ∧ after.isClosed = false ∧
        isOpen after.stores.overflow = isOpen table.stores.overflow) :=
  (close_moves coherent.cacheOrdered fun fit => Sound.flushable ⟨coherent, fits fit⟩).mono
    (fun _ _ ⟨counted, moves, rest⟩ => ⟨counted, .of_moves coherent moves, rest⟩)
    fun _ _ ⟨atLeast, blame, moves, rest⟩ => ⟨atLeast, blame, .of_moves coherent moves, rest⟩

end AttributeIndex.SetTable
