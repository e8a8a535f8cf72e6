import AttributeIndex.Proofs.SetTable.Calls

namespace AttributeIndex

open Observed
open SetTable (recordKey headerId)

namespace Layout

variable {D : Type} [Ord D]

/-- Where the sets of a table are whose cache has the given capacity. -/
structure Represents (limit capacity : Nat) (layout : Layout D) : Prop where
  slots : ∀ key bytes, layout.slots.find? key = some bytes →
    (∃ set, layout.slot? key = some (.inline set) ∧
      1 ≤ set.toList.length ∧ set.toList.length ≤ limit) ∨
    ∃ id, layout.Leads key id ∧ 1 ≤ id.toNat ∧ id.toNat < layout.nextId.toNat
  records : ∀ key id, layout.Leads key id → ∃ list, list ≠ [] ∧ layout.current? id = some list ∧
    (layout.stored? id = some list ∨ layout.Waits id)
  clean : ∀ id cached, layout.sets.find? id = some cached → cached.dirty = false →
    layout.stored? id = some cached.set.toList
  owned : ∀ id cached, layout.sets.find? id = some cached → ∃ key, layout.Leads key id
  size_le : layout.sets.capacity = capacity ∧ layout.sets.size ≤ capacity

/-- Exactly one slot leads to each record, except the header. -/
def Exact (layout : Layout D) : Prop :=
  ∀ record bytes, layout.records.find? record = some bytes → record ≠ recordKey headerId →
    ∃ id, record = recordKey id ∧ ∃! key, layout.Leads key id

variable {layout : Layout D}

theorem Coherent.represents (coherent : layout.Coherent) (withinLimit : layout.InlineWithinLimit) :
    Represents layout.limit layout.sets.capacity layout where
  slots key bytes found := by
    obtain ⟨slot, list, parsed, held, nonempty⟩ := coherent.holds key bytes found
    cases slot with
    | inline set =>
      cases held
      exact .inl ⟨set, parsed, List.length_pos_of_ne_nil nonempty, withinLimit.length_le key set parsed⟩
    | overflow redirect => exact .inr ⟨redirect.recordId, parsed, coherent.issued key _ parsed⟩
  records key id leads := by
    obtain ⟨current, nonempty⟩ := coherent.current_of_leads leads
    refine ⟨_, nonempty, current, ?_⟩
    by_cases waits : layout.Waits id
    · exact .inr waits
    · exact .inl ((coherent.stored_of_idle waits).trans current)
  clean id cached found := (coherent.backs id cached found).clean
  owned id cached found := (coherent.backs id cached found).owned
  size_le := ⟨rfl, coherent.bounded.size_le⟩

theorem Coherent.exact (coherent : layout.Coherent) (noStray : layout.NoStrayRecord) :
    layout.Exact := by
  intro record bytes located other
  obtain ⟨id, rfl, _⟩ := coherent.filed.numbered record bytes located
  obtain ⟨key, leads⟩ := noStray id bytes (fun same => other (congrArg recordKey same)) located
  exact ⟨id, rfl, key, leads, fun _ also => coherent.distinct _ key id also leads⟩

end Layout

namespace SetTable

open Layout

variable {σ D : Type} [Ord D] [Table σ] {codec : Codec D} {map : SetMap D} {ids : Nat}
  {table : SetTable σ D}

variable [Std.TransOrd D] [LawfulTable σ]

theorem Ran.stored_of_gone {before after : SetTable σ D} (ran : Ran before after)
    (coherent : before.layout.Coherent) {id : UInt64} {cached : CachedSet D}
    (found : before.sets.find? id = some cached) (gone : after.sets.find? id = none) :
    after.layout.stored? id = some cached.set.toList ∨ ∀ key, ¬ after.layout.Leads key id := by
  rcases ran.passes with pass | ⟨_, slip, _⟩
  · exact pass.stored_of_gone coherent found gone
  · exact .inl (slip.stored_of_gone coherent found gone)

omit [Std.TransOrd D] in
theorem Resumed.of_initial {limit : Nat} {stores : Stores σ} (limited : 0 < limit)
    (resumed : Resumed (Layout.initial codec) limit stores table)
    (noRecords : contents stores.overflow = .empty) :
    table.layout.InlineWithinLimit ∧ table.layout.NoStrayRecord ∧ table.layout.Recorded := by
  have noSlot : ∀ key, table.layout.slot? key = none := by
    intro key
    rw [slot?, resumed.slots_eq]
    rfl
  have noRecord : table.layout.records = .empty :=
    resumed.still.overflow.contents_eq.trans noRecords
  refine ⟨⟨resumed.limit_eq ▸ limited, fun key set slot => ?_⟩, fun id bytes _ located => ?_,
    fun key id leads => ?_⟩
  · cases (noSlot key).symm.trans slot
  · rw [noRecord] at located
    cases located
  · cases (noSlot key).symm.trans leads

/-- Through one handle over stores that were empty, every set is in its slot or in its record, or
waits in the cache, after any calls and whichever store calls failed. A set leaves the cache only when
it is in its record or has been given up. And if no store call failed, no record is left over. Record
ids have 64 bits, so there must be fewer calls. -/
theorem afterCalls_represents (faithful : codec.Faithful) {stores left : Stores σ}
    (noSlots : contents stores.primary = .empty) (noRecords : contents stores.overflow = .empty)
    {name : String} {limit cacheSize : Nat} {opened : SetTable σ D}
    (opening : openOver name codec limit cacheSize stores = (.ok opened, left))
    (history : List (Call D)) (short : history.length + 2 < 2 ^ 64) :
    (opened.afterCalls history).layout.Represents limit cacheSize ∧
      (∀ (call : Call D) id cached, (opened.afterCalls history).sets.find? id = some cached →
        (call.perform (opened.afterCalls history)).2.sets.find? id = none →
          (call.perform (opened.afterCalls history)).2.layout.stored? id = some cached.set.toList ∨
          ∀ key, ¬ (call.perform (opened.afterCalls history)).2.layout.Leads key id) ∧
      (failures (opened.afterCalls history) = failures opened →
        (opened.afterCalls history).layout.Exact) := by
  obtain ⟨limited, _⟩ := settings_of_openOver opening
  have resumed := resumed_of_empty faithful noSlots noRecords opening
  have start := resumed.models (models_initial faithful)
  obtain ⟨withinLimit, noStray, _⟩ := resumed.of_initial limited noRecords
  obtain ⟨map, models⟩ := afterCalls_models history start (by omega)
  have persists := afterCalls_persists history start (by omega)
  have represents := models.coherent.represents (persists.withinLimit withinLimit)
  obtain ⟨_, _, sets_eq, limit_eq, _⟩ :=
    (openOver_browses name codec limit cacheSize stores).ok_of opening
  have sameLimit : (opened.afterCalls history).layout.limit = limit :=
    persists.fixed.limit_eq.trans limit_eq
  have sameCapacity : (opened.afterCalls history).layout.sets.capacity = cacheSize :=
    persists.fixed.capacity_eq.trans (congrArg Lru.capacity sets_eq)
  rw [sameLimit, sameCapacity] at represents
  refine ⟨represents, fun call id cached found gone => ?_, fun quiet => ?_⟩
  · exact (call_ran call models.coherent.cacheOrdered).stored_of_gone models.coherent found gone
  · exact models.coherent.exact (persists.noStray quiet noStray)

theorem afterCalls_represents_move :
    openOver "ids" .uint64 1 1 fullStores =
        (.ok (overEmpty "ids" .uint64 1 fullStores), (overEmpty "ids" .uint64 1 fullStores).stores) ∧
      ((overEmpty "ids" .uint64 1 fullStores).afterCalls
        [.ask (.put [7] 5), .ask (.put [7] 3)]).layout.Represents 1 1 := by
  have opening : openOver "ids" .uint64 1 1 fullStores =
      (.ok (overEmpty "ids" .uint64 1 fullStores), _) := rfl
  obtain ⟨represents, _, _⟩ := afterCalls_represents Codec.uint64_faithful rfl rfl opening
    [.ask (.put [7] 5), .ask (.put [7] 3)] (by decide)
  exact ⟨opening, represents⟩

end SetTable

end AttributeIndex
