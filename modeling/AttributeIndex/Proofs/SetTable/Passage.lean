import AttributeIndex.Proofs.SetTable.Course

/-!
What one call can do to the slots, the records and the cache, and what it keeps.

A call passes from one layout to the next by moves and at most one change of a set. It slips if it
leaves a record that nothing leads to, or loses the record of a set while its slot stays.
-/

namespace AttributeIndex

open SetTable (recordKey headerId)

namespace Layout

variable {D : Type} [Ord D]

inductive Pass : Layout D → Layout D → Prop
  | moved {before after : Layout D} (moves : Moves before after) : Pass before after
  | changed {before middle changed : Layout D} {key : Bytes} {list : List D}
      (prepared : Prepared key before middle) (change : Change key list middle changed)
      (count : Nat) : Pass before { changed with count }

/-- What is left half done, with the key whose set has lost its record if one has. -/
inductive Slip : Option Bytes → Layout D → Layout D → Prop
  | orphaned {before middle after : Layout D} {key : Bytes} (moves : Moves before middle)
      (orphan : Orphan key middle after) : Slip none before after
  | unfiled {before middle after : Layout D} {key : Bytes} (moves : Moves before middle)
      (unfile : Unfile key middle after) : Slip (some key) before after

/-- Something leads to every record, except the header. -/
def NoStrayRecord (layout : Layout D) : Prop :=
  ∀ id bytes, id ≠ headerId → layout.records.find? (recordKey id) = some bytes →
    ∃ key, layout.Leads key id

/-- Every set that has moved can be read from its record, if perhaps as it was earlier. -/
def Recorded (layout : Layout D) : Prop :=
  ∀ key id, layout.Leads key id → ∃ list, layout.stored? id = some list ∧ list ≠ []

structure Fitted (layout : Layout D) : Prop where
  inline : ∀ key set, layout.slot? key = some (.inline set) → layout.codec.Fits set.toList
  stored : ∀ key id list, layout.Leads key id → layout.stored? id = some list →
    layout.codec.Fits list

variable {before middle after : Layout D} {key : Bytes} {list : List D} {lost : Option Bytes}

theorem Pass.of_course (prepared : Prepared key before middle) (course : Course key middle after) :
    Pass before after := by
  cases course with
  | idle => exact .moved prepared.moves
  | change change count => exact .changed prepared change count

/-! ## Slots and the cache -/

theorem Change.slot?_of_ne (change : Change key list before after) {other : Bytes}
    (different : other ≠ key) : after.slot? other = before.slot? other := by
  cases change with
  | write => exact (slot?_insert key other _).trans (if_neg different)
  | drop => exact (slot?_erase key other).trans (if_neg different)
  | rewrite => rfl
  | migrate => exact (slot?_insert key other _).trans (if_neg different)
  | release => exact (slot?_erase key other).trans (if_neg different)

theorem Orphan.slot?_eq (orphan : Orphan key before after) (other : Bytes) :
    after.slot? other = before.slot? other := by
  cases orphan <;> rfl

theorem Orphan.sets_eq (orphan : Orphan key before after) : after.sets = before.sets := by
  cases orphan <;> rfl

theorem Unfile.slot?_eq (unfile : Unfile key before after) (other : Bytes) :
    after.slot? other = before.slot? other := by
  cases unfile
  rfl

theorem Unfile.nextId_eq (unfile : Unfile key before after) : after.nextId = before.nextId := by
  cases unfile
  rfl

structure Fixed (before after : Layout D) : Prop where
  limit_eq : after.limit = before.limit
  capacity_eq : after.sets.capacity = before.sets.capacity

theorem Moves.fixed (moves : Moves before after) : Fixed before after :=
  ⟨moves.alike.limit_eq, moves.alike.capacity_eq⟩

theorem Fixed.trans (first : Fixed before middle) (second : Fixed middle after) :
    Fixed before after :=
  ⟨second.limit_eq.trans first.limit_eq, second.capacity_eq.trans first.capacity_eq⟩

theorem Pass.fixed (pass : Pass before after) : Fixed before after := by
  cases pass with
  | moved moves => exact moves.fixed
  | changed prepared change count =>
    exact prepared.moves.fixed.trans ⟨change.limit_eq, change.capacity_eq⟩

theorem Slip.fixed (slip : Slip lost before after) : Fixed before after := by
  cases slip with
  | orphaned moves orphan => exact moves.fixed.trans (by cases orphan <;> exact ⟨rfl, rfl⟩)
  | unfiled moves unfile => exact moves.fixed.trans (by cases unfile; exact ⟨rfl, rfl⟩)

variable [Std.TransOrd D]

omit [Std.TransOrd D] in
theorem Change.cacheOrdered (change : Change key list before after) (cache : before.CacheOrdered) :
    after.CacheOrdered := by
  cases change with
  | write vacant ordered nonempty encoded small => exact ⟨cache.bounded, cache.ordered⟩
  | drop vacant => exact ⟨cache.bounded, cache.ordered⟩
  | @rewrite _ written _ set leads found ordered nonempty =>
    have bounded := Lru.bounded_modify cache.bounded written fun _ => ⟨set, true⟩
    refine ⟨bounded, fun id cached located => ?_⟩
    rw [Lru.find?_modify] at located
    split at located
    · obtain ⟨old, -, rfl⟩ := Option.map_eq_some_iff.1 located
      exact ordered
    · exact cache.ordered id cached located
  | migrate vacant ordered nonempty encoded notFull full =>
    refine ⟨Lru.bounded_insert cache.bounded notFull _ _, fun id cached located => ?_⟩
    rw [Lru.find?_insert notFull] at located
    split at located
    · cases located
      exact ordered
    · exact cache.ordered id cached located
  | release leads =>
    refine ⟨Lru.bounded_erase cache.bounded _, fun id cached located => ?_⟩
    rw [Lru.find?_erase] at located
    split at located
    · cases located
    · exact cache.ordered id cached located

theorem Pass.cacheOrdered (pass : Pass before after) (cache : before.CacheOrdered) :
    after.CacheOrdered := by
  cases pass with
  | moved moves => exact moves.cacheOrdered cache
  | changed prepared change count =>
    have changed := change.cacheOrdered (prepared.moves.cacheOrdered cache)
    exact ⟨changed.bounded, changed.ordered⟩

theorem Slip.cacheOrdered (slip : Slip lost before after) (cache : before.CacheOrdered) :
    after.CacheOrdered := by
  cases slip with
  | orphaned moves orphan =>
    have middle := moves.cacheOrdered cache
    cases orphan with
    | left full => exact ⟨middle.bounded, middle.ordered⟩
    | removed full => exact ⟨middle.bounded, middle.ordered⟩
  | unfiled moves unfile =>
    have middle := moves.cacheOrdered cache
    cases unfile with
    | @lost freed _ leads found =>
      have bounded := Lru.bounded_modify middle.bounded freed fun cached => { cached with dirty := true }
      refine ⟨bounded, fun id cached located => ?_⟩
      rw [Lru.find?_modify] at located
      split at located
      · obtain ⟨old, present, rfl⟩ := Option.map_eq_some_iff.1 located
        exact middle.ordered id old present
      · exact middle.ordered id cached located

omit [Std.TransOrd D] in
theorem InlineWithinLimit.of_slots (withinLimit : before.InlineWithinLimit)
    (limit : after.limit = before.limit)
    (slots : ∀ key, after.slot? key = before.slot? key) : after.InlineWithinLimit :=
  ⟨limit ▸ withinLimit.positive, fun key set slot =>
    limit ▸ withinLimit.length_le key set ((slots key).symm.trans slot)⟩

theorem Change.withinLimit (change : Change key list before after) (coherent : before.Coherent)
    (room : before.nextId.toNat + 1 < 2 ^ 64) (withinLimit : before.InlineWithinLimit) :
    after.InlineWithinLimit where
  positive := change.limit_eq ▸ withinLimit.positive
  length_le other set slot := by
    rw [change.limit_eq]
    by_cases same : other = key
    · rw [same] at slot
      obtain ⟨_, changed⟩ := change.changed coherent (.inr room)
      have listed := setOf_of_inline slot
      rw [changed.view_eq, SetMap.setOf_store, if_pos rfl] at listed
      rw [← listed]
      exact change.length_le withinLimit slot
    · exact withinLimit.length_le other set ((change.slot?_of_ne same).symm.trans slot)

theorem Pass.withinLimit (pass : Pass before after) (coherent : before.Coherent)
    (room : before.nextId.toNat + 1 < 2 ^ 64) (withinLimit : before.InlineWithinLimit) :
    after.InlineWithinLimit := by
  cases pass with
  | moved moves => exact withinLimit.of_slots moves.alike.limit_eq moves.alike.slot?_eq
  | changed prepared change count =>
    have alike := prepared.moves.alike
    have middleWithinLimit := withinLimit.of_slots alike.limit_eq alike.slot?_eq
    rw [← alike.nextId_eq] at room
    have changed := change.withinLimit (prepared.moves.rearranged coherent).1 room middleWithinLimit
    exact ⟨changed.positive, changed.length_le⟩

omit [Std.TransOrd D] in
theorem Slip.withinLimit (slip : Slip lost before after) (withinLimit : before.InlineWithinLimit) :
    after.InlineWithinLimit := by
  cases slip with
  | orphaned moves orphan =>
    have middle := withinLimit.of_slots moves.alike.limit_eq moves.alike.slot?_eq
    exact middle.of_slots (by cases orphan <;> rfl) orphan.slot?_eq
  | unfiled moves unfile =>
    have middle := withinLimit.of_slots moves.alike.limit_eq moves.alike.slot?_eq
    exact middle.of_slots (by cases unfile; rfl) unfile.slot?_eq

omit [Std.TransOrd D] in
theorem Move.noStray (move : Move before after) (coherent : before.Coherent)
    (noStray : before.NoStrayRecord) :
    after.NoStrayRecord := by
  intro id bytes proper located
  obtain ⟨key, leads⟩ : ∃ key, before.Leads key id := by
    cases move with
    | recache bounded capacity kept => exact noStray id bytes proper located
    | writeBack found dirty encoded bounded capacity others here =>
      rw [SortedMap.find?_insert] at located
      split at located
      · rename_i same
        rw [recordKey_inj.1 same]
        exact (coherent.backs _ _ found).owned
      · exact noStray id bytes proper located
    | load leads absent located' decoded room => exact noStray id bytes proper located
    | announce =>
      rw [SortedMap.find?_insert, if_neg fun same => proper (recordKey_inj.1 same)] at located
      exact noStray id bytes proper located
  exact ⟨key, move.alike.leads_iff.2 leads⟩

theorem Moves.noStray (moves : Moves before after) (coherent : before.Coherent)
    (noStray : before.NoStrayRecord) :
    after.NoStrayRecord := by
  induction moves with
  | refl => exact noStray
  | tail moves move earlier => exact move.noStray (Moves.rearranged moves coherent).1 earlier

omit [Std.TransOrd D] in
theorem Change.noStray (change : Change key list before after) (noStray : before.NoStrayRecord) :
    after.NoStrayRecord := by
  intro id bytes proper located
  have elsewhere : (∃ other, other ≠ key ∧ before.Leads other id) → ∃ other, after.Leads other id := by
    rintro ⟨other, different, leads⟩
    exact ⟨other, (change.slot?_of_ne different).trans leads⟩
  have vacated : (∀ id, ¬ before.Leads key id) →
      before.records.find? (recordKey id) = some bytes → ∃ other, after.Leads other id := by
    intro vacant still
    obtain ⟨other, leads⟩ := noStray id bytes proper still
    exact elsewhere ⟨other, fun same => vacant id (same ▸ leads), leads⟩
  cases change with
  | write vacant ordered nonempty encoded small => exact vacated vacant located
  | drop vacant => exact vacated vacant located
  | rewrite leads found ordered nonempty => exact noStray id bytes proper located
  | migrate vacant ordered nonempty encoded notFull full =>
    rw [SortedMap.find?_insert] at located
    split at located
    · rename_i same
      refine ⟨key, ?_⟩
      rw [recordKey_inj.1 same]
      exact slot?_redirected key _
    · exact vacated vacant located
  | release leads =>
    rw [SortedMap.find?_erase] at located
    split at located
    · cases located
    · rename_i apart
      obtain ⟨other, lead⟩ := noStray id bytes proper located
      refine elsewhere ⟨other, ?_, lead⟩
      rintro rfl
      cases leads.symm.trans lead
      exact apart rfl

theorem Pass.noStray (pass : Pass before after) (coherent : before.Coherent)
    (noStray : before.NoStrayRecord) :
    after.NoStrayRecord := by
  cases pass with
  | moved moves => exact moves.noStray coherent noStray
  | changed prepared change count => exact change.noStray (prepared.moves.noStray coherent noStray)

/-! ## Records of sets -/

theorem Moves.current?_eq (moves : Moves before after) (coherent : before.Coherent) {id : UInt64}
    (leads : before.Leads key id) : after.current? id = before.current? id := by
  obtain ⟨last, rearranged⟩ := moves.rearranged coherent
  rw [(last.current_of_leads (moves.alike.leads_iff.2 leads)).1, (coherent.current_of_leads leads).1,
    rearranged.view_eq]

theorem Move.stored (move : Move before after) (coherent : before.Coherent) {id : UInt64}
    (leads : before.Leads key id) :
    after.stored? id = before.stored? id ∨ ∃ list, after.stored? id = some list ∧
      before.current? id = some list ∧ before.codec.Fits list := by
  cases move with
  | recache bounded capacity kept => exact .inl rfl
  | @writeBack written cached bytes _ found dirty encoded bounded capacity others here =>
    by_cases same : id = written
    · have ordered := (coherent.backs written cached found).ordered
      obtain ⟨read, decoded, equal⟩ :=
        Codec.decode_encode_set coherent.faithful ordered encoded
      refine .inr ⟨cached.set.toList, (stored?_insert written id bytes).trans ?_, ?_,
        (Codec.exists_encode_set ordered).1 ⟨bytes, encoded⟩⟩
      · rw [if_pos same, decoded, ← equal]
        rfl
      · rw [same, current?_of_cached found]
    · exact .inl ((stored?_insert written id bytes).trans (if_neg same))
  | load leads absent located decoded room => exact .inl rfl
  | announce =>
    exact .inl ((stored?_insert headerId id _).trans (if_neg (coherent.ne_header leads)))

theorem Moves.stored (moves : Moves before after) (coherent : before.Coherent) {id : UInt64}
    (leads : before.Leads key id) :
    after.stored? id = before.stored? id ∨ ∃ list, after.stored? id = some list ∧
      before.current? id = some list ∧ before.codec.Fits list := by
  induction moves with
  | refl => exact .inl rfl
  | tail moves move earlier =>
    have still := (Moves.alike moves).leads_iff.2 leads
    rcases move.stored (Moves.rearranged moves coherent).1 still with same | ⟨list, written, current, fits⟩
    · rw [same]
      exact earlier
    · rw [Moves.current?_eq moves coherent leads] at current
      exact .inr ⟨list, written, current, (Moves.alike moves).codec_eq ▸ fits⟩

theorem Moves.recorded (moves : Moves before after) (coherent : before.Coherent)
    (recorded : before.Recorded) : after.Recorded := by
  intro key id leads
  have leads := moves.alike.leads_iff.1 leads
  rcases moves.stored coherent leads with same | ⟨list, written, current, _⟩
  · rw [same]
    exact recorded key id leads
  · obtain ⟨present, nonempty⟩ := coherent.current_of_leads leads
    cases current.symm.trans present
    exact ⟨_, written, nonempty⟩

theorem Moves.fitted (moves : Moves before after) (coherent : before.Coherent)
    (fitted : before.Fitted) : after.Fitted where
  inline key set slot := by
    rw [moves.alike.codec_eq]
    exact fitted.inline key set ((moves.alike.slot?_eq key).symm.trans slot)
  stored key id list leads present := by
    have leads := moves.alike.leads_iff.1 leads
    rw [moves.alike.codec_eq]
    rcases moves.stored coherent leads with same | ⟨other, written, _, fits⟩
    · exact fitted.stored key id list leads (same.symm.trans present)
    · cases written.symm.trans present
      exact fits

theorem Change.stored (change : Change key list before after) (coherent : before.Coherent)
    {other : Bytes} {id : UInt64} (leads : after.Leads other id) :
    before.Leads other id ∧ after.stored? id = before.stored? id ∨
      ∃ moved, after.stored? id = some moved ∧ moved ≠ [] ∧ before.codec.Fits moved := by
  by_cases same : other = key
  · subst same
    cases change with
    | write vacant ordered nonempty encoded small =>
      obtain ⟨written, _, read, slot, _⟩ := coherent.writeInline vacant ordered nonempty encoded
      cases slot.symm.trans leads
    | drop vacant => cases (slot?_vacated other).symm.trans leads
    | rewrite found lead ordered nonempty => exact .inl ⟨leads, rfl⟩
    | @migrate _ bytes set vacant ordered nonempty encoded notFull full =>
      cases (slot?_redirected other _).symm.trans leads
      obtain ⟨read, decoded, equal⟩ := Codec.decode_encode_set coherent.faithful ordered encoded
      refine .inr ⟨set.toList, (stored?_insert _ _ bytes).trans ?_, nonempty,
        (Codec.exists_encode_set ordered).1 ⟨bytes, encoded⟩⟩
      rw [if_pos rfl, decoded, ← equal]
      rfl
    | release lead => cases (slot?_vacated other).symm.trans leads
  · have lead : before.Leads other id := (change.slot?_of_ne same).symm.trans leads
    refine .inl ⟨lead, ?_⟩
    cases change with
    | write vacant ordered nonempty encoded small => rfl
    | drop vacant => rfl
    | rewrite found present ordered nonempty => rfl
    | migrate vacant ordered nonempty encoded notFull full =>
      have issued := (coherent.issued other id lead).2
      refine (stored?_insert _ id _).trans (if_neg ?_)
      rintro rfl
      omega
    | release freed =>
      refine (stored?_erase _ id).trans (if_neg ?_)
      rintro rfl
      exact same (coherent.distinct other key _ lead freed)

theorem Change.recorded (change : Change key list before after) (coherent : before.Coherent)
    (recorded : before.Recorded) : after.Recorded := by
  intro other id leads
  rcases change.stored coherent leads with ⟨lead, same⟩ | ⟨moved, present, nonempty, _⟩
  · rw [same]
    exact recorded other id lead
  · exact ⟨moved, present, nonempty⟩

omit [Std.TransOrd D] in
theorem Change.codec_eq (change : Change key list before after) : after.codec = before.codec := by
  cases change <;> rfl

omit [Std.TransOrd D] in
theorem Pass.codec_eq (pass : Pass before after) : after.codec = before.codec := by
  cases pass with
  | moved moves => exact moves.alike.codec_eq
  | changed prepared change count => exact change.codec_eq.trans prepared.moves.alike.codec_eq

omit [Std.TransOrd D] in
theorem Slip.codec_eq (slip : Slip lost before after) : after.codec = before.codec := by
  cases slip with
  | orphaned moves orphan => cases orphan <;> exact moves.alike.codec_eq
  | unfiled moves unfile =>
    cases unfile
    exact moves.alike.codec_eq

theorem Change.fitted (change : Change key list before after) (coherent : before.Coherent)
    (fitted : before.Fitted) : after.Fitted where
  inline other set slot := by
    rw [change.codec_eq]
    by_cases same : other = key
    · subst same
      cases change with
      | write vacant ordered nonempty encoded small =>
        obtain ⟨_, _, read, written, equal⟩ := coherent.writeInline vacant ordered nonempty encoded
        cases written.symm.trans slot
        rw [equal]
        exact (Codec.exists_encode_set ordered).1 ⟨_, encoded⟩
      | drop vacant => cases (slot?_vacated other).symm.trans slot
      | rewrite lead found ordered nonempty => cases lead.symm.trans slot
      | migrate vacant ordered nonempty encoded notFull full =>
        cases (slot?_redirected other _).symm.trans slot
      | release lead => cases (slot?_vacated other).symm.trans slot
    · exact fitted.inline other set ((change.slot?_of_ne same).symm.trans slot)
  stored other id kept leads present := by
    rw [change.codec_eq]
    rcases change.stored coherent leads with ⟨lead, same⟩ | ⟨moved, written, _, fits⟩
    · exact fitted.stored other id kept lead (same.symm.trans present)
    · cases written.symm.trans present
      exact fits

theorem Pass.recorded (pass : Pass before after) (coherent : before.Coherent)
    (recorded : before.Recorded) : after.Recorded := by
  cases pass with
  | moved moves => exact moves.recorded coherent recorded
  | changed prepared change count =>
    obtain ⟨middle, _⟩ := prepared.moves.rearranged coherent
    exact change.recorded middle (prepared.moves.recorded coherent recorded)

theorem Pass.fitted (pass : Pass before after) (coherent : before.Coherent)
    (fitted : before.Fitted) : after.Fitted := by
  cases pass with
  | moved moves => exact moves.fitted coherent fitted
  | changed prepared change count =>
    obtain ⟨middle, _⟩ := prepared.moves.rearranged coherent
    have changed := change.fitted middle (prepared.moves.fitted coherent fitted)
    exact ⟨changed.inline, changed.stored⟩

omit [Std.TransOrd D] in
theorem Orphan.stored?_eq (orphan : Orphan key before after) {id : UInt64}
    (apart : id ≠ before.nextId) : after.stored? id = before.stored? id := by
  have other := mt recordKey_inj.1 apart
  cases orphan with
  | left full => exact (stored?_insert _ _ _).trans (if_neg apart)
  | removed full =>
    rw [stored?, SortedMap.find?_erase, if_neg other, SortedMap.find?_insert, if_neg other]
    rfl

omit [Std.TransOrd D] in
theorem Fitted.of_slots (fitted : before.Fitted) (codec : after.codec = before.codec)
    (slots : ∀ key, after.slot? key = before.slot? key)
    (stored : ∀ key id list, before.Leads key id → after.stored? id = some list →
      before.stored? id = some list) : after.Fitted where
  inline key set slot := codec ▸ fitted.inline key set ((slots key).symm.trans slot)
  stored key id list leads present := by
    have lead : before.Leads key id := (slots key).symm.trans leads
    rw [codec]
    exact fitted.stored key id list lead (stored key id list lead present)

theorem Slip.fitted (slip : Slip lost before after) (coherent : before.Coherent)
    (fitted : before.Fitted) : after.Fitted := by
  cases slip with
  | orphaned moves orphan =>
    have middle := (moves.rearranged coherent).1
    refine (moves.fitted coherent fitted).of_slots (by cases orphan <;> rfl) orphan.slot?_eq ?_
    intro key id list leads present
    have issued := (middle.issued key id leads).2
    rw [orphan.stored?_eq (by rintro rfl; omega)] at present
    exact present
  | unfiled moves unfile =>
    refine (moves.fitted coherent fitted).of_slots (by cases unfile; rfl) unfile.slot?_eq ?_
    intro key id list leads present
    cases unfile with
    | lost freed found =>
      have present := (stored?_erase _ _).symm.trans present
      split at present
      · cases present
      · exact present

theorem Change.waits (change : Change key list before after) (coherent : before.Coherent)
    {other : Bytes} {id : UInt64} (leads : after.Leads other id) (waits : after.Waits id) :
    before.Leads other id ∧ (other = key ∨ before.Waits id) ∧
      after.records.find? (recordKey id) = before.records.find? (recordKey id) := by
  have elsewhere : other ≠ key → before.Leads other id := fun different =>
    (change.slot?_of_ne different).symm.trans leads
  obtain ⟨cached, found, dirty⟩ := waits
  cases change with
  | write vacant ordered nonempty encoded small =>
    have different : other ≠ key := by
      rintro rfl
      obtain ⟨_, _, read, slot, _⟩ := coherent.writeInline vacant ordered nonempty encoded
      cases slot.symm.trans leads
    exact ⟨elsewhere different, .inr ⟨cached, found, dirty⟩, rfl⟩
  | drop vacant =>
    have different : other ≠ key := by
      rintro rfl
      cases (slot?_vacated other).symm.trans leads
    exact ⟨elsewhere different, .inr ⟨cached, found, dirty⟩, rfl⟩
  | @rewrite _ changed _ set lead present ordered nonempty =>
    -- The only change that leaves a set waiting which did not wait before.
    refine ⟨leads, ?_, rfl⟩
    rw [Lru.find?_modify] at found
    split at found
    · rename_i same
      exact .inl (coherent.distinct other key changed (same ▸ leads) lead)
    · exact .inr ⟨cached, found, dirty⟩
  | migrate vacant ordered nonempty encoded notFull full =>
    rw [Lru.find?_insert notFull] at found
    split at found
    · cases found
      cases dirty
    · rename_i apart
      have different : other ≠ key := by
        rintro rfl
        cases (slot?_redirected other _).symm.trans leads
        exact apart rfl
      exact ⟨elsewhere different, .inr ⟨cached, found, dirty⟩,
        (SortedMap.find?_insert _ _ _ _).trans (if_neg (mt recordKey_inj.1 apart))⟩
  | release freed =>
    rw [Lru.find?_erase] at found
    split at found
    · cases found
    · rename_i apart
      have different : other ≠ key := by
        rintro rfl
        cases (slot?_vacated other).symm.trans leads
      exact ⟨elsewhere different, .inr ⟨cached, found, dirty⟩,
        (SortedMap.find?_erase _ _ _).trans (if_neg (mt recordKey_inj.1 apart))⟩

theorem Pass.waits (pass : Pass before after) (coherent : before.Coherent) {id : UInt64}
    (leads : after.Leads key id) (waits : after.Waits id) :
    before.Leads key id ∧
      after.records.find? (recordKey id) = before.records.find? (recordKey id) := by
  cases pass with
  | moved moves =>
    have lead := moves.alike.leads_iff.1 leads
    exact ⟨lead, moves.record (coherent.ne_header lead) (.inr waits)⟩
  | changed prepared change count =>
    obtain ⟨lead, earlier, same⟩ :=
      change.waits (prepared.moves.rearranged coherent).1 leads waits
    have lead := prepared.moves.alike.leads_iff.1 lead
    refine ⟨lead, Eq.trans same ?_⟩
    rcases earlier with rfl | waiting
    · exact prepared.record id lead
    · exact prepared.moves.record (coherent.ne_header lead) (.inr waiting)

theorem Moves.stored_of_gone (moves : Moves before after) (coherent : before.Coherent) {id : UInt64}
    {cached : CachedSet D} (found : before.sets.find? id = some cached)
    (gone : after.sets.find? id = none) : after.stored? id = some cached.set.toList := by
  obtain ⟨owner, leads⟩ := (coherent.backs id cached found).owned
  rw [← current?_of_absent gone, moves.current?_eq coherent leads, current?_of_cached found]

omit [Std.TransOrd D] in
theorem Change.gone (change : Change key list before after) (coherent : before.Coherent) {id : UInt64}
    (gone : after.sets.find? id = none) :
    before.sets.find? id = none ∧ after.stored? id = before.stored? id ∨
      ∀ other, ¬ after.Leads other id := by
  cases change with
  | write vacant ordered nonempty encoded small => exact .inl ⟨gone, rfl⟩
  | drop vacant => exact .inl ⟨gone, rfl⟩
  | rewrite lead present ordered nonempty =>
    rw [Lru.find?_modify] at gone
    split at gone
    · exact .inl ⟨Option.map_eq_none_iff.1 gone, rfl⟩
    · exact .inl ⟨gone, rfl⟩
  | migrate vacant ordered nonempty encoded notFull full =>
    rw [Lru.find?_insert notFull] at gone
    split at gone
    · cases gone
    · rename_i apart
      exact .inl ⟨gone, (stored?_insert _ _ _).trans (if_neg apart)⟩
  | @release _ freed lead =>
    by_cases same : id = freed
    · refine .inr fun other leads => ?_
      by_cases here : other = key
      · rw [here] at leads
        cases (slot?_vacated key).symm.trans leads
      · have kept : before.Leads other id :=
          ((slot?_erase key other).trans (if_neg here)).symm.trans leads
        exact here (coherent.distinct other key freed (same ▸ kept) lead)
    · rw [Lru.find?_erase, if_neg same] at gone
      exact .inl ⟨gone, (stored?_erase _ _).trans (if_neg same)⟩

omit [Std.TransOrd D] in
theorem Unfile.gone (unfile : Unfile key before after) {id : UInt64}
    (gone : after.sets.find? id = none) :
    before.sets.find? id = none ∧ after.stored? id = before.stored? id := by
  cases unfile with
  | @lost freed cached leads present =>
    rw [Lru.find?_modify] at gone
    split at gone
    · rename_i same
      rw [same, present] at gone
      cases gone
    · rename_i apart
      exact ⟨gone, (stored?_erase _ _).trans (if_neg apart)⟩

theorem Pass.stored_of_gone (pass : Pass before after) (coherent : before.Coherent) {id : UInt64}
    {cached : CachedSet D} (found : before.sets.find? id = some cached)
    (gone : after.sets.find? id = none) :
    after.stored? id = some cached.set.toList ∨ ∀ key, ¬ after.Leads key id := by
  cases pass with
  | moved moves => exact .inl (moves.stored_of_gone coherent found gone)
  | changed prepared change count =>
    refine (change.gone (prepared.moves.rearranged coherent).1 gone).imp_left ?_
    rintro ⟨left, same⟩
    exact Eq.trans same (prepared.moves.stored_of_gone coherent found left)

theorem Slip.stored_of_gone (slip : Slip lost before after) (coherent : before.Coherent) {id : UInt64}
    {cached : CachedSet D} (found : before.sets.find? id = some cached)
    (gone : after.sets.find? id = none) : after.stored? id = some cached.set.toList := by
  cases slip with
  | orphaned moves orphan =>
    obtain ⟨key, leads⟩ := (coherent.backs id cached found).owned
    have issued := (coherent.issued key id leads).2
    have apart : id ≠ before.nextId := by
      rintro rfl
      omega
    rw [← moves.alike.nextId_eq] at apart
    rw [orphan.sets_eq] at gone
    exact (orphan.stored?_eq apart).trans (moves.stored_of_gone coherent found gone)
  | unfiled moves unfile =>
    obtain ⟨left, same⟩ := unfile.gone gone
    exact same.trans (moves.stored_of_gone coherent found left)

end Layout

end AttributeIndex
