import AttributeIndex.Proofs.SetTable.Rearrangement

namespace AttributeIndex.Layout

open SetTable (recordKey)

variable {D : Type} [Ord D]

structure Changed (key : Bytes) (list : List D) (before after : Layout D) : Prop where
  codec_eq : after.codec = before.codec
  limit_eq : after.limit = before.limit
  count_eq : after.count = before.count
  elsewhere : ∀ other, other ≠ key → after.slot? other = before.slot? other
  view_eq : after.view = before.view.store key list

theorem Changed.of_rearranged {key : Bytes} {list : List D} {before middle after : Layout D}
    (rearranged : Rearranged before middle) (changed : Changed key list middle after) :
    Changed key list before after :=
  ⟨changed.codec_eq.trans rearranged.codec_eq, changed.limit_eq.trans rearranged.limit_eq,
    changed.count_eq.trans rearranged.count_eq,
    fun other different => (changed.elsewhere other different).trans (rearranged.slot?_eq other),
    changed.view_eq.trans (by rw [rearranged.view_eq])⟩

theorem Changed.rearranged {key : Bytes} {list : List D} {before middle after : Layout D}
    (changed : Changed key list before middle) (rearranged : Rearranged middle after) :
    Changed key list before after :=
  ⟨rearranged.codec_eq.trans changed.codec_eq, rearranged.limit_eq.trans changed.limit_eq,
    rearranged.count_eq.trans changed.count_eq,
    fun other different => (rearranged.slot?_eq other).trans (changed.elsewhere other different),
    rearranged.view_eq.trans changed.view_eq⟩

variable [Std.TransOrd D] {layout : Layout D}

theorem view_eq_store {before after : Layout D} (beforeCoherent : before.Coherent)
    (afterCoherent : after.Coherent) {key : Bytes} {list : List D}
    (ascending : Sequence.Ascending compare list)
    (here : after.view.setOf key = list)
    (elsewhere : ∀ other, other ≠ key →
      (after.slot? other).bind after.held? = (before.slot? other).bind before.held?) :
    after.view = before.view.store key list := by
  refine SetMap.Proper.ext afterCoherent.proper (beforeCoherent.proper.store key ascending)
    fun other => ?_
  rw [SetMap.setOf_store]
  split
  · rename_i same
    rw [same, here]
  · rename_i different
    rw [setOf_view, setOf_view, elsewhere other different]

omit [Std.TransOrd D] in
theorem slot?_insert (key other : Bytes) (bytes : Bytes) :
    ({ layout with slots := layout.slots.insert key bytes } : Layout D).slot? other =
      if other = key then parse layout.codec bytes else layout.slot? other := by
  rw [slot?, SortedMap.find?_insert]
  split
  · rfl
  · rfl

omit [Std.TransOrd D] in
theorem slot?_erase (key other : Bytes) :
    ({ layout with slots := layout.slots.erase key } : Layout D).slot? other =
      if other = key then none else layout.slot? other := by
  rw [slot?, SortedMap.find?_erase]
  split
  · rfl
  · rfl

omit [Std.TransOrd D] in
theorem slot?_redirected (key : Bytes) (id : UInt64) :
    ({ layout with slots := layout.slots.insert key (Redirect.mk id).encode } : Layout D).slot? key =
      some (.overflow ⟨id⟩) :=
  (slot?_insert key key _).trans ((if_pos rfl).trans (parse_encode _ _))

omit [Std.TransOrd D] in
theorem slot?_vacated (key : Bytes) :
    ({ layout with slots := layout.slots.erase key } : Layout D).slot? key = none :=
  (slot?_erase key key).trans (if_pos rfl)

namespace Coherent

variable (coherent : layout.Coherent)
include coherent

theorem change {key : Bytes} {list : List D} {after : Layout D}
    (codec_eq : after.codec = layout.codec) (limit_eq : after.limit = layout.limit)
    (count_eq : after.count = layout.count)
    (others : ∀ other, other ≠ key → after.slots.find? other = layout.slots.find? other)
    (held : ∀ other, other ≠ key →
      (after.slot? other).bind after.held? = (layout.slot? other).bind layout.held?)
    (here : after.slots.find? key = none ∧ list = [] ∨
      ∃ slot, after.slot? key = some slot ∧ after.held? slot = some list ∧ list ≠ [])
    (unshared : ∀ other id, other ≠ key → after.Leads key id → ¬ after.Leads other id)
    (issued : ∀ other id, after.Leads other id → 0 < id.toNat ∧ id.toNat < after.nextId.toNat)
    (bounded : after.sets.Bounded)
    (backs : ∀ id cached, after.sets.find? id = some cached → after.Backs id cached)
    (filed : Filed after.records after.nextId) : after.Coherent ∧ Changed key list layout after := by
  have slots : ∀ other, other ≠ key → after.slot? other = layout.slot? other := by
    intro other different
    rw [slot?, slot?, codec_eq, others other different]
  have afterCoherent : after.Coherent := by
    refine ⟨codec_eq ▸ coherent.faithful, ?_, ?_, issued, bounded, backs, filed⟩
    · intro other bytes located
      by_cases same : other = key
      · rw [same] at located ⊢
        obtain ⟨gone, -⟩ | ⟨slot, found, full, nonempty⟩ := here
        · cases gone.symm.trans located
        · exact ⟨slot, list, found, full, nonempty⟩
      · rw [others other same] at located
        obtain ⟨slot, list, parsed, old, full⟩ := coherent.holds other bytes located
        have kept := held other same
        rw [slots other same, parsed] at kept
        exact ⟨slot, list, (slots other same).trans parsed, kept.trans old, full⟩
    -- Two of the other keys are told apart as before; the key itself shares no record.
    · intro first second id firstLeads secondLeads
      by_cases same : first = key
      · by_cases also : second = key
        · rw [same, also]
        · exact absurd secondLeads (unshared second id also (same ▸ firstLeads))
      · by_cases also : second = key
        · exact absurd firstLeads (unshared first id same (also ▸ secondLeads))
        · rw [Leads, slots first same] at firstLeads
          rw [Leads, slots second also] at secondLeads
          exact coherent.distinct first second id firstLeads secondLeads
  have view : after.view.setOf key = list := by
    obtain ⟨gone, empty⟩ | ⟨slot, found, full, -⟩ := here
    · rw [setOf_view, slot?, gone, empty]
      rfl
    · rw [setOf_view, found, Option.bind_some]
      exact congrArg (Option.getD · []) full
  refine ⟨afterCoherent, codec_eq, limit_eq, count_eq, slots, ?_⟩
  refine view_eq_store coherent afterCoherent ?_ view held
  rw [← view]
  exact afterCoherent.proper.ascending key

omit [Std.TransOrd D] in
theorem still_backs {key : Bytes} {after : Layout D} {id : UInt64} {cached : CachedSet D}
    (slots : ∀ other, other ≠ key → after.slot? other = layout.slot? other)
    (found : layout.sets.find? id = some cached) (apart : ¬ layout.Leads key id)
    (stored : after.stored? id = layout.stored? id) : after.Backs id cached := by
  have backs := coherent.backs id cached found
  obtain ⟨owner, leads⟩ := backs.owned
  have different : owner ≠ key := fun same => apart (same ▸ leads)
  exact ⟨backs.ordered, ⟨owner, (slots owner different).trans leads⟩,
    fun clean => stored.trans (backs.clean clean)⟩

omit [Std.TransOrd D] in
theorem held_elsewhere {key : Bytes} {id : UInt64} {after : Layout D} (leads : layout.Leads key id)
    (slots : ∀ other, other ≠ key → after.slot? other = layout.slot? other)
    (current : ∀ other, other ≠ id → after.current? other = layout.current? other)
    (other : Bytes) (different : other ≠ key) :
    (after.slot? other).bind after.held? = (layout.slot? other).bind layout.held? := by
  rw [slots other different]
  cases slot : layout.slot? other with
  | none => rfl
  | some entry =>
    cases entry with
    | inline set => rfl
    | overflow redirect =>
      refine current redirect.recordId fun same => different ?_
      exact coherent.distinct other key id (same ▸ slot) leads

theorem writeSlot {key bytes : Bytes} {slot : Slot D} {list : List D}
    (vacant : ∀ id, ¬ layout.Leads key id) (parsed : parse layout.codec bytes = some slot)
    (held : layout.held? slot = some list) (nonempty : list ≠ [])
    (fresh : ∀ id, slot = .overflow ⟨id⟩ →
      0 < id.toNat ∧ id.toNat < layout.nextId.toNat ∧ ∀ other, ¬ layout.Leads other id) :
    let written : Layout D := { layout with slots := layout.slots.insert key bytes }
    written.Coherent ∧ Changed key list layout written ∧ written.slot? key = some slot := by
  intro written
  have here : written.slot? key = some slot := by rw [slot?_insert, if_pos rfl, parsed]
  have slots : ∀ other, other ≠ key → written.slot? other = layout.slot? other := by
    intro other different
    rw [slot?_insert, if_neg different]
  have redirected : ∀ id, written.Leads key id → slot = .overflow ⟨id⟩ :=
    fun id leads => Option.some.inj (here.symm.trans leads)
  rw [← and_assoc]
  refine ⟨coherent.change rfl rfl rfl ?_ ?_ (.inr ⟨slot, here, held, nonempty⟩) ?_ ?_
    coherent.bounded ?_ coherent.filed, here⟩
  · intro other different
    rw [SortedMap.find?_insert, if_neg different]
  · intro other different
    rw [slots other different]
    rfl
  · intro other id different leads also
    rw [Leads, slots other different] at also
    exact (fresh id (redirected id leads)).2.2 other also
  · intro other id leads
    by_cases same : other = key
    · obtain ⟨proper, issued, -⟩ := fresh id (redirected id (same ▸ leads))
      exact ⟨proper, issued⟩
    · exact coherent.issued other id ((slots other same).symm.trans leads)
  · exact fun id cached found => coherent.still_backs slots found (vacant id) rfl

theorem writeInline {key bytes : Bytes} {set : OrderedSet D compare}
    (vacant : ∀ id, ¬ layout.Leads key id) (ordered : set.Ordered) (nonempty : set.toList ≠ [])
    (encoded : layout.codec.set.encode set = .ok bytes) :
    let written : Layout D := { layout with slots := layout.slots.insert key bytes }
    written.Coherent ∧ Changed key set.toList layout written ∧
      ∃ read, written.slot? key = some (.inline read) ∧ read.toList = set.toList := by
  obtain ⟨read, decoded, same⟩ := Codec.decode_encode_set coherent.faithful ordered encoded
  have parsed : parse layout.codec bytes = some (.inline read) := by
    rw [parse, if_neg (by simp [Codec.hasForm_encode_set ordered encoded]), decoded]
    rfl
  obtain ⟨written, changed, slot⟩ := coherent.writeSlot vacant parsed (congrArg some same) nonempty
    (fun id impossible => by cases impossible)
  exact ⟨written, changed, read, slot, same⟩

theorem dropSlot {key : Bytes} (vacant : ∀ id, ¬ layout.Leads key id) :
    let removed : Layout D := { layout with slots := layout.slots.erase key }
    removed.Coherent ∧ Changed key [] layout removed ∧ removed.slot? key = none := by
  intro removed
  have here : removed.slot? key = none := slot?_vacated key
  have slots : ∀ other, other ≠ key → removed.slot? other = layout.slot? other := by
    intro other different
    rw [slot?_erase, if_neg different]
  rw [← and_assoc]
  refine ⟨coherent.change rfl rfl rfl ?_ ?_ (.inl ⟨?_, rfl⟩) ?_ ?_ coherent.bounded ?_
    coherent.filed, here⟩
  · intro other different
    rw [SortedMap.find?_erase, if_neg different]
  · intro other different
    rw [slots other different]
    rfl
  · rw [SortedMap.find?_erase, if_pos rfl]
  · intro other id different leads
    cases here.symm.trans leads
  · intro other id leads
    by_cases same : other = key
    · cases here.symm.trans (same ▸ leads)
    · exact coherent.issued other id ((slots other same).symm.trans leads)
  · exact fun id cached found => coherent.still_backs slots found (vacant id) rfl

theorem replaceCached {key : Bytes} {id : UInt64} {cached : CachedSet D}
    {set : OrderedSet D compare} (leads : layout.Leads key id)
    (found : layout.sets.find? id = some cached) (ordered : set.Ordered)
    (nonempty : set.toList ≠ []) :
    let replaced : Layout D :=
      { layout with sets := layout.sets.modify id fun _ => ⟨set, true⟩ }
    replaced.Coherent ∧ Changed key set.toList layout replaced ∧
      ∀ other, replaced.slot? other = layout.slot? other := by
  intro replaced
  have modified : ∀ other, replaced.sets.find? other =
      if other = id then some ⟨set, true⟩ else layout.sets.find? other := by
    intro other
    refine (Lru.find?_modify layout.sets id other fun _ => (⟨set, true⟩ : CachedSet D)).trans ?_
    split
    · rename_i same
      rw [same, found]
      rfl
    · rfl
  have here : replaced.current? id = some set.toList :=
    current?_of_cached ((modified id).trans (if_pos rfl))
  rw [← and_assoc]
  refine ⟨coherent.change rfl rfl rfl (fun _ _ => rfl) ?_
    (.inr ⟨.overflow ⟨id⟩, leads, here, nonempty⟩) ?_ coherent.issued
    (Lru.bounded_modify coherent.bounded id fun _ => (⟨set, true⟩ : CachedSet D)) ?_
    coherent.filed, fun _ => rfl⟩
  · refine coherent.held_elsewhere leads (fun _ _ => rfl) fun other apart => ?_
    exact current?_congr ((modified other).trans (if_neg apart)) rfl
  · exact fun other record different first second =>
      different (coherent.distinct other key record second first)
  · intro other kept located
    rw [modified] at located
    split at located
    · rename_i same
      cases located
      exact ⟨ordered, ⟨key, same ▸ leads⟩, fun clean => by cases clean⟩
    · have backs := coherent.backs other kept located
      exact ⟨backs.ordered, backs.owned, backs.clean⟩

theorem migrate {key bytes : Bytes} {set read : OrderedSet D compare}
    (vacant : ∀ id, ¬ layout.Leads key id) (ordered : set.Ordered) (nonempty : set.toList ≠ [])
    (decoded : layout.codec.set.decode bytes = .ok read) (same : read.toList = set.toList)
    (notFull : layout.sets.isFull = false) (room : layout.nextId.toNat + 1 < 2 ^ 64) :
    let migrated : Layout D :=
      { layout with
        slots := layout.slots.insert key (Redirect.mk layout.nextId).encode
        records := layout.records.insert (recordKey layout.nextId) bytes
        sets := layout.sets.insert layout.nextId ⟨set, false⟩
        nextId := layout.nextId + 1 }
    migrated.Coherent ∧ Changed key set.toList layout migrated ∧
      migrated.Leads key layout.nextId := by
  intro migrated
  obtain ⟨issued, rearranged, next⟩ := coherent.issue room bytes
  obtain ⟨unled, uncached⟩ := coherent.unused (Nat.le_refl _)
  have leads : ∀ other id, _ → layout.Leads other id := fun other _ =>
    (rearranged.slot?_eq other).symm.trans
  have stored : ({ layout with
      records := layout.records.insert (recordKey layout.nextId) bytes
      nextId := layout.nextId + 1 } : Layout D).stored? layout.nextId = some set.toList := by
    refine (stored?_insert _ _ bytes).trans ?_
    rw [if_pos rfl, decoded, ← same]
    rfl
  have held : ({ layout with
      records := layout.records.insert (recordKey layout.nextId) bytes
      nextId := layout.nextId + 1 } : Layout D).current? layout.nextId = some set.toList := by
    refine (current?_of_absent ?_).trans stored
    exact uncached
  obtain ⟨written, changed, redirected⟩ := issued.writeSlot
    (fun id lead => vacant id (leads key id lead)) (parse_encode _ ⟨layout.nextId⟩)
    held nonempty (by
      rintro id ⟨⟩
      exact ⟨coherent.filed.begun, by omega, fun other lead => unled other (leads other _ lead)⟩)
  obtain ⟨loaded, filled⟩ := written.load redirected uncached stored ordered notFull
  exact ⟨loaded, Changed.of_rearranged rearranged (changed.rearranged filled),
    (filled.slot?_eq key).trans redirected⟩

theorem release {key : Bytes} {id : UInt64} (leads : layout.Leads key id) :
    let released : Layout D :=
      { layout with
        slots := layout.slots.erase key
        records := layout.records.erase (recordKey id)
        sets := layout.sets.erase id }
    released.Coherent ∧ Changed key [] layout released ∧ released.slot? key = none := by
  intro released
  have here : released.slot? key = none := slot?_vacated key
  have slots : ∀ other, other ≠ key → released.slot? other = layout.slot? other :=
    fun other different => (slot?_erase key other).trans (if_neg different)
  have sets : ∀ other, released.sets.find? other =
      if other = id then none else layout.sets.find? other :=
    fun other => Lru.find?_erase layout.sets id other
  have stored : ∀ other, other ≠ id → released.stored? other = layout.stored? other :=
    fun other different => (stored?_erase id other).trans (if_neg different)
  rw [← and_assoc]
  refine ⟨coherent.change rfl rfl rfl ?_ ?_ (.inl ⟨?_, rfl⟩) ?_ ?_
    (Lru.bounded_erase coherent.bounded id) ?_ (coherent.filed.erase _), here⟩
  · intro other different
    rw [SortedMap.find?_erase, if_neg different]
  · refine coherent.held_elsewhere leads slots fun other apart => ?_
    exact current?_congr ((sets other).trans (if_neg apart)) (stored other apart)
  · rw [SortedMap.find?_erase, if_pos rfl]
  · intro other record different also
    cases here.symm.trans also
  · intro other record also
    by_cases same : other = key
    · cases here.symm.trans (same ▸ also)
    · exact coherent.issued other record ((slots other same).symm.trans also)
  · intro other cached found
    rw [sets] at found
    split at found
    · cases found
    · rename_i apart
      refine coherent.still_backs slots found (fun also => apart ?_) (stored other apart)
      cases leads.symm.trans also
      rfl

end Coherent

/-! ## Changes -/

structure InlineWithinLimit (layout : Layout D) : Prop where
  positive : 0 < layout.limit
  length_le : ∀ key set, layout.slot? key = some (.inline set) → set.toList.length ≤ layout.limit

def Spare (layout : Layout D) (key : Bytes) : Prop :=
  ∀ set, layout.slot? key = some (.inline set) → set.toList.length < layout.limit

theorem not_spare {key : Bytes} (element : D) {set : OrderedSet D compare}
    (slot : layout.slot? key = some (.inline set))
    (outgrown : layout.limit < (Sequence.add compare element set.toList).length) :
    ¬ layout.Spare key := by
  intro spare
  have short := spare set slot
  rw [Sequence.length_add] at outgrown
  split at outgrown <;> omega

/-- A record id is given out only for a key whose set has outgrown its slot. -/
def Numbers (key : Bytes) (before after : Layout D) : Prop :=
  after.nextId = before.nextId ∨
    ¬ before.Spare key ∧ after.nextId.toNat = before.nextId.toNat + 1

/-- All that is ever done to give a key a new set. -/
inductive Change (key : Bytes) : List D → Layout D → Layout D → Prop
  | write {before : Layout D} {bytes : Bytes} {set : OrderedSet D compare}
      (vacant : ∀ id, ¬ before.Leads key id) (ordered : set.Ordered) (nonempty : set.toList ≠ [])
      (encoded : before.codec.set.encode set = .ok bytes)
      (small : before.InlineWithinLimit → set.toList.length ≤ before.limit) :
      Change key set.toList before { before with slots := before.slots.insert key bytes }
  | drop {before : Layout D} (vacant : ∀ id, ¬ before.Leads key id) :
      Change key [] before { before with slots := before.slots.erase key }
  | rewrite {before : Layout D} {id : UInt64} {cached : CachedSet D} {set : OrderedSet D compare}
      (leads : before.Leads key id) (found : before.sets.find? id = some cached)
      (ordered : set.Ordered) (nonempty : set.toList ≠ []) :
      Change key set.toList before
        { before with sets := before.sets.modify id fun _ => ⟨set, true⟩ }
  | migrate {before : Layout D} {bytes : Bytes} {set : OrderedSet D compare}
      (vacant : ∀ id, ¬ before.Leads key id) (ordered : set.Ordered) (nonempty : set.toList ≠ [])
      (encoded : before.codec.set.encode set = .ok bytes) (notFull : before.sets.isFull = false)
      (full : ¬ before.Spare key) :
      Change key set.toList before
        { before with
          slots := before.slots.insert key (Redirect.mk before.nextId).encode
          records := before.records.insert (recordKey before.nextId) bytes
          sets := before.sets.insert before.nextId ⟨set, false⟩
          nextId := before.nextId + 1 }
  | release {before : Layout D} {id : UInt64} (leads : before.Leads key id) :
      Change key [] before
        { before with
          slots := before.slots.erase key
          records := before.records.erase (recordKey id)
          sets := before.sets.erase id }

/-- A set could not move. The id of its record is used up, and the record may have stayed. -/
inductive Orphan (key : Bytes) : Layout D → Layout D → Prop
  | left {before : Layout D} {bytes : Bytes} (full : ¬ before.Spare key) :
      Orphan key before
        { before with
          records := before.records.insert (recordKey before.nextId) bytes
          nextId := before.nextId + 1 }
  | removed {before : Layout D} {bytes : Bytes} (full : ¬ before.Spare key) :
      Orphan key before
        { before with
          records :=
            (before.records.insert (recordKey before.nextId) bytes).erase (recordKey before.nextId)
          nextId := before.nextId + 1 }

/-- A set could not be given up, but its record is gone. -/
inductive Unfile (key : Bytes) : Layout D → Layout D → Prop
  | lost {before : Layout D} {id : UInt64} {cached : CachedSet D} (leads : before.Leads key id)
      (found : before.sets.find? id = some cached) :
      Unfile key before
        { before with
          records := before.records.erase (recordKey id)
          sets := before.sets.modify id fun cached => { cached with dirty := true } }

variable {key : Bytes} {list : List D} {before after : Layout D}

omit [Std.TransOrd D] in
theorem toNat_succ {id : UInt64} (room : id.toNat + 1 < 2 ^ 64) : (id + 1).toNat = id.toNat + 1 := by
  rw [UInt64.toNat_add]
  exact Nat.mod_eq_of_lt room

omit [Std.TransOrd D] in
theorem succ_ne (id : UInt64) : id + 1 ≠ id := by
  intro same
  have next := congrArg UInt64.toNat same
  rw [UInt64.toNat_add, show (1 : UInt64).toNat = 1 from rfl] at next
  omega

theorem Change.changed (change : Change key list before after) (coherent : before.Coherent)
    (room : after.nextId = before.nextId ∨ before.nextId.toNat + 1 < 2 ^ 64) :
    after.Coherent ∧ Changed key list before after := by
  cases change with
  | write vacant ordered nonempty encoded small =>
    obtain ⟨written, changed, -⟩ := coherent.writeInline vacant ordered nonempty encoded
    exact ⟨written, changed⟩
  | drop vacant =>
    obtain ⟨dropped, changed, -⟩ := coherent.dropSlot vacant
    exact ⟨dropped, changed⟩
  | rewrite leads found ordered nonempty =>
    obtain ⟨replaced, changed, -⟩ := coherent.replaceCached leads found ordered nonempty
    exact ⟨replaced, changed⟩
  | migrate vacant ordered nonempty encoded notFull full =>
    obtain ⟨read, decoded, same⟩ := Codec.decode_encode_set coherent.faithful ordered encoded
    obtain ⟨migrated, changed, -⟩ := coherent.migrate vacant ordered nonempty decoded same notFull
      (room.resolve_left (succ_ne _))
    exact ⟨migrated, changed⟩
  | release leads =>
    obtain ⟨released, changed, -⟩ := coherent.release leads
    exact ⟨released, changed⟩

omit [Std.TransOrd D] in
theorem Change.numbers (change : Change key list before after)
    (room : before.nextId.toNat + 1 < 2 ^ 64) : Numbers key before after := by
  cases change with
  | migrate vacant ordered nonempty encoded notFull full => exact .inr ⟨full, toNat_succ room⟩
  | _ => exact .inl rfl

omit [Std.TransOrd D] in
theorem Change.limit_eq (change : Change key list before after) : after.limit = before.limit := by
  cases change <;> rfl

omit [Std.TransOrd D] in
theorem Change.count_eq (change : Change key list before after) : after.count = before.count := by
  cases change <;> rfl

omit [Std.TransOrd D] in
theorem Change.capacity_eq (change : Change key list before after) :
    after.sets.capacity = before.sets.capacity := by
  cases change with
  | migrate => exact Lru.capacity_insert _ _ _
  | _ => rfl

omit [Std.TransOrd D] in
theorem Change.length_le (change : Change key list before after)
    (withinLimit : before.InlineWithinLimit)
    {set : OrderedSet D compare} (slot : after.slot? key = some (.inline set)) :
    list.length ≤ before.limit := by
  cases change with
  | write vacant ordered nonempty encoded small => exact small withinLimit
  | drop vacant =>
    rw [slot?_erase, if_pos rfl] at slot
    cases slot
  | rewrite leads found ordered nonempty => cases leads.symm.trans slot
  | migrate vacant ordered nonempty encoded notFull full =>
    have redirected : parse before.codec (Redirect.mk before.nextId).encode = some (.inline set) := by
      rw [← slot, slot?, SortedMap.find?_insert, if_pos rfl]
      rfl
    rw [parse_encode] at redirected
    cases redirected
  | release leads =>
    have gone : (none : Option (Slot D)) = some (.inline set) := by
      rw [← slot, slot?, SortedMap.find?_erase, if_pos rfl]
      rfl
    cases gone

omit [Std.TransOrd D] in
theorem Orphan.rearranged (orphan : Orphan key before after) (coherent : before.Coherent)
    (room : before.nextId.toNat + 1 < 2 ^ 64) :
    after.Coherent ∧ Rearranged before after ∧ Numbers key before after := by
  cases orphan with
  | @left bytes full =>
    obtain ⟨issued, rearranged, next⟩ := coherent.issue room bytes
    exact ⟨issued, rearranged, .inr ⟨full, next⟩⟩
  | @removed bytes full =>
    obtain ⟨issued, rearranged, next⟩ := coherent.issue room bytes
    obtain ⟨unled, -⟩ := coherent.unused (Nat.le_refl _)
    have unused : ∀ other, ¬ Leads _ other before.nextId := fun other leads =>
      unled other ((rearranged.slot?_eq other).symm.trans leads)
    obtain ⟨discarded, again⟩ := issued.discard unused
    exact ⟨discarded, rearranged.trans again, .inr ⟨full, next⟩⟩

omit [Std.TransOrd D] in
theorem Unfile.rearranged (unfile : Unfile key before after) (coherent : before.Coherent) :
    after.Coherent ∧ Rearranged before after ∧ after.nextId = before.nextId := by
  cases unfile with
  | lost leads found =>
    obtain ⟨removed, rearranged⟩ := coherent.unfile found
    exact ⟨removed, rearranged, rfl⟩

end AttributeIndex.Layout
