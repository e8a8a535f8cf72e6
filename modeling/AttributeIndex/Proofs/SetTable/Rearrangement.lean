import AttributeIndex.Proofs.SetTable.Layout
import Mathlib.Logic.Relation

namespace AttributeIndex.Layout

open SetTable (recordKey headerId)

theorem recordKey_inj {first second : UInt64} :
    recordKey first = recordKey second ↔ first = second := by
  constructor
  · intro same
    have read := congrArg Bytes.toUInt64 same
    rwa [recordKey, recordKey, Bytes.toUInt64_ofUInt64, Bytes.toUInt64_ofUInt64] at read
  · exact congrArg recordKey

/-! ## The records -/

namespace Filed

variable {records : SortedMap Bytes Bytes} {nextId : UInt64} (filed : Filed records nextId)
include filed

theorem insert {id : UInt64} (issued : id.toNat < nextId.toNat) (proper : 0 < id.toNat)
    (bytes : Bytes) : Filed (records.insert (recordKey id) bytes) nextId where
  begun := filed.begun
  numbered := by
    intro key found located
    rw [SortedMap.find?_insert] at located
    split at located
    · exact ⟨id, ‹_›, issued⟩
    · exact filed.numbered key found located
  header := by
    intro found located
    rw [SortedMap.find?_insert, if_neg] at located
    · exact filed.header found located
    · intro same
      rw [← recordKey_inj.1 same] at proper
      exact absurd proper (by decide)

theorem announce : Filed (records.insert (recordKey headerId) (Bytes.ofUInt64 nextId)) nextId where
  begun := filed.begun
  numbered := by
    intro key found located
    rw [SortedMap.find?_insert] at located
    split at located
    · exact ⟨headerId, ‹_›, filed.begun⟩
    · exact filed.numbered key found located
  header := by
    intro found located
    rw [SortedMap.find?_insert, if_pos rfl] at located
    cases located
    rw [Bytes.toUInt64_ofUInt64]
    exact ⟨Bytes.length_ofUInt64 nextId, filed.begun, Nat.le_refl _⟩

theorem erase (key : Bytes) : Filed (records.erase key) nextId where
  begun := filed.begun
  numbered := by
    intro other found located
    rw [SortedMap.find?_erase] at located
    split at located
    · cases located
    · exact filed.numbered other found located
  header := by
    intro found located
    rw [SortedMap.find?_erase] at located
    split at located
    · cases located
    · exact filed.header found located

theorem later {next : UInt64} (later : nextId.toNat ≤ next.toNat) : Filed records next where
  begun := Nat.lt_of_lt_of_le filed.begun later
  numbered := by
    intro key found located
    obtain ⟨id, same, issued⟩ := filed.numbered key found located
    exact ⟨id, same, by omega⟩
  header := by
    intro found located
    obtain ⟨long, positive, announced⟩ := filed.header found located
    exact ⟨long, positive, by omega⟩

end Filed

variable {D : Type} [Ord D] {layout : Layout D}

theorem stored?_eq_some {id : UInt64} {list : List D} :
    layout.stored? id = some list ↔
      ∃ bytes set, layout.records.find? (recordKey id) = some bytes ∧
        layout.codec.set.decode bytes = .ok set ∧ set.toList = list := by
  constructor
  · intro stored
    obtain ⟨set, read, same⟩ := Option.map_eq_some_iff.1 stored
    obtain ⟨bytes, found, decoded⟩ := Option.bind_eq_some_iff.1 read
    exact ⟨bytes, set, found, toOption_eq_some.1 decoded, same⟩
  · rintro ⟨bytes, set, found, decoded, same⟩
    rw [stored?, found, Option.bind_some, decoded, ← same]
    rfl

theorem stored?_insert (id other : UInt64) (bytes : Bytes) :
    ({ layout with records := layout.records.insert (recordKey id) bytes } : Layout D).stored? other =
      if other = id then (layout.codec.set.decode bytes).toOption.map OrderedSet.toList
      else layout.stored? other := by
  rw [stored?, SortedMap.find?_insert]
  by_cases same : other = id
  · rw [if_pos (recordKey_inj.2 same), if_pos same]
    rfl
  · rw [if_neg (mt recordKey_inj.1 same), if_neg same]
    rfl

theorem stored?_erase (id other : UInt64) :
    ({ layout with records := layout.records.erase (recordKey id) } : Layout D).stored? other =
      if other = id then none else layout.stored? other := by
  rw [stored?, SortedMap.find?_erase]
  by_cases same : other = id
  · rw [if_pos (recordKey_inj.2 same), if_pos same]
    rfl
  · rw [if_neg (mt recordKey_inj.1 same), if_neg same]
    rfl

theorem current?_of_cached {id : UInt64} {cached : CachedSet D}
    (found : layout.sets.find? id = some cached) :
    layout.current? id = some cached.set.toList := by
  rw [current?, found]

theorem current?_of_absent {id : UInt64} (absent : layout.sets.find? id = none) :
    layout.current? id = layout.stored? id := by
  rw [current?, absent]

theorem current?_congr {before after : Layout D} {id : UInt64}
    (sets : after.sets.find? id = before.sets.find? id)
    (stored : after.stored? id = before.stored? id) : after.current? id = before.current? id := by
  rw [current?, current?, sets, stored]

namespace Coherent

variable (coherent : layout.Coherent)
include coherent

theorem toList_cached {key : Bytes} {id : UInt64} {cached : CachedSet D}
    (leads : layout.Leads key id) (found : layout.sets.find? id = some cached) :
    cached.set.toList = layout.view.setOf key := by
  have current := (coherent.current_of_leads leads).1
  rw [current?_of_cached found] at current
  exact Option.some.inj current

theorem ne_header {key : Bytes} {id : UInt64} (leads : layout.Leads key id) : id ≠ headerId := by
  rintro rfl
  exact absurd (coherent.issued key headerId leads).1 (by decide)

theorem unused {id : UInt64} (fresh : layout.nextId.toNat ≤ id.toNat) :
    (∀ key, ¬ layout.Leads key id) ∧ layout.sets.find? id = none := by
  have unled : ∀ key, ¬ layout.Leads key id := by
    intro key leads
    have issued := (coherent.issued key id leads).2
    omega
  refine ⟨unled, ?_⟩
  cases found : layout.sets.find? id with
  | none => rfl
  | some cached =>
    obtain ⟨key, leads⟩ := (coherent.backs id cached found).owned
    exact absurd leads (unled key)

theorem fits_cached {id : UInt64} {cached : CachedSet D} (fits : layout.view.Fits layout.codec)
    (found : layout.sets.find? id = some cached) : layout.codec.Fits cached.set.toList := by
  obtain ⟨key, leads⟩ := (coherent.backs id cached found).owned
  rw [coherent.toList_cached leads found]
  exact fits key

theorem recache {sets : Lru UInt64 (CachedSet D)} (bounded : sets.Bounded)
    (kept : ∀ id, sets.find? id = layout.sets.find? id ∨
      sets.find? id = none ∧ ∀ cached, layout.sets.find? id = some cached → cached.dirty = false) :
    ({ layout with sets } : Layout D).Coherent ∧ Rearranged layout { layout with sets } := by
  refine coherent.rearrange rfl rfl rfl rfl ?_ (Nat.le_refl _) bounded ?_ coherent.filed
  · intro _ id _
    rcases kept id with same | ⟨gone, clean⟩
    · exact current?_congr same rfl
    · rw [current?_of_absent gone]
      cases found : layout.sets.find? id with
      | none => rw [current?_of_absent found]; rfl
      | some cached =>
        rw [current?_of_cached found]
        exact (coherent.backs id cached found).clean (clean cached found)
  · intro id cached found
    rcases kept id with same | ⟨gone, -⟩
    · have backs := coherent.backs id cached (same.symm.trans found)
      exact ⟨backs.ordered, backs.owned, backs.clean⟩
    · cases gone.symm.trans found

theorem load {key : Bytes} {id : UInt64} {set : OrderedSet D compare} (leads : layout.Leads key id)
    (absent : layout.sets.find? id = none) (stored : layout.stored? id = some set.toList)
    (ordered : set.Ordered) (room : layout.sets.isFull = false) :
    ({ layout with sets := layout.sets.insert id ⟨set, false⟩ } : Layout D).Coherent ∧
      Rearranged layout { layout with sets := layout.sets.insert id ⟨set, false⟩ } := by
  have inserted : ∀ other, (layout.sets.insert id ⟨set, false⟩).find? other =
      if other = id then some ⟨set, false⟩ else layout.sets.find? other := fun other =>
    Lru.find?_insert room id other _
  refine coherent.rearrange rfl rfl rfl rfl ?_ (Nat.le_refl _)
    (Lru.bounded_insert coherent.bounded room _ _) ?_ coherent.filed
  · intro _ other _
    by_cases same : other = id
    · rw [same, current?_of_cached (by rw [inserted, if_pos rfl]), current?_of_absent absent, stored]
    · exact current?_congr ((inserted other).trans (if_neg same)) rfl
  · intro other cached found
    rw [inserted] at found
    split at found
    · rename_i same
      cases found
      exact ⟨ordered, ⟨key, same ▸ leads⟩, fun _ => same ▸ stored⟩
    · have backs := coherent.backs other cached found
      exact ⟨backs.ordered, backs.owned, backs.clean⟩

/-! ## Writing and removing records -/

theorem writeBack [Std.TransOrd D] {id : UInt64} {cached : CachedSet D} {bytes : Bytes}
    {sets : Lru UInt64 (CachedSet D)} (found : layout.sets.find? id = some cached)
    (encoded : layout.codec.set.encode cached.set = .ok bytes) (bounded : sets.Bounded)
    (others : ∀ other, other ≠ id → sets.find? other = layout.sets.find? other)
    (here : sets.find? id = none ∨ sets.find? id = some ⟨cached.set, false⟩) :
    let written : Layout D :=
      { layout with records := layout.records.insert (recordKey id) bytes, sets }
    written.Coherent ∧ Rearranged layout written := by
  intro written
  have cachedBacks := coherent.backs id cached found
  obtain ⟨read, decoded, same⟩ :=
    Codec.decode_encode_set coherent.faithful cachedBacks.ordered encoded
  have stored : ∀ other, written.stored? other =
      if other = id then some cached.set.toList else layout.stored? other := by
    intro other
    refine (stored?_insert id other bytes).trans ?_
    rw [decoded, ← same]
    rfl
  obtain ⟨key, leads⟩ := cachedBacks.owned
  obtain ⟨proper, issued⟩ := coherent.issued key id leads
  refine coherent.rearrange rfl rfl rfl rfl ?_ (Nat.le_refl _) bounded ?_
    (coherent.filed.insert issued proper bytes)
  · intro _ other _
    by_cases equal : other = id
    · rw [equal, current?_of_cached found]
      rcases here with gone | clean
      · exact (current?_of_absent gone).trans ((stored id).trans (if_pos rfl))
      · have current : written.current? id = some (CachedSet.mk cached.set false).set.toList :=
          current?_of_cached clean
        exact current
    · exact current?_congr (others other equal) ((stored other).trans (if_neg equal))
  · intro other kept located
    by_cases equal : other = id
    · rw [equal] at located ⊢
      rcases here with gone | clean
      · cases gone.symm.trans located
      · cases clean.symm.trans located
        exact ⟨cachedBacks.ordered, ⟨key, leads⟩, fun _ => (stored id).trans (if_pos rfl)⟩
    · have backs := coherent.backs other kept ((others other equal).symm.trans located)
      refine ⟨backs.ordered, backs.owned, fun clean => ?_⟩
      rw [stored, if_neg equal]
      exact backs.clean clean

theorem unfile {id : UInt64} {cached : CachedSet D} (found : layout.sets.find? id = some cached) :
    let removed : Layout D :=
      { layout with
        records := layout.records.erase (recordKey id)
        sets := layout.sets.modify id fun cached => { cached with dirty := true } }
    removed.Coherent ∧ Rearranged layout removed := by
  intro removed
  have modified : ∀ other, removed.sets.find? other =
      if other = id then (layout.sets.find? other).map fun cached => { cached with dirty := true }
      else layout.sets.find? other := fun other => Lru.find?_modify layout.sets id other _
  have bounded := Lru.bounded_modify coherent.bounded id fun cached => { cached with dirty := true }
  have stored : ∀ other, other ≠ id → removed.stored? other = layout.stored? other := by
    intro other different
    exact (stored?_erase id other).trans (if_neg different)
  refine coherent.rearrange rfl rfl rfl rfl ?_ (Nat.le_refl _) bounded ?_ (coherent.filed.erase _)
  · intro _ other _
    by_cases same : other = id
    · rw [same, current?_of_cached found, current?_of_cached (by rw [modified, if_pos rfl, found]; rfl)]
    · exact current?_congr ((modified other).trans (if_neg same)) (stored other same)
  · intro other kept located
    rw [modified] at located
    split at located
    · rename_i same
      rw [same, found] at located
      cases located
      have backs := coherent.backs id cached found
      exact ⟨backs.ordered, same ▸ backs.owned, fun clean => by cases clean⟩
    · rename_i different
      have backs := coherent.backs other kept located
      refine ⟨backs.ordered, backs.owned, fun clean => ?_⟩
      rw [stored other different]
      exact backs.clean clean

theorem refile {records : SortedMap Bytes Bytes} {nextId : UInt64}
    (stored : ∀ key id, layout.Leads key id →
      ({ layout with records, nextId } : Layout D).stored? id = layout.stored? id)
    (later : layout.nextId.toNat ≤ nextId.toNat) (filed : Filed records nextId) :
    ({ layout with records, nextId } : Layout D).Coherent ∧
      Rearranged layout { layout with records, nextId } := by
  refine coherent.rearrange rfl rfl rfl rfl ?_ later coherent.bounded ?_ filed
  · intro key id leads
    exact current?_congr rfl (stored key id leads)
  · intro id cached found
    have backs := coherent.backs id cached found
    obtain ⟨key, leads⟩ := backs.owned
    refine ⟨backs.ordered, backs.owned, fun clean => ?_⟩
    rw [stored key id leads]
    exact backs.clean clean

theorem announce :
    let written : Layout D := { layout with
      records := layout.records.insert (recordKey headerId) (Bytes.ofUInt64 layout.nextId) }
    written.Coherent ∧ Rearranged layout written := by
  refine coherent.refile (fun key id leads => ?_) (Nat.le_refl _) coherent.filed.announce
  exact (stored?_insert headerId id _).trans (if_neg (coherent.ne_header leads))

theorem issue (room : layout.nextId.toNat + 1 < 2 ^ 64) (bytes : Bytes) :
    let written : Layout D := { layout with
      records := layout.records.insert (recordKey layout.nextId) bytes
      nextId := layout.nextId + 1 }
    written.Coherent ∧ Rearranged layout written ∧
      written.nextId.toNat = layout.nextId.toNat + 1 := by
  have next : (layout.nextId + 1).toNat = layout.nextId.toNat + 1 := by
    rw [UInt64.toNat_add]
    exact Nat.mod_eq_of_lt room
  have later : layout.nextId.toNat ≤ (layout.nextId + 1).toNat := by omega
  have filed : Filed (layout.records.insert (recordKey layout.nextId) bytes) (layout.nextId + 1) :=
    (coherent.filed.later later).insert (by omega) coherent.filed.begun bytes
  rw [← and_assoc]
  refine ⟨coherent.refile (fun key id leads => ?_) later filed, next⟩
  have issued := (coherent.issued key id leads).2
  refine (stored?_insert layout.nextId id bytes).trans (if_neg ?_)
  rintro rfl
  omega

theorem discard {id : UInt64} (unused : ∀ key, ¬ layout.Leads key id) :
    let removed : Layout D := { layout with records := layout.records.erase (recordKey id) }
    removed.Coherent ∧ Rearranged layout removed := by
  refine coherent.refile (fun key other leads => ?_) (Nat.le_refl _) (coherent.filed.erase _)
  refine (stored?_erase id other).trans (if_neg ?_)
  rintro rfl
  exact unused key leads

end Coherent

/-! ## Moves -/

/-- The cache keeps within its bounds, and every set in it ascends. -/
structure CacheOrdered (layout : Layout D) : Prop where
  bounded : layout.sets.Bounded
  ordered : ∀ id cached, layout.sets.find? id = some cached → cached.set.Ordered

theorem uncached_of_empty {cacheSize : Nat} (empty : layout.sets = .empty cacheSize) (id : UInt64) :
    layout.sets.find? id = none := by
  rw [empty, Lru.find?_empty]

theorem cacheOrdered_of_empty {cacheSize : Nat} (cached : 0 < cacheSize)
    (empty : layout.sets = .empty cacheSize) : layout.CacheOrdered where
  bounded := empty ▸ Lru.bounded_empty cached
  ordered id _ found := by cases (uncached_of_empty empty id).symm.trans found

structure Sound (layout : Layout D) : Prop where
  coherent : layout.Coherent
  fits : layout.view.Fits layout.codec

/-- The record does not hold the latest change of its set. -/
def Waits (layout : Layout D) (id : UInt64) : Prop :=
  ∃ cached, layout.sets.find? id = some cached ∧ cached.dirty = true

def Flushable (layout : Layout D) : Prop :=
  ∀ id cached, layout.sets.find? id = some cached → cached.dirty = true →
    layout.codec.Fits cached.set.toList

theorem Sound.flushable (sound : layout.Sound) : layout.Flushable :=
  fun _ _ found _ => sound.coherent.fits_cached sound.fits found

/-- All that is ever done to bring sets to other places. -/
inductive Move : Layout D → Layout D → Prop
  | recache {before : Layout D} {sets : Lru UInt64 (CachedSet D)} (bounded : sets.Bounded)
      (capacity : sets.capacity = before.sets.capacity)
      (kept : ∀ id, sets.find? id = before.sets.find? id ∨
        sets.find? id = none ∧ ∀ cached, before.sets.find? id = some cached → cached.dirty = false) :
      Move before { before with sets }
  | writeBack {before : Layout D} {id : UInt64} {cached : CachedSet D} {bytes : Bytes}
      {sets : Lru UInt64 (CachedSet D)} (found : before.sets.find? id = some cached)
      (dirty : cached.dirty = true) (encoded : before.codec.set.encode cached.set = .ok bytes)
      (bounded : sets.Bounded) (capacity : sets.capacity = before.sets.capacity)
      (others : ∀ other, other ≠ id → sets.find? other = before.sets.find? other)
      (here : sets.find? id = none ∨ sets.find? id = some ⟨cached.set, false⟩) :
      Move before { before with records := before.records.insert (recordKey id) bytes, sets }
  | load {before : Layout D} {key : Bytes} {id : UInt64} {bytes : Bytes}
      {set : OrderedSet D compare} (leads : before.Leads key id)
      (absent : before.sets.find? id = none)
      (located : before.records.find? (recordKey id) = some bytes)
      (decoded : before.codec.set.decode bytes = .ok set) (room : before.sets.isFull = false) :
      Move before { before with sets := before.sets.insert id ⟨set, false⟩ }
  | announce {before : Layout D} :
      Move before { before with
        records := before.records.insert (recordKey headerId) (Bytes.ofUInt64 before.nextId) }

abbrev Moves : Layout D → Layout D → Prop :=
  Relation.ReflTransGen Move

structure Alike (before after : Layout D) : Prop where
  codec_eq : after.codec = before.codec
  limit_eq : after.limit = before.limit
  slots_eq : after.slots = before.slots
  nextId_eq : after.nextId = before.nextId
  count_eq : after.count = before.count
  capacity_eq : after.sets.capacity = before.sets.capacity

variable {before after : Layout D}

theorem Move.alike (move : Move before after) : Alike before after := by
  cases move with
  | recache bounded capacity kept => exact ⟨rfl, rfl, rfl, rfl, rfl, capacity⟩
  | writeBack found dirty encoded bounded capacity others here =>
    exact ⟨rfl, rfl, rfl, rfl, rfl, capacity⟩
  | load leads absent located decoded room =>
    exact ⟨rfl, rfl, rfl, rfl, rfl, Lru.capacity_insert _ _ _⟩
  | announce => exact ⟨rfl, rfl, rfl, rfl, rfl, rfl⟩

theorem Moves.alike (moves : Moves before after) : Alike before after := by
  induction moves with
  | refl => exact ⟨rfl, rfl, rfl, rfl, rfl, rfl⟩
  | tail _ move same =>
    have last := move.alike
    exact ⟨last.codec_eq.trans same.codec_eq, last.limit_eq.trans same.limit_eq,
      last.slots_eq.trans same.slots_eq, last.nextId_eq.trans same.nextId_eq,
      last.count_eq.trans same.count_eq, last.capacity_eq.trans same.capacity_eq⟩

theorem Alike.slot?_eq (alike : Alike before after) (key : Bytes) :
    after.slot? key = before.slot? key :=
  slot?_congr alike.codec_eq alike.slots_eq key

theorem Alike.leads_iff (alike : Alike before after) {key : Bytes} {id : UInt64} :
    after.Leads key id ↔ before.Leads key id := by
  rw [Leads, Leads, alike.slot?_eq]

theorem Coherent.cacheOrdered (coherent : layout.Coherent) : layout.CacheOrdered :=
  ⟨coherent.bounded, fun id cached found => (coherent.backs id cached found).ordered⟩

/-! ### Records and waiting changes -/

theorem Coherent.stored_of_idle (coherent : layout.Coherent) {id : UInt64}
    (idle : ¬ layout.Waits id) :
    layout.stored? id = layout.current? id := by
  cases found : layout.sets.find? id with
  | none => exact (current?_of_absent found).symm
  | some cached =>
    rw [current?_of_cached found]
    refine (coherent.backs id cached found).clean ?_
    exact Bool.eq_false_of_not_eq_true fun dirty => idle ⟨cached, found, dirty⟩

theorem Move.waits (move : Move before after) {id : UInt64} {cached : CachedSet D}
    (found : after.sets.find? id = some cached) (dirty : cached.dirty = true) :
    before.sets.find? id = some cached := by
  cases move with
  | recache bounded capacity kept =>
    rcases kept id with same | ⟨gone, -⟩
    · exact same.symm.trans found
    · cases gone.symm.trans found
  | @writeBack written _ _ _ wrote _ _ _ _ others here =>
    by_cases same : id = written
    · rw [same] at found
      rcases here with gone | clean
      · cases gone.symm.trans found
      · cases clean.symm.trans found
        cases dirty
    · exact (others id same).symm.trans found
  | @load _ loaded _ _ _ _ _ _ room =>
    rw [Lru.find?_insert room] at found
    split at found
    · cases found
      cases dirty
    · exact found
  | announce => exact found

theorem Move.record (move : Move before after) {id : UInt64} (proper : id ≠ headerId)
    (idle : ¬ before.Waits id ∨ after.Waits id) :
    after.records.find? (recordKey id) = before.records.find? (recordKey id) := by
  cases move with
  | recache bounded capacity kept => rfl
  | @writeBack written cached _ _ found dirty _ _ _ others here =>
    refine (SortedMap.find?_insert _ _ _ _).trans (if_neg fun same => ?_)
    rw [recordKey_inj.1 same] at idle
    rcases idle with never | ⟨kept, still, waiting⟩
    · exact never ⟨cached, found, dirty⟩
    · rcases here with gone | clean
      · cases gone.symm.trans still
      · cases clean.symm.trans still
        cases waiting
  | load leads absent located decoded room => rfl
  | announce =>
    exact (SortedMap.find?_insert _ _ _ _).trans (if_neg fun same => proper (recordKey_inj.1 same))

theorem Moves.waits (moves : Moves before after) {id : UInt64} {cached : CachedSet D}
    (found : after.sets.find? id = some cached) (dirty : cached.dirty = true) :
    before.sets.find? id = some cached := by
  induction moves with
  | refl => exact found
  | tail _ move earlier => exact earlier (move.waits found dirty)

theorem Moves.flushable (moves : Moves before after) (flushable : before.Flushable) :
    after.Flushable := by
  intro id cached found dirty
  rw [moves.alike.codec_eq]
  exact flushable id cached (moves.waits found dirty) dirty

theorem Move.flushable_of (move : Move before after) (cache : before.CacheOrdered)
    (flushable : after.Flushable) : before.Flushable := by
  intro id cached found dirty
  rw [← move.alike.codec_eq]
  cases move with
  | recache bounded capacity kept =>
    rcases kept id with same | ⟨-, clean⟩
    · exact flushable id cached (same.trans found) dirty
    · cases (clean cached found).symm.trans dirty
  | @writeBack written _ bytes _ wrote _ encoded _ _ others here =>
    by_cases same : id = written
    · rw [same, wrote] at found
      cases found
      exact (Codec.exists_encode_set (cache.ordered written _ wrote)).1 ⟨bytes, encoded⟩
    · exact flushable id cached ((others id same).trans found) dirty
  | @load _ loaded _ _ _ absent _ _ room =>
    refine flushable id cached ((Lru.find?_insert room loaded id _).trans ?_) dirty
    rw [if_neg, found]
    rintro rfl
    cases absent.symm.trans found
  | announce => exact flushable id cached found dirty

theorem Moves.record (moves : Moves before after) {id : UInt64} (proper : id ≠ headerId)
    (idle : ¬ before.Waits id ∨ after.Waits id) :
    after.records.find? (recordKey id) = before.records.find? (recordKey id) := by
  induction moves with
  | refl => rfl
  | @tail middle after moves move earlier =>
    have idleMiddle : ¬ before.Waits id ∨ middle.Waits id := by
      rcases idle with never | ⟨cached, found, dirty⟩
      · exact .inl never
      · exact .inr ⟨cached, move.waits found dirty, dirty⟩
    have idleLast : ¬ middle.Waits id ∨ after.Waits id := by
      rcases idle with never | waits
      · exact .inl fun ⟨cached, found, dirty⟩ => never ⟨cached, Moves.waits moves found dirty, dirty⟩
      · exact .inr waits
    exact (move.record proper idleLast).trans (earlier idleMiddle)

variable [Std.TransOrd D]

theorem Move.cacheOrdered (move : Move before after) (cache : before.CacheOrdered) :
    after.CacheOrdered := by
  cases move with
  | recache bounded capacity kept =>
    refine ⟨bounded, fun id cached found => ?_⟩
    rcases kept id with same | ⟨gone, -⟩
    · exact cache.ordered id cached (same.symm.trans found)
    · cases gone.symm.trans found
  | @writeBack id _ _ _ found _ _ bounded _ others here =>
    refine ⟨bounded, fun other cached located => ?_⟩
    by_cases same : other = id
    · rw [same] at located
      rcases here with gone | clean
      · cases gone.symm.trans located
      · cases clean.symm.trans located
        have ordered := cache.ordered id _ found
        exact ordered
    · exact cache.ordered other cached ((others other same).symm.trans located)
  | load leads absent located decoded room =>
    refine ⟨Lru.bounded_insert cache.bounded room _ _, fun id cached found => ?_⟩
    rw [Lru.find?_insert room] at found
    split at found
    · cases found
      exact Codec.ordered_of_decode decoded
    · exact cache.ordered id cached found
  | announce => exact ⟨cache.bounded, cache.ordered⟩

theorem Moves.cacheOrdered (moves : Moves before after) (cache : before.CacheOrdered) :
    after.CacheOrdered := by
  induction moves with
  | refl => exact cache
  | tail _ move still => exact move.cacheOrdered still

theorem Moves.flushable_iff (moves : Moves before after) (cache : before.CacheOrdered) :
    after.Flushable ↔ before.Flushable := by
  refine ⟨fun flushable => ?_, moves.flushable⟩
  induction moves with
  | refl => exact flushable
  | tail moves move earlier =>
    exact earlier (move.flushable_of (Moves.cacheOrdered moves cache) flushable)

theorem Move.rearranged (move : Move before after) (coherent : before.Coherent) :
    after.Coherent ∧ Rearranged before after := by
  cases move with
  | recache bounded capacity kept => exact coherent.recache bounded kept
  | writeBack found dirty encoded bounded capacity others here =>
    exact coherent.writeBack found encoded bounded others here
  | load leads absent located decoded room =>
    exact coherent.load leads absent (stored?_eq_some.2 ⟨_, _, located, decoded, rfl⟩)
      (Codec.ordered_of_decode decoded) room
  | announce => exact coherent.announce

theorem Moves.rearranged (moves : Moves before after) (coherent : before.Coherent) :
    after.Coherent ∧ Rearranged before after := by
  induction moves with
  | refl => exact ⟨coherent, .refl _⟩
  | tail _ move earlier =>
    obtain ⟨last, further⟩ := move.rearranged earlier.1
    exact ⟨last, earlier.2.trans further⟩

theorem Moves.sound (moves : Moves before after) (sound : before.Sound) : after.Sound := by
  obtain ⟨coherent, rearranged⟩ := moves.rearranged sound.coherent
  refine ⟨coherent, ?_⟩
  rw [rearranged.view_eq, rearranged.codec_eq]
  exact sound.fits

end AttributeIndex.Layout
