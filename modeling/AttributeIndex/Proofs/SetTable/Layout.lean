import AttributeIndex.Proofs.Lru
import AttributeIndex.Proofs.SetTable.SetMap
import AttributeIndex.Proofs.Table.Lawful
import AttributeIndex.SetTable.Opening

/-!
What a set table holds, apart from how its stores are reached: slots, records and cached sets.

`view` is the map that a layout stands for: the set of a key is in its slot, or in the cache, or in
the record to which the slot leads. A layout is coherent if each set is at one of these places and
each cached set that is not dirty agrees with its record. The lemmas below say of every change that
a set table makes how it alters the view.
-/

namespace AttributeIndex

open SetTable (recordKey headerId)

structure Layout (D : Type) [Ord D] where
  codec : Codec D
  limit : Nat
  slots : SortedMap Bytes Bytes
  records : SortedMap Bytes Bytes
  sets : Lru UInt64 (CachedSet D)
  nextId : UInt64
  count : Nat

namespace Layout

variable {D : Type} [Ord D]

def parse (codec : Codec D) (bytes : Bytes) : Option (Slot D) :=
  if Redirect.hasForm bytes then (Redirect.decode bytes).toOption.map .overflow
  else (codec.set.decode bytes).toOption.map .inline

def slot? (layout : Layout D) (key : Bytes) : Option (Slot D) :=
  (layout.slots.find? key).bind (parse layout.codec)

def stored? (layout : Layout D) (id : UInt64) : Option (List D) :=
  ((layout.records.find? (recordKey id)).bind fun bytes =>
    (layout.codec.set.decode bytes).toOption).map OrderedSet.toList

def current? (layout : Layout D) (id : UInt64) : Option (List D) :=
  match layout.sets.find? id with
  | some cached => some cached.set.toList
  | none => layout.stored? id

def held? (layout : Layout D) : Slot D → Option (List D)
  | .inline set => some set.toList
  | .overflow redirect => layout.current? redirect.recordId

def view (layout : Layout D) : SetMap D :=
  layout.slots.mapValues fun key _ => ((layout.slot? key).bind layout.held?).getD []

def Leads (layout : Layout D) (key : Bytes) (id : UInt64) : Prop :=
  layout.slot? key = some (.overflow ⟨id⟩)

/-- A cached set belongs to a key, and it is in its record unless it is dirty. -/
structure Backs (layout : Layout D) (id : UInt64) (cached : CachedSet D) : Prop where
  ordered : cached.set.Ordered
  owned : ∃ key, layout.Leads key id
  clean : cached.dirty = false → layout.stored? id = some cached.set.toList

/-- All records have ids that were given out, and the header does not announce more. -/
structure Filed (records : SortedMap Bytes Bytes) (nextId : UInt64) : Prop where
  begun : 0 < nextId.toNat
  numbered : ∀ key bytes, records.find? key = some bytes →
    ∃ id : UInt64, key = recordKey id ∧ id.toNat < nextId.toNat
  header : ∀ bytes, records.find? (recordKey headerId) = some bytes →
    bytes.length = 8 ∧ 0 < bytes.toUInt64.toNat ∧ bytes.toUInt64.toNat ≤ nextId.toNat

structure Coherent (layout : Layout D) : Prop where
  faithful : layout.codec.Faithful
  holds : ∀ key bytes, layout.slots.find? key = some bytes →
    ∃ slot list, layout.slot? key = some slot ∧ layout.held? slot = some list ∧ list ≠ []
  distinct : ∀ key other id, layout.Leads key id → layout.Leads other id → key = other
  issued : ∀ key id, layout.Leads key id →
    0 < id.toNat ∧ id.toNat < layout.nextId.toNat
  bounded : layout.sets.Bounded
  backs : ∀ id cached, layout.sets.find? id = some cached → layout.Backs id cached
  filed : Filed layout.records layout.nextId

def Counted (layout : Layout D) : Prop :=
  layout.count = layout.view.total

/-- Sets may have changed their places; what the slots hold and what the keys have is the same. -/
structure Rearranged (before after : Layout D) : Prop where
  codec_eq : after.codec = before.codec
  limit_eq : after.limit = before.limit
  slots_eq : after.slots = before.slots
  count_eq : after.count = before.count
  view_eq : after.view = before.view

theorem Rearranged.refl (layout : Layout D) : Rearranged layout layout :=
  ⟨rfl, rfl, rfl, rfl, rfl⟩

theorem Rearranged.trans {first second third : Layout D} (before : Rearranged first second)
    (after : Rearranged second third) : Rearranged first third :=
  ⟨after.codec_eq.trans before.codec_eq, after.limit_eq.trans before.limit_eq,
    after.slots_eq.trans before.slots_eq, after.count_eq.trans before.count_eq,
    after.view_eq.trans before.view_eq⟩

theorem slot?_congr {before after : Layout D} (codec : after.codec = before.codec)
    (slots : after.slots = before.slots) (key : Bytes) : after.slot? key = before.slot? key := by
  rw [slot?, slot?, codec, slots]

theorem Rearranged.slot?_eq {before after : Layout D} (rearranged : Rearranged before after)
    (key : Bytes) : after.slot? key = before.slot? key :=
  slot?_congr rearranged.codec_eq rearranged.slots_eq key

/-! ## Reading the view -/

theorem parse_encode (codec : Codec D) (redirect : Redirect) :
    parse codec redirect.encode = some (.overflow redirect) := by
  rw [parse, if_pos (Redirect.hasForm_encode redirect), Redirect.decode_encode]
  rfl

theorem parse_of_redirect {codec : Codec D} {bytes : Bytes} {slot : Slot D}
    (form : Redirect.hasForm bytes = true) (parsed : parse codec bytes = some slot) :
    ∃ redirect, Redirect.decode bytes = .ok redirect ∧ slot = .overflow redirect := by
  rw [parse, if_pos form] at parsed
  obtain ⟨redirect, decoded, rfl⟩ := Option.map_eq_some_iff.1 parsed
  exact ⟨redirect, toOption_eq_some.1 decoded, rfl⟩

theorem parse_of_set {codec : Codec D} {bytes : Bytes} {slot : Slot D}
    (form : Redirect.hasForm bytes = false) (parsed : parse codec bytes = some slot) :
    ∃ set, codec.set.decode bytes = .ok set ∧ slot = .inline set := by
  rw [parse, if_neg (by simp [form])] at parsed
  obtain ⟨set, decoded, rfl⟩ := Option.map_eq_some_iff.1 parsed
  exact ⟨set, toOption_eq_some.1 decoded, rfl⟩

theorem setOf_view (layout : Layout D) (key : Bytes) :
    layout.view.setOf key = ((layout.slot? key).bind layout.held?).getD [] := by
  rw [SetMap.setOf, view, SortedMap.find?_mapValues]
  cases found : layout.slots.find? key with
  | none => rw [slot?, found]; rfl
  | some bytes => rfl

theorem total_view (layout : Layout D) : layout.view.total =
    (layout.slots.entries.map fun entry => (layout.view.setOf entry.1).length).sum := by
  have entries : layout.view.entries = layout.slots.entries.map fun entry =>
      (entry.1, ((layout.slot? entry.1).bind layout.held?).getD []) := rfl
  rw [SetMap.total, SortedMap.weight, entries, List.map_map]
  congr 1
  apply List.map_congr_left
  intro entry _
  rw [setOf_view]
  rfl

theorem size_view (layout : Layout D) : layout.view.size = layout.slots.size :=
  SortedMap.size_mapValues _ _

theorem keys_view (layout : Layout D) : layout.view.keys = layout.slots.keys :=
  SortedMap.keys_mapValues _ _

variable [Std.TransOrd D] {layout : Layout D}

theorem ordered_inline {key : Bytes} {set : OrderedSet D compare}
    (slot : layout.slot? key = some (.inline set)) : set.Ordered := by
  obtain ⟨bytes, -, parsed⟩ := Option.bind_eq_some_iff.1 slot
  cases form : Redirect.hasForm bytes with
  | true =>
    obtain ⟨redirect, -, impossible⟩ := parse_of_redirect form parsed
    cases impossible
  | false =>
    obtain ⟨read, decoded, same⟩ := parse_of_set form parsed
    cases same
    exact Codec.ordered_of_decode decoded

theorem ascending_stored {id : UInt64} {list : List D} (stored : layout.stored? id = some list) :
    Sequence.Ascending compare list := by
  obtain ⟨set, found, rfl⟩ := Option.map_eq_some_iff.1 stored
  obtain ⟨bytes, -, parsed⟩ := Option.bind_eq_some_iff.1 found
  exact (Codec.ordered_of_decode (toOption_eq_some.1 parsed)).ascending

omit [Std.TransOrd D] in
theorem setOf_of_none {key : Bytes} (slot : layout.slot? key = none) :
    layout.view.setOf key = [] := by
  rw [setOf_view, slot]
  rfl

omit [Std.TransOrd D] in
theorem setOf_of_inline {key : Bytes} {set : OrderedSet D compare}
    (slot : layout.slot? key = some (.inline set)) : layout.view.setOf key = set.toList := by
  rw [setOf_view, slot]
  rfl

namespace Coherent

variable (coherent : layout.Coherent)
include coherent

omit [Std.TransOrd D] in
theorem find?_view (key : Bytes) :
    layout.view.find? key = (layout.slot? key).bind layout.held? := by
  rw [view, SortedMap.find?_mapValues]
  cases located : layout.slots.find? key with
  | none => rw [slot?, located]; rfl
  | some bytes =>
    obtain ⟨slot, list, parsed, held, -⟩ := coherent.holds key bytes located
    rw [parsed, Option.bind_some, held]
    rfl

theorem ascending_current {id : UInt64} {list : List D} (found : layout.current? id = some list) :
    Sequence.Ascending compare list := by
  rw [current?] at found
  split at found
  · rename_i cached located
    cases found
    exact (coherent.backs id cached located).ordered.ascending
  · exact ascending_stored found

theorem proper : layout.view.Proper := by
  intro key set found
  obtain ⟨bytes, located, -⟩ := Option.map_eq_some_iff.1
    ((SortedMap.find?_mapValues layout.slots _ key).symm.trans found)
  obtain ⟨slot, list, parsed, held, nonempty⟩ := coherent.holds key bytes located
  rw [coherent.find?_view, parsed, Option.bind_some, held] at found
  cases found
  refine ⟨nonempty, ?_⟩
  cases slot with
  | inline set =>
    cases held
    exact (ordered_inline parsed).ascending
  | overflow redirect => exact coherent.ascending_current held

omit [Std.TransOrd D] in
theorem current_of_leads {key : Bytes} {id : UInt64} (leads : layout.Leads key id) :
    layout.current? id = some (layout.view.setOf key) ∧ layout.view.setOf key ≠ [] := by
  obtain ⟨bytes, located, -⟩ := Option.bind_eq_some_iff.1 leads
  obtain ⟨slot, list, parsed, held, nonempty⟩ := coherent.holds key bytes located
  rw [setOf_view, parsed, Option.bind_some, held, Option.getD_some]
  rw [leads] at parsed
  cases parsed
  exact ⟨held, nonempty⟩

end Coherent

omit [Std.TransOrd D] in
theorem Coherent.rearrange {before after : Layout D} (coherent : before.Coherent)
    (codec : after.codec = before.codec) (limit : after.limit = before.limit)
    (slots : after.slots = before.slots) (count : after.count = before.count)
    (current : ∀ key id, before.Leads key id → after.current? id = before.current? id)
    (later : before.nextId.toNat ≤ after.nextId.toNat) (bounded : after.sets.Bounded)
    (backs : ∀ id cached, after.sets.find? id = some cached → after.Backs id cached)
    (filed : Filed after.records after.nextId) : after.Coherent ∧ Rearranged before after := by
  have slot := slot?_congr codec slots
  have held : ∀ key slot, before.slot? key = some slot → after.held? slot = before.held? slot := by
    intro key slot found
    cases slot with
    | inline set => rfl
    | overflow redirect => exact current key redirect.recordId found
  have leads : ∀ key id, after.Leads key id → before.Leads key id := fun key id leads =>
    (slot key).symm.trans leads
  refine ⟨⟨codec ▸ coherent.faithful, ?_, ?_, ?_, bounded, backs, filed⟩,
    codec, limit, slots, count, ?_⟩
  · intro key bytes found
    rw [slots] at found
    obtain ⟨entry, list, parsed, held', nonempty⟩ := coherent.holds key bytes found
    exact ⟨entry, list, (slot key).trans parsed, (held key entry parsed).trans held', nonempty⟩
  · intro key other id first second
    exact coherent.distinct key other id (leads key id first) (leads other id second)
  · intro key id lead
    have bounds := coherent.issued key id (leads key id lead)
    omega
  · rw [view, view, slots]
    congr 1
    funext key _
    rw [slot key]
    cases found : before.slot? key with
    | none => rfl
    | some entry => rw [Option.bind_some, Option.bind_some, held key entry found]

end Layout

end AttributeIndex
