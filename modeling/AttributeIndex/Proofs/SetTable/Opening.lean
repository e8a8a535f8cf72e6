import AttributeIndex.Proofs.SetTable.Counting
import AttributeIndex.Proofs.SetTable.Traversal

namespace AttributeIndex

open Observed

namespace Layout

open SetTable (recordKey headerId)

namespace Filed

variable {records : SortedMap Bytes Bytes} {nextId : UInt64} (filed : Filed records nextId)
include filed

theorem to_numbered : Numbered records where
  header header found := (filed.header header found).1
  last key final := by
    obtain ⟨bytes, found⟩ := SortedMap.mem_keys.1 (List.mem_of_getLast? final)
    obtain ⟨id, rfl, -⟩ := filed.numbered key bytes found
    exact Bytes.length_ofUInt64 id

theorem lt_nextId {id : UInt64} {bytes : Bytes} (found : records.find? (recordKey id) = some bytes) :
    id.toNat + 1 ≤ nextId.toNat := by
  obtain ⟨other, same, issued⟩ := filed.numbered _ bytes found
  rw [recordKey_inj.1 same]
  exact issued

theorem announcedId_le_nextId : (announcedId records).toNat ≤ nextId.toNat := by
  cases found : records.find? (recordKey headerId) with
  | none =>
    have first : announcedId records = headerId + 1 := by rw [announcedId, found]
    rw [first]
    exact filed.begun
  | some header =>
    rw [announcedId_of_header found]
    exact (filed.header header found).2.2

theorem resume :
    Filed records (idAfter records) ∧ (idAfter records).toNat ≤ nextId.toNat := by
  have numbered := filed.to_numbered
  have room : ∀ id bytes, records.find? (recordKey id) = some bytes → id.toNat + 1 < 2 ^ 64 :=
    fun _ _ found => Nat.lt_of_le_of_lt (filed.lt_nextId found) nextId.toNat_lt
  refine ⟨⟨numbered.idAfter_pos room, fun key bytes found => ?_, fun header found => ?_⟩, ?_⟩
  · obtain ⟨id, rfl, -⟩ := filed.numbered key bytes found
    exact ⟨id, rfl, numbered.lt_idAfter room found⟩
  · obtain ⟨long, positive, -⟩ := filed.header header found
    refine ⟨long, positive, ?_⟩
    rw [← announcedId_of_header found]
    exact announcedId_le
  · exact numbered.idAfter_le filed.announcedId_le_nextId fun _ _ => filed.lt_nextId

end Filed

variable {D : Type} [Ord D] {layout : Layout D}

theorem Coherent.announced?_eq (coherent : layout.Coherent)
    (uncached : ∀ id, layout.sets.find? id = none) {key bytes : Bytes}
    (found : layout.slots.find? key = some bytes) :
    announced? layout.records bytes = some (layout.view.setOf key).length := by
  obtain ⟨slot, list, parsed, held, -⟩ := coherent.holds key bytes found
  have listed : layout.view.setOf key = list := by
    rw [setOf_view, parsed, Option.bind_some, held]
    rfl
  obtain ⟨set, fetched, same⟩ : ∃ set, layout.fetch? slot = some set ∧ set.toList = list := by
    cases slot with
    | inline set => exact ⟨set, rfl, Option.some.inj held⟩
    | overflow redirect =>
      have stored := (current?_of_absent (uncached redirect.recordId)).symm.trans held
      exact Option.map_eq_some_iff.1 stored
  rw [listed, ← same]
  refine (announced?_of_fetch found ?_).1
  rw [parsed, Option.bind_some, fetched]

theorem Coherent.announcedTotal_eq (coherent : layout.Coherent)
    (uncached : ∀ id, layout.sets.find? id = none) :
    announcedTotal layout.slots layout.records = layout.view.total := by
  rw [total_view, announcedTotal]
  congr 1
  refine List.map_congr_left fun entry member => ?_
  rw [coherent.announced?_eq uncached (SortedMap.find?_eq_some.2 member), Option.getD_some]

theorem Coherent.resume (coherent : layout.Coherent)
    (uncached : ∀ id, layout.sets.find? id = none) (limit : Nat) {sets : Lru UInt64 (CachedSet D)}
    (bounded : sets.Bounded) (empty : ∀ id, sets.find? id = none) {nextId : UInt64}
    (filed : Filed layout.records nextId) :
    let resumed : Layout D :=
      { layout with limit, sets, nextId, count := layout.view.total }
    resumed.Coherent ∧ resumed.view = layout.view := by
  intro resumed
  have current : ∀ id, resumed.current? id = layout.current? id := fun id =>
    current?_congr ((empty id).trans (uncached id).symm) rfl
  have held : resumed.held? = layout.held? := by
    funext slot
    cases slot with
    | inline set => rfl
    | overflow redirect => exact current redirect.recordId
  refine ⟨⟨coherent.faithful, ?_, coherent.distinct, ?_, bounded, ?_, filed⟩, ?_⟩
  · intro key bytes found
    rw [held]
    exact coherent.holds key bytes found
  · intro key id leads
    refine ⟨(coherent.issued key id leads).1, ?_⟩
    have stored := (coherent.current_of_leads leads).1
    rw [current?_of_absent (uncached id)] at stored
    obtain ⟨bytes, -, found, -⟩ := stored?_eq_some.1 stored
    obtain ⟨other, same, issued⟩ := filed.numbered _ _ found
    rw [recordKey_inj.1 same]
    exact issued
  · intro id cached found
    rw [empty] at found
    cases found
  · rw [view, view, held]
    rfl

end Layout

namespace SetTable

open Layout Stores

variable {σ D : Type} [Ord D] [Table σ] [LawfulTable σ]

variable {layout : Layout D}

structure Resumed (layout : Layout D) (limit : Nat) (stores : Stores σ) (table : SetTable σ D) :
    Prop where
  coherent : table.layout.Coherent
  counted : table.layout.Counted
  view_eq : table.layout.view = layout.view
  codec_eq : table.layout.codec = layout.codec
  limit_eq : table.layout.limit = limit
  slots_eq : table.layout.slots = layout.slots
  nextId_le : table.layout.nextId.toNat ≤ layout.nextId.toNat
  isClosed_eq : table.isClosed = false
  still : Still stores table.stores

theorem openOver_meets (name : String) {limit cacheSize : Nat} {stores : Stores σ}
    (coherent : layout.Coherent) (uncached : ∀ id, layout.sets.find? id = none)
    (primary : contents stores.primary = layout.slots)
    (overflow : contents stores.overflow = layout.records) (limited : 0 < limit)
    (cached : 0 < cacheSize) :
    (openOver name layout.codec limit cacheSize).Meets stores
      (fun table _ => Resumed layout limit stores table) (fun _ after => Faulted stores after) := by
  refine (openOver_reads name layout.codec limit cacheSize stores).mono ?_ ?_
  · intro table _ inspected
    obtain ⟨filed, later⟩ := coherent.filed.resume
    have empty : (Lru.empty cacheSize : Lru UInt64 (CachedSet D)).Bounded := Lru.bounded_empty cached
    obtain ⟨resumed, view⟩ := coherent.resume uncached limit empty (fun _ => Lru.find?_empty) filed
    have same := inspected.layout_eq
    rw [primary, overflow, coherent.announcedTotal_eq uncached] at same
    rw [← same] at resumed view
    refine ⟨resumed, ?_, view, ?_, ?_, ?_, ?_, inspected.live.isClosed_eq, inspected.still⟩
    · rw [Counted, view, same]
    · rw [same]
    · rw [same]
    · rw [same]
    · rw [same]
      exact later
  · rintro failure after (faulted | unset)
    · exact faulted
    · exact absurd ⟨limited, cached, overflow ▸ coherent.filed.to_numbered⟩ unset

end SetTable

end AttributeIndex
