import AttributeIndex.Lru
import Mathlib.Data.List.Nodup

namespace AttributeIndex.Lru

variable {κ ν : Type} [DecidableEq κ]

structure Bounded (cache : Lru κ ν) : Prop where
  nodup : cache.keys.Nodup
  size_le : cache.size ≤ cache.capacity
  positive : 0 < cache.capacity

theorem mem_of_find? {cache : Lru κ ν} {key : κ} {value : ν} (found : cache.find? key = some value) :
    (key, value) ∈ cache.entries := by
  obtain ⟨entry, located, rfl⟩ := Option.map_eq_some_iff.1 found
  have equal : entry.1 = key := by simpa using List.find?_some located
  exact equal ▸ List.mem_of_find?_eq_some located

theorem find?_eq_some {cache : Lru κ ν} (bounded : cache.Bounded) {key : κ} {value : ν} :
    cache.find? key = some value ↔ (key, value) ∈ cache.entries := by
  constructor
  · exact mem_of_find?
  · intro member
    unfold find?
    cases search : cache.entries.find? fun entry => entry.1 = key with
    | none =>
      have missed := List.find?_eq_none.1 search _ member
      simp at missed
    | some entry =>
      have equal : entry.1 = key := by simpa using List.find?_some search
      have unique : entry = (key, value) :=
        List.inj_on_of_nodup_map bounded.nodup (List.mem_of_find?_eq_some search) member equal
      rw [unique]
      rfl

theorem mem_keys {cache : Lru κ ν} {key : κ} :
    key ∈ cache.keys ↔ cache.contains key = true := by
  simp [keys, contains, find?]

omit [DecidableEq κ] in
theorem bounded_empty {capacity : Nat} (positive : 0 < capacity) :
    (empty capacity : Lru κ ν).Bounded :=
  ⟨.nil, Nat.zero_le _, positive⟩

@[simp]
theorem find?_empty {capacity : Nat} {key : κ} : (empty capacity : Lru κ ν).find? key = none :=
  rfl

@[simp]
theorem find?_clear {cache : Lru κ ν} {key : κ} : cache.clear.find? key = none :=
  rfl

omit [DecidableEq κ] in
theorem bounded_clear {cache : Lru κ ν} (bounded : cache.Bounded) : cache.clear.Bounded :=
  ⟨.nil, Nat.zero_le _, bounded.positive⟩

theorem find?_erase (cache : Lru κ ν) (key other : κ) :
    (cache.erase key).find? other = if other = key then none else cache.find? other := by
  rw [find?, erase, List.find?_filter]
  split
  · rename_i same
    simp [same]
  · rename_i distinct
    rw [find?]
    congr 2
    funext entry
    by_cases same : entry.1 = other
    · simp [same, distinct]
    · simp [same]

theorem bounded_erase {cache : Lru κ ν} (bounded : cache.Bounded) (key : κ) :
    (cache.erase key).Bounded where
  nodup := bounded.nodup.sublist (List.filter_sublist.map _)
  size_le := Nat.le_trans (List.length_filter_le _ _) bounded.size_le
  positive := bounded.positive

/-! ## Use and change -/

theorem find?_cons_erase (cache : Lru κ ν) (key other : κ) (value : ν) :
    ({ cache with entries := (key, value) :: (cache.erase key).entries } : Lru κ ν).find? other =
      if other = key then some value else cache.find? other := by
  split
  · rename_i same
    simp [find?, same]
  · rename_i distinct
    have kept := find?_erase cache key other
    rw [if_neg distinct] at kept
    rw [← kept, find?, find?, List.find?_cons_of_neg]
    simpa [eq_comm] using distinct

theorem bounded_cons_erase {cache : Lru κ ν} (bounded : cache.Bounded) {key : κ}
    (present : cache.contains key = true) (value : ν) :
    ({ cache with entries := (key, value) :: (cache.erase key).entries } : Lru κ ν).Bounded where
  nodup := by
    refine List.nodup_cons.2 ⟨?_, (bounded_erase bounded key).nodup⟩
    simp [erase]
  size_le := by
    obtain ⟨found, located⟩ := Option.isSome_iff_exists.1 present
    have member := (find?_eq_some bounded).1 located
    have shorter : (cache.erase key).entries.length < cache.entries.length :=
      List.length_filter_lt_length_iff_exists.2 ⟨_, member, by simp⟩
    exact Nat.le_trans shorter bounded.size_le
  positive := bounded.positive

theorem find?_touch (cache : Lru κ ν) (key other : κ) :
    (cache.touch key).find? other = cache.find? other := by
  rw [touch]
  split
  · rename_i value found
    rw [find?_cons_erase]
    split
    · rename_i same
      rw [same, found]
    · rfl
  · rfl

theorem bounded_touch {cache : Lru κ ν} (bounded : cache.Bounded) (key : κ) :
    (cache.touch key).Bounded := by
  rw [touch]
  split
  · rename_i value found
    exact bounded_cons_erase bounded (by rw [contains, found]; rfl) value
  · exact bounded

theorem capacity_touch (cache : Lru κ ν) (key : κ) :
    (cache.touch key).capacity = cache.capacity := by
  rw [touch]
  split <;> rfl

theorem keys_modify (cache : Lru κ ν) (key : κ) (change : ν → ν) :
    (cache.modify key change).keys = cache.keys := by
  rw [keys, keys, modify, List.map_map]
  refine List.map_congr_left fun entry _ => ?_
  simp only [Function.comp_apply]
  split <;> rfl

theorem find?_modify (cache : Lru κ ν) (key other : κ) (change : ν → ν) :
    (cache.modify key change).find? other =
      if other = key then (cache.find? other).map change else cache.find? other := by
  have matching : ((fun entry : κ × ν => decide (entry.1 = other)) ∘ fun entry =>
      if entry.1 = key then (entry.1, change entry.2) else entry) =
      fun entry => decide (entry.1 = other) := by
    funext entry
    simp only [Function.comp_apply]
    split <;> rfl
  rw [find?, modify, List.find?_map, matching, find?]
  cases located : cache.entries.find? fun entry => decide (entry.1 = other) with
  | none => simp
  | some entry =>
    have equal : entry.1 = other := by simpa using List.find?_some located
    simp only [Option.map_some, equal]
    split <;> rfl

theorem bounded_modify {cache : Lru κ ν} (bounded : cache.Bounded) (key : κ) (change : ν → ν) :
    (cache.modify key change).Bounded where
  nodup := keys_modify cache key change ▸ bounded.nodup
  size_le := by
    rw [size, modify, List.length_map]
    exact bounded.size_le
  positive := bounded.positive

theorem mem_erase {cache : Lru κ ν} {key : κ} {entry : κ × ν} :
    entry ∈ (cache.erase key).entries ↔ entry ∈ cache.entries ∧ entry.1 ≠ key := by
  simp [erase]

theorem touch_subset (cache : Lru κ ν) (key : κ) : (cache.touch key).entries ⊆ cache.entries := by
  rw [touch]
  split
  · rename_i value found
    exact List.cons_subset.2 ⟨mem_of_find? found, List.filter_sublist.subset⟩
  · exact List.Subset.refl _

theorem eq_or_mem_of_mem_insert {cache : Lru κ ν} {key : κ} {value : ν} {entry : κ × ν}
    (member : entry ∈ (cache.insert key value).entries) :
    entry = (key, value) ∨ entry ∈ cache.entries ∧ entry.1 ≠ key := by
  rw [insert] at member
  split at member
  · exact (List.mem_cons.1 member).imp_right mem_erase.1
  · rename_i absent
    have other : ∀ entry ∈ cache.entries, entry.1 ≠ key := fun entry present same =>
      absent (mem_keys.1 (same ▸ List.mem_map_of_mem present))
    split at member
    · refine (List.mem_cons.1 member).imp_right fun kept => ?_
      have present := List.dropLast_subset _ kept
      exact ⟨present, other _ present⟩
    · exact (List.mem_cons.1 member).imp_right fun present => ⟨present, other _ present⟩

/-! ## Making room -/

structure Evicts (cache : Lru κ ν) (id : κ) (value : ν) (rest : Lru κ ν) : Prop where
  found : cache.find? id = some value
  others : ∀ other, rest.find? other = if other = id then none else cache.find? other
  bounded : rest.Bounded
  isFull_eq : rest.isFull = false
  capacity_eq : rest.capacity = cache.capacity

theorem evicts_of_append {cache : Lru κ ν} (bounded : cache.Bounded) {left : List (κ × ν)} {id : κ}
    {value : ν} (parts : cache.entries = left ++ [(id, value)]) :
    Evicts cache id value { cache with entries := left } := by
  have names : cache.keys = left.map Prod.fst ++ [id] := by
    rw [keys, parts, List.map_append, List.map_singleton]
  have distinct := names ▸ bounded.nodup
  have apart : ∀ entry ∈ left, entry.1 ≠ id := fun entry member same =>
    (List.nodup_append.1 distinct).2.2 _ (List.mem_map_of_mem member) id List.mem_cons_self same
  have shorter : left.length < cache.size := by
    rw [size, parts, List.length_append]
    exact Nat.lt_succ_self _
  have below := bounded.size_le
  refine ⟨(find?_eq_some bounded).2 ?_, fun other => ?_, ⟨(List.nodup_append.1 distinct).1, ?_,
    bounded.positive⟩, ?_, rfl⟩
  · rw [parts]
    exact List.mem_append_right left List.mem_cons_self
  · rw [find?, find?, parts, List.find?_append]
    split
    · rename_i same
      have gone : left.find? (fun entry => entry.1 = other) = none := by
        refine List.find?_eq_none.2 fun entry member => ?_
        simpa [same] using apart entry member
      rw [gone]
      rfl
    · rename_i different
      rw [List.find?_cons_of_neg (by simpa [eq_comm] using different), List.find?_nil, Option.or_none]
  · show left.length ≤ cache.capacity
    omega
  · refine decide_eq_false (?_ : ¬ cache.capacity ≤ left.length)
    omega

theorem evict_of_isFull {cache : Lru κ ν} (bounded : cache.Bounded) (full : cache.isFull = true) :
    ∃ id value rest, cache.evict = (some (id, value), rest) ∧ Evicts cache id value rest := by
  have capacity : cache.capacity ≤ cache.size := by simpa [isFull] using full
  have positive := bounded.positive
  obtain none | ⟨left, ⟨id, value⟩, parts⟩ := List.eq_nil_or_concat cache.entries
  · rw [size, none, List.length_nil] at capacity
    omega
  · rw [List.concat_eq_append] at parts
    refine ⟨id, value, _, ?_, evicts_of_append bounded parts⟩
    rw [evict, parts, List.getLast?_concat, List.dropLast_concat]

theorem Evicts.absent {cache rest : Lru κ ν} {id other : κ} {value : ν}
    (evicts : Evicts cache id value rest) (absent : cache.find? other = none) :
    rest.find? other = none := by
  rw [evicts.others]
  split
  · rfl
  · exact absent

theorem capacity_insert (cache : Lru κ ν) (key : κ) (value : ν) :
    (cache.insert key value).capacity = cache.capacity := by
  rw [insert]
  split
  · rfl
  · split <;> rfl

theorem find?_insert {cache : Lru κ ν} (room : cache.isFull = false) (key other : κ) (value : ν) :
    (cache.insert key value).find? other = if other = key then some value else cache.find? other := by
  rw [insert]
  split
  · exact find?_cons_erase cache key other value
  · rw [if_neg (by simp [room])]
    split
    · rename_i same
      simp [find?, same]
    · rename_i distinct
      rw [find?, find?, List.find?_cons_of_neg]
      simpa [eq_comm] using distinct

theorem Evicts.find?_putBack {cache rest : Lru κ ν} {id : κ} {value : ν}
    (evicts : Evicts cache id value rest) (other : κ) :
    (rest.insert id value).find? other = cache.find? other := by
  rw [find?_insert evicts.isFull_eq, evicts.others]
  split
  · rename_i same
    rw [same, evicts.found]
  · rfl

theorem bounded_insert {cache : Lru κ ν} (bounded : cache.Bounded) (room : cache.isFull = false)
    (key : κ) (value : ν) : (cache.insert key value).Bounded := by
  rw [insert]
  split
  · rename_i present
    exact bounded_cons_erase bounded present value
  · rename_i absent
    rw [if_neg (by simp [room])]
    refine ⟨List.nodup_cons.2 ⟨?_, bounded.nodup⟩, ?_, bounded.positive⟩
    · intro member
      exact absent (mem_keys.1 member)
    · have below : cache.size < cache.capacity := by simpa [isFull] using room
      exact below

end AttributeIndex.Lru
