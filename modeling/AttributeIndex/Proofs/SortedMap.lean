import AttributeIndex.SortedMap
import Mathlib.Algebra.BigOperators.Group.List.Basic
import Mathlib.Algebra.GroupWithZero.Nat
import Mathlib.Data.List.Sort

namespace AttributeIndex.SortedMap

variable {α β : Type} [Ord α]

theorem eq_of_mem_iff [Std.TransOrd α] {left right : SortedMap α β}
    (same : ∀ entry, entry ∈ left.entries ↔ entry ∈ right.entries) : left = right := by
  have irreflexive : Std.Irrefl fun x y : α × β => compare x.1 y.1 = .lt :=
    ⟨fun entry below => by simp [Std.ReflCmp.compare_self] at below⟩
  have antisymmetric : Std.Antisymm fun x y : α × β => compare x.1 y.1 = .lt :=
    ⟨fun x y below above => by simp [Std.OrientedCmp.gt_of_lt below] at above⟩
  exact ext (left.sorted.eq_of_mem_iff right.sorted same)

theorem nodup_keys [Std.TransOrd α] (map : SortedMap α β) : map.keys.Nodup := by
  refine List.pairwise_map.2 (map.sorted.imp fun {x y} below same => ?_)
  simp [same, Std.ReflCmp.compare_self] at below

theorem nodup_entries [Std.TransOrd α] (map : SortedMap α β) : map.entries.Nodup :=
  map.nodup_keys.of_map _

variable [Std.TransOrd α] [Std.LawfulEqOrd α]

theorem find?_eq_some {map : SortedMap α β} {key : α} {value : β} :
    map.find? key = some value ↔ (key, value) ∈ map.entries := by
  unfold find?
  constructor
  · intro found
    obtain ⟨entry, located, rfl⟩ := Option.map_eq_some_iff.1 found
    have equal : entry.1 = key := by simpa using List.find?_some located
    exact equal ▸ List.mem_of_find?_eq_some located
  · intro member
    cases search : map.entries.find? fun entry => compare entry.1 key == .eq with
    | none =>
      have missed := List.find?_eq_none.1 search _ member
      simp [Std.ReflCmp.compare_self] at missed
    | some entry =>
      have equal : entry.1 = key := by simpa using List.find?_some search
      have unique : entry = (key, value) :=
        List.inj_on_of_nodup_map map.nodup_keys (List.mem_of_find?_eq_some search) member equal
      rw [unique]
      rfl

theorem find?_eq_none {map : SortedMap α β} {key : α} :
    map.find? key = none ↔ key ∉ map.keys := by
  rw [Option.eq_none_iff_forall_ne_some]
  constructor
  · intro absent member
    obtain ⟨entry, located, rfl⟩ := List.mem_map.1 member
    exact absent entry.2 (find?_eq_some.2 located)
  · intro absent value found
    exact absent (List.mem_map.2 ⟨_, find?_eq_some.1 found, rfl⟩)

theorem mem_keys {map : SortedMap α β} {key : α} :
    key ∈ map.keys ↔ ∃ value, map.find? key = some value := by
  rw [← not_iff_not, ← find?_eq_none, Option.eq_none_iff_forall_ne_some]
  simp

theorem ext_find? {left right : SortedMap α β} (same : ∀ key, left.find? key = right.find? key) :
    left = right :=
  eq_of_mem_iff fun entry => by rw [← find?_eq_some, ← find?_eq_some, same]

theorem find?_insert [DecidableEq α] (map : SortedMap α β) (key : α) (value : β) (other : α) :
    (map.insert key value).find? other = if other = key then some value else map.find? other := by
  refine Option.ext fun found => ?_
  rw [find?_eq_some, mem_insert]
  split
  · rename_i same
    simp [same, eq_comm]
  · rename_i distinct
    simp [distinct, find?_eq_some]

theorem find?_erase [DecidableEq α] (map : SortedMap α β) (key other : α) :
    (map.erase key).find? other = if other = key then none else map.find? other := by
  refine Option.ext fun found => ?_
  rw [find?_eq_some, mem_erase]
  split
  · rename_i same
    simp [same]
  · rename_i distinct
    simp [distinct, find?_eq_some]

theorem find?_mapValues {γ : Type} (map : SortedMap α β) (change : α → β → γ) (key : α) :
    (map.mapValues change).find? key = (map.find? key).map (change key) := by
  refine Option.ext fun found => ?_
  simp only [find?_eq_some, mapValues, List.mem_map, Option.map_eq_some_iff, Prod.mk.injEq,
    Prod.exists]
  constructor
  · rintro ⟨_, value, member, rfl, rfl⟩
    exact ⟨value, member, rfl⟩
  · rintro ⟨value, member, rfl⟩
    exact ⟨key, value, member, rfl, rfl⟩

omit [Std.TransOrd α] [Std.LawfulEqOrd α] in
@[simp]
theorem keys_mapValues {γ : Type} (map : SortedMap α β) (change : α → β → γ) :
    (map.mapValues change).keys = map.keys := by
  simp [keys, mapValues]

omit [Std.TransOrd α] [Std.LawfulEqOrd α] in
@[simp]
theorem size_mapValues {γ : Type} (map : SortedMap α β) (change : α → β → γ) :
    (map.mapValues change).size = map.size := by
  simp [size, mapValues]

theorem erase_eq_self [DecidableEq α] {map : SortedMap α β} {key : α}
    (absent : map.find? key = none) : map.erase key = map := by
  refine ext_find? fun other => ?_
  rw [find?_erase]
  split
  · rename_i same
    rw [same, absent]
  · rfl

theorem insert_insert [DecidableEq α] (map : SortedMap α β) (key : α) (first second : β) :
    (map.insert key first).insert key second = map.insert key second := by
  refine ext_find? fun other => ?_
  simp only [find?_insert]
  split <;> rfl

theorem erase_insert [DecidableEq α] (map : SortedMap α β) (key : α) (value : β) :
    (map.insert key value).erase key = map.erase key := by
  refine ext_find? fun other => ?_
  simp only [find?_insert, find?_erase]
  split <;> rfl

theorem erase_insert_of_ne [DecidableEq α] (map : SortedMap α β) {key other : α}
    (distinct : other ≠ key) (value : β) :
    (map.insert key value).erase other = (map.erase other).insert key value := by
  refine ext_find? fun found => ?_
  simp only [find?_insert, find?_erase]
  split
  · rename_i same
    rw [if_neg (same ▸ distinct)]
  · rfl

theorem erase_erase [DecidableEq α] (map : SortedMap α β) (key : α) :
    (map.erase key).erase key = map.erase key := by
  refine ext_find? fun other => ?_
  simp only [find?_erase]
  split <;> rfl

theorem entries_insert_perm (map : SortedMap α β) (key : α) (value : β) :
    (map.insert key value).entries.Perm ((key, value) :: (map.erase key).entries) := by
  have fresh : (key, value) ∉ (map.erase key).entries := by
    intro member
    simpa [Std.ReflCmp.compare_self] using (mem_erase.1 member).2
  refine (List.perm_ext_iff_of_nodup (nodup_entries _) ?_).2 fun entry => ?_
  · exact List.nodup_cons.2 ⟨fresh, nodup_entries _⟩
  · rw [mem_insert, List.mem_cons, mem_erase]

theorem entries_erase_perm {map : SortedMap α β} {key : α} {value : β}
    (found : map.find? key = some value) :
    map.entries.Perm ((key, value) :: (map.erase key).entries) := by
  have fresh : (key, value) ∉ (map.erase key).entries := by
    intro member
    simpa [Std.ReflCmp.compare_self] using (mem_erase.1 member).2
  refine (List.perm_ext_iff_of_nodup (nodup_entries _) ?_).2 fun entry => ?_
  · exact List.nodup_cons.2 ⟨fresh, nodup_entries _⟩
  · simp only [List.mem_cons, mem_erase, ne_eq, Std.LawfulEqOrd.compare_eq_iff_eq]
    constructor
    · intro member
      by_cases same : entry.1 = key
      · have unique : map.find? key = some entry.2 := find?_eq_some.2 (same ▸ member)
        rw [found] at unique
        obtain rfl := Option.some.inj unique
        exact .inl (Prod.ext same rfl)
      · exact .inr ⟨member, same⟩
    · rintro (rfl | ⟨member, -⟩)
      · exact find?_eq_some.1 found
      · exact member

theorem filterMap_keys (map : SortedMap α β) :
    (map.keys.filterMap fun key => (map.find? key).map (key, ·)) = map.entries := by
  have listed : ∀ entries : List (α × β), (∀ entry ∈ entries, entry ∈ map.entries) →
      ((entries.map Prod.fst).filterMap fun key => (map.find? key).map (key, ·)) = entries := by
    intro entries all
    induction entries with
    | nil => rfl
    | cons entry entries ih =>
      have found : map.find? entry.1 = some entry.2 := find?_eq_some.2 (all entry (List.mem_cons_self ..))
      rw [List.map_cons, List.filterMap_cons_some (show _ = some entry by rw [found]; rfl),
        ih fun other member => all other (List.mem_cons_of_mem _ member)]
  exact listed map.entries fun _ member => member

def weight (measure : β → Nat) (map : SortedMap α β) : Nat :=
  (map.entries.map fun entry => measure entry.2).sum

theorem weight_eq_erase [DecidableEq α] (measure : β → Nat) (map : SortedMap α β) (key : α) :
    map.weight measure = (map.find? key).elim 0 measure + (map.erase key).weight measure := by
  cases found : map.find? key with
  | none => rw [erase_eq_self found, Option.elim_none, Nat.zero_add]
  | some value =>
    rw [weight, ((entries_erase_perm found).map _).sum_eq]
    rfl

theorem weight_insert (measure : β → Nat) (map : SortedMap α β) (key : α) (value : β) :
    (map.insert key value).weight measure = measure value + (map.erase key).weight measure := by
  rw [weight, ((entries_insert_perm map key value).map _).sum_eq]
  rfl

end AttributeIndex.SortedMap
