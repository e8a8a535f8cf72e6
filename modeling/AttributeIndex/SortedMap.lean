namespace AttributeIndex

structure SortedMap (α β : Type) [Ord α] where
  entries : List (α × β)
  sorted : entries.Pairwise fun x y => compare x.1 y.1 = .lt

namespace SortedMap

variable {α β : Type} [Ord α]

def empty : SortedMap α β :=
  ⟨[], .nil⟩

instance : Inhabited (SortedMap α β) :=
  ⟨empty⟩

def size (map : SortedMap α β) : Nat :=
  map.entries.length

def keys (map : SortedMap α β) : List α :=
  map.entries.map Prod.fst

def find? (map : SortedMap α β) (key : α) : Option β :=
  (map.entries.find? fun entry => compare entry.1 key == .eq).map Prod.snd

def contains (map : SortedMap α β) (key : α) : Bool :=
  (map.find? key).isSome

def erase (map : SortedMap α β) (key : α) : SortedMap α β :=
  ⟨map.entries.filter fun entry => compare entry.1 key != .eq, map.sorted.filter _⟩

def insert [Std.TransOrd α] (map : SortedMap α β) (key : α) (value : β) : SortedMap α β where
  entries :=
    map.entries.filter (fun entry => compare entry.1 key == .lt) ++
      (key, value) :: map.entries.filter (fun entry => compare entry.1 key == .gt)
  sorted := by
    rw [List.pairwise_append]
    refine ⟨map.sorted.filter _, List.pairwise_cons.2 ⟨?_, map.sorted.filter _⟩, ?_⟩
    · intro entry member
      have above := (List.mem_filter.1 member).2
      exact Std.OrientedCmp.lt_of_gt (by simpa using above)
    · intro low lowMember high highMember
      have below : compare low.1 key = .lt := by simpa using (List.mem_filter.1 lowMember).2
      rcases List.mem_cons.1 highMember with rfl | highMember
      · exact below
      · have above : compare high.1 key = .gt := by simpa using (List.mem_filter.1 highMember).2
        exact Std.TransCmp.lt_trans below (Std.OrientedCmp.lt_of_gt above)

def ofList [Std.TransOrd α] (entries : List (α × β)) : SortedMap α β :=
  entries.foldl (fun map entry => map.insert entry.1 entry.2) empty

def mapValues {γ : Type} (map : SortedMap α β) (change : α → β → γ) : SortedMap α γ where
  entries := map.entries.map fun entry => (entry.1, change entry.1 entry.2)
  sorted := List.pairwise_map.2 map.sorted

@[ext]
theorem ext {left right : SortedMap α β} (same : left.entries = right.entries) : left = right := by
  cases left; cases right; cases same; rfl

theorem mem_erase {map : SortedMap α β} {key : α} {entry : α × β} :
    entry ∈ (map.erase key).entries ↔ entry ∈ map.entries ∧ compare entry.1 key ≠ .eq := by
  simp [erase]

theorem mem_insert [Std.TransOrd α] {map : SortedMap α β} {key : α} {value : β} {entry : α × β} :
    entry ∈ (map.insert key value).entries ↔
      entry = (key, value) ∨ entry ∈ map.entries ∧ compare entry.1 key ≠ .eq := by
  simp only [insert, List.mem_append, List.mem_cons, List.mem_filter, beq_iff_eq]
  cases compare entry.1 key <;> simp
  grind

end SortedMap

end AttributeIndex
