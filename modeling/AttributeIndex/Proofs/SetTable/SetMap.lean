import AttributeIndex.Proofs.Codec.Sets
import AttributeIndex.Proofs.SortedMap

namespace AttributeIndex

namespace Sequence

variable {α : Type} {cmp : α → α → Ordering} [Std.TransCmp cmp]

theorem eq_of_mem_iff {left right : List α} (leftAscends : Ascending cmp left)
    (rightAscends : Ascending cmp right) (same : ∀ element, element ∈ left ↔ element ∈ right) :
    left = right := by
  have irreflexive : Std.Irrefl fun first second => cmp first second = .lt :=
    ⟨fun element below => by simp [Std.ReflCmp.compare_self] at below⟩
  have antisymmetric : Std.Antisymm fun first second => cmp first second = .lt :=
    ⟨fun first second below above => by simp [Std.OrientedCmp.gt_of_lt below] at above⟩
  exact List.Pairwise.eq_of_mem_iff leftAscends rightAscends same

theorem ascending_add {key : α} {list : List α} (ascending : Ascending cmp list) :
    Ascending cmp (add cmp key list) := by
  rw [add]
  split
  · exact ascending
  · exact ascending_insert ascending

theorem length_add {key : α} {list : List α} :
    (add cmp key list).length = list.length + if has cmp key list then 0 else 1 := by
  rw [add]
  split
  · rfl
  · rename_i fresh
    exact length_insert (by simpa using fresh)

omit [Std.TransCmp cmp] in
theorem mem_add [Std.LawfulEqCmp cmp] {key element : α} {list : List α} :
    element ∈ add cmp key list ↔ element = key ∨ element ∈ list := by
  rw [add]
  split
  · rename_i present
    obtain ⟨_, member, equal⟩ := has_iff.1 present
    obtain rfl := Std.LawfulEqCmp.eq_of_compare equal
    constructor
    · exact .inr
    · rintro (rfl | present)
      · exact member
      · exact present
  · exact mem_insert

omit [Std.TransCmp cmp] in
theorem subset_add {key element : α} {list : List α} [Std.OrientedCmp cmp] (member : element ∈ list) :
    element ∈ add cmp key list := by
  rw [add]
  split
  · exact member
  · rename_i fresh
    have different : cmp element key ≠ .eq := fun equal =>
      fresh (has_iff.2 ⟨element, member, Std.OrientedCmp.eq_symm equal⟩)
    simp only [insert, List.mem_append, List.mem_cons, List.mem_filter, beq_iff_eq]
    cases order : cmp element key with
    | lt => exact .inl ⟨member, rfl⟩
    | eq => exact absurd order different
    | gt => exact .inr (.inr ⟨member, rfl⟩)

omit [Std.TransCmp cmp] in
theorem add_ne_nil {key : α} {list : List α} : add cmp key list ≠ [] := by
  rw [add]
  split
  · rename_i present
    rintro rfl
    cases present
  · simp [insert]

omit [Std.TransCmp cmp] in
theorem has_iff_mem [Std.LawfulEqCmp cmp] {key : α} {list : List α} :
    has cmp key list = true ↔ key ∈ list := by
  simp [has_iff]

theorem add_erase [Std.LawfulEqCmp cmp] {key : α} {list : List α} (ascending : Ascending cmp list)
    (present : has cmp key list = true) : add cmp key (erase cmp key list) = list := by
  refine eq_of_mem_iff (ascending_add (ascending_erase ascending)) ascending fun element => ?_
  have member := has_iff_mem.1 present
  rw [mem_add, mem_erase]
  by_cases same : element = key
  · simp [same, member]
  · simp [same]

theorem erase_add [Std.LawfulEqCmp cmp] {key : α} {list : List α} (ascending : Ascending cmp list)
    (fresh : has cmp key list = false) : erase cmp key (add cmp key list) = list := by
  refine eq_of_mem_iff (ascending_erase (ascending_add ascending)) ascending fun element => ?_
  have absent : key ∉ list := fun member => by simp [has_iff_mem.2 member] at fresh
  rw [mem_erase, mem_add]
  by_cases same : element = key
  · simp [same, absent]
  · simp [same]

end Sequence

abbrev SetMap (D : Type) := SortedMap Bytes (List D)

namespace SetMap

variable {D : Type}

def setOf (map : SetMap D) (key : Bytes) : List D :=
  (map.find? key).getD []

def store (map : SetMap D) (key : Bytes) (set : List D) : SetMap D :=
  if set.isEmpty then map.erase key else map.insert key set

def total (map : SetMap D) : Nat :=
  map.weight List.length

theorem find?_store (map : SetMap D) (key other : Bytes) (set : List D) :
    (map.store key set).find? other =
      if other = key then (if set.isEmpty then none else some set) else map.find? other := by
  rw [store]
  split
  · exact SortedMap.find?_erase map key other
  · exact SortedMap.find?_insert map key set other

theorem setOf_store (map : SetMap D) (key other : Bytes) (set : List D) :
    (map.store key set).setOf other = if other = key then set else map.setOf other := by
  rw [setOf, find?_store]
  by_cases same : other = key
  · rw [if_pos same, if_pos same]
    cases set with
    | nil => rfl
    | cons element rest => rfl
  · rw [if_neg same, if_neg same]
    rfl

theorem total_store (map : SetMap D) (key : Bytes) (set : List D) :
    (map.store key set).total + (map.setOf key).length = map.total + set.length := by
  have before := SortedMap.weight_eq_erase List.length map key
  have old : (map.find? key).elim 0 List.length = (map.setOf key).length := by
    rw [setOf]
    cases map.find? key <;> rfl
  have stored : (map.store key set).total = set.length + (map.erase key).weight List.length := by
    rw [store, total]
    split
    · rename_i empty
      rw [List.isEmpty_iff.1 empty, List.length_nil, Nat.zero_add]
    · exact SortedMap.weight_insert List.length map key set
  rw [stored, total, before, old]
  omega

theorem total_eq_sum (map : SetMap D) :
    map.total = (map.keys.map fun key => (map.setOf key).length).sum := by
  rw [total, SortedMap.weight, SortedMap.keys, List.map_map]
  congr 1
  refine List.map_congr_left fun entry member => ?_
  rw [Function.comp_apply, setOf, SortedMap.find?_eq_some.2 member]
  rfl

theorem length_setOf_le_total (map : SetMap D) (key : Bytes) :
    (map.setOf key).length ≤ map.total := by
  have stored := total_store map key []
  rw [List.length_nil] at stored
  omega

def take (map : SetMap D) (key : Bytes) : SetMap D :=
  map.store key []

/-! ## Proper maps -/

variable [Ord D]

def Proper (map : SetMap D) : Prop :=
  ∀ key set, map.find? key = some set → set ≠ [] ∧ Sequence.Ascending compare set

theorem Proper.ascending {map : SetMap D} (proper : map.Proper) (key : Bytes) :
    Sequence.Ascending compare (map.setOf key) := by
  rw [setOf]
  cases found : map.find? key with
  | none => exact .nil
  | some set => exact (proper key set found).2

theorem Proper.find?_eq {map : SetMap D} (proper : map.Proper) (key : Bytes) :
    map.find? key = if (map.setOf key).isEmpty then none else some (map.setOf key) := by
  rw [setOf]
  cases found : map.find? key with
  | none => rfl
  | some set =>
    have nonempty := (proper key set found).1
    rw [Option.getD_some, if_neg (by simpa using nonempty)]

theorem Proper.ext {left right : SetMap D} (leftProper : left.Proper) (rightProper : right.Proper)
    (same : ∀ key, left.setOf key = right.setOf key) : left = right :=
  SortedMap.ext_find? fun key => by rw [leftProper.find?_eq, rightProper.find?_eq, same]

theorem Proper.store_setOf {map : SetMap D} (proper : map.Proper) (key : Bytes) :
    map.store key (map.setOf key) = map := by
  refine SortedMap.ext_find? fun other => ?_
  rw [find?_store]
  split
  · rename_i same
    rw [same, proper.find?_eq key]
  · rfl

theorem Proper.store {map : SetMap D} (proper : map.Proper) (key : Bytes) {set : List D}
    (ascending : Sequence.Ascending compare set) : (map.store key set).Proper := by
  intro other stored found
  rw [find?_store] at found
  split at found
  · split at found
    · cases found
    · rename_i nonempty
      cases found
      exact ⟨by simpa using nonempty, ascending⟩
  · exact proper other stored found

/-! ## Changes -/

def put (map : SetMap D) (key : Bytes) (element : D) : SetMap D :=
  map.store key (Sequence.add compare element (map.setOf key))

def remove (map : SetMap D) (key : Bytes) (element : D) : SetMap D :=
  map.store key (Sequence.erase compare element (map.setOf key))

def has (map : SetMap D) (key : Bytes) (element : D) : Bool :=
  Sequence.has compare element (map.setOf key)

theorem setOf_put (map : SetMap D) (key other : Bytes) (element : D) :
    (map.put key element).setOf other =
      if other = key then Sequence.add compare element (map.setOf key) else map.setOf other :=
  setOf_store map key other _

theorem setOf_remove (map : SetMap D) (key other : Bytes) (element : D) :
    (map.remove key element).setOf other =
      if other = key then Sequence.erase compare element (map.setOf key) else map.setOf other :=
  setOf_store map key other _

theorem put_eq_self {map : SetMap D} (proper : map.Proper) {key : Bytes} {element : D}
    (present : map.has key element = true) : map.put key element = map := by
  rw [has] at present
  rw [put, Sequence.add, if_pos present, proper.store_setOf]

variable [Std.TransOrd D]

theorem remove_eq_self {map : SetMap D} (proper : map.Proper) {key : Bytes} {element : D}
    (absent : map.has key element = false) : map.remove key element = map := by
  rw [remove, Sequence.erase_eq_self absent, proper.store_setOf]

theorem Proper.put {map : SetMap D} (proper : map.Proper) (key : Bytes) (element : D) :
    (map.put key element).Proper :=
  proper.store key (Sequence.ascending_add (proper.ascending key))

omit [Std.TransOrd D] in
theorem Proper.remove {map : SetMap D} (proper : map.Proper) (key : Bytes) (element : D) :
    (map.remove key element).Proper :=
  proper.store key (Sequence.ascending_erase (proper.ascending key))

theorem total_put (map : SetMap D) (key : Bytes) (element : D) :
    (map.put key element).total = map.total + if map.has key element then 0 else 1 := by
  have stored := total_store map key (Sequence.add compare element (map.setOf key))
  rw [Sequence.length_add] at stored
  rw [put, has]
  omega

theorem remove_put [Std.LawfulEqOrd D] {map : SetMap D} (proper : map.Proper) {key : Bytes}
    {element : D} (fresh : map.has key element = false) :
    (map.put key element).remove key element = map := by
  refine Proper.ext ((proper.put key element).remove key element) proper fun other => ?_
  rw [setOf_remove, setOf_put, setOf_put]
  split
  · rename_i same
    rw [if_pos rfl, Sequence.erase_add (proper.ascending key) fresh, same]
  · rfl

/-! ## Membership -/

section

variable [Std.LawfulEqOrd D] {map : SetMap D} {key other : Bytes} {element value : D}

omit [Std.TransOrd D] in
theorem has_iff_mem : map.has key element = true ↔ element ∈ map.setOf key :=
  Sequence.has_iff_mem

omit [Std.TransOrd D] in
theorem has_put : (map.put key element).has other value = true ↔
    (other = key ∧ value = element) ∨ map.has other value = true := by
  rw [has_iff_mem, has_iff_mem, setOf_put]
  by_cases same : other = key
  · subst same
    simp [Sequence.mem_add]
  · simp [same]

omit [Std.TransOrd D] in
theorem has_remove : (map.remove key element).has other value = true ↔
    map.has other value = true ∧ ¬(other = key ∧ value = element) := by
  rw [has_iff_mem, has_iff_mem, setOf_remove]
  by_cases same : other = key
  · subst same
    simp only [Sequence.mem_erase, ne_eq, Std.LawfulEqCmp.compare_eq_iff_eq, true_and, if_true]
  · simp [same]

omit [Std.TransOrd D] in
theorem has_take : (map.take key).has other value = true ↔
    map.has other value = true ∧ other ≠ key := by
  rw [has_iff_mem, has_iff_mem, take, setOf_store]
  by_cases same : other = key
  · simp [same]
  · simp [same]

def pairs (map : SetMap D) : List (Bytes × D) :=
  map.entries.flatMap fun entry => entry.2.map fun element => (entry.1, element)

omit [Ord D] [Std.TransOrd D] [Std.LawfulEqOrd D] in
theorem length_pairs (map : SetMap D) : map.pairs.length = map.total := by
  simp [pairs, total, SortedMap.weight, List.length_flatMap]

omit [Std.TransOrd D] in
theorem mem_pairs {pair : Bytes × D} : pair ∈ map.pairs ↔ map.has pair.1 pair.2 = true := by
  rw [has_iff_mem, setOf, pairs, List.mem_flatMap]
  constructor
  · rintro ⟨entry, member, listed⟩
    obtain ⟨element, here, rfl⟩ := List.mem_map.1 listed
    rw [SortedMap.find?_eq_some.2 member]
    exact here
  · intro here
    cases found : map.find? pair.1 with
    | none =>
      rw [found] at here
      exact absurd here List.not_mem_nil
    | some set =>
      rw [found] at here
      exact ⟨(pair.1, set), SortedMap.find?_eq_some.1 found, List.mem_map.2 ⟨pair.2, here, rfl⟩⟩

omit [Std.TransOrd D] [Std.LawfulEqOrd D] in
theorem pairwise_pairs (proper : map.Proper) :
    map.pairs.Pairwise fun first second => compare first.1 second.1 = .lt ∨
      first.1 = second.1 ∧ compare first.2 second.2 = .lt := by
  rw [pairs, List.pairwise_flatMap]
  constructor
  · rintro ⟨key, set⟩ member
    rw [List.pairwise_map]
    have ascending := (proper key set (SortedMap.find?_eq_some.2 member)).2
    exact ascending.imp fun below => .inr ⟨rfl, below⟩
  · apply map.sorted.imp
    intro first second below left leftListed right rightListed
    obtain ⟨_, _, rfl⟩ := List.mem_map.1 leftListed
    obtain ⟨_, _, rfl⟩ := List.mem_map.1 rightListed
    exact .inl below

omit [Std.LawfulEqOrd D] in
theorem nodup_pairs (proper : map.Proper) : map.pairs.Nodup := by
  apply (pairwise_pairs proper).imp
  rintro first _ below rfl
  simp [Std.ReflCmp.compare_self] at below

end

/-! ## Room in the format of stored sets -/

def Fits (codec : Codec D) (map : SetMap D) : Prop :=
  ∀ key, codec.Fits (map.setOf key)

variable {codec : Codec D} {map : SetMap D}

omit [Std.TransOrd D] [Ord D] in
theorem Fits.store (fits : map.Fits codec) (key : Bytes) {set : List D} (setFits : codec.Fits set) :
    (map.store key set).Fits codec := by
  intro other
  rw [setOf_store]
  split
  · exact setFits
  · exact fits other

omit [Std.TransOrd D] in
theorem Fits.remove (fits : map.Fits codec) (key : Bytes) (element : D) :
    (map.remove key element).Fits codec :=
  fits.store key ((fits key).erase element)

omit [Std.TransOrd D] [Ord D] in
theorem fits_nil : codec.Fits [] :=
  ⟨Nat.zero_le _, fun _ member => absurd member List.not_mem_nil⟩

omit [Std.TransOrd D] [Ord D] in
theorem fits_of_entries (fits : ∀ entry ∈ map.entries, codec.Fits entry.2) : map.Fits codec := by
  intro key
  rw [setOf]
  cases found : map.find? key with
  | none => exact fits_nil
  | some set => exact fits (key, set) (SortedMap.find?_eq_some.1 found)

theorem Fits.of_put {key : Bytes} {element : D} (fits : (map.put key element).Fits codec) :
    map.Fits codec := by
  intro other
  have larger := fits other
  rw [setOf_put] at larger
  split at larger
  · rename_i same
    rw [same]
    refine ⟨?_, fun value member => larger.accepts value ?_⟩
    · have longer := larger.length_le
      rw [Sequence.length_add] at longer
      omega
    · exact Sequence.subset_add member
  · exact larger

end SetMap

end AttributeIndex
