import AttributeIndex.Proofs.OrderedSet.Position

namespace AttributeIndex

variable {α : Type} {cmp : α → α → Ordering}

namespace Tree

variable {meets : α → Bool} {side : Side} {tree : Tree α} {path : Path} {path? : Option Path}

theorem Bounds.isSome_iff (bounds : tree.Bounds meets side path?) :
    path?.isSome = true ↔ ∃ element ∈ tree.toList, meets element = true := by
  cases path? with
  | none =>
    have nothing : ∀ element ∈ tree.toList, meets element = false := bounds
    simpa using nothing
  | some path =>
    obtain ⟨key, found, holds, -⟩ := bounds
    refine ⟨fun _ => ⟨key, ?_, holds⟩, fun _ => rfl⟩
    simp [toList_eq found]

theorem Bounds.tightest {before : α → α → Prop} (bounds : tree.Bounds meets side (some path))
    (ordered : (tree.toward side).Pairwise before) :
    ∃ element ∈ tree.toList, tree.keyAt? path = some element ∧ meets element = true ∧
      ∀ other ∈ tree.toList, meets other = true → other = element ∨ before other element := by
  -- What else meets the condition is passed earlier on the way to the side.
  obtain ⟨key, found, holds, beyond⟩ := bounds
  have listed := toward_eq side found
  rw [listed, List.pairwise_append] at ordered
  obtain ⟨-, -, across⟩ := ordered
  refine ⟨key, ?_, found, holds, fun other member met => ?_⟩
  · rw [← mem_toward side, listed]
    simp
  · rw [← mem_toward side, listed, List.mem_append, List.mem_cons] at member
    rcases member with passed | same | further
    · exact .inr (across other passed key (List.mem_cons_self ..))
    · exact .inl same
    · simp [beyond other further] at met

end Tree

namespace OrderedSet

open Sequence

structure Finds (set : OrderedSet α cmp) (holds : α → Prop) (nearer : α → α → Prop)
    (path? : Option Path) : Prop where
  isSome_iff : path?.isSome = true ↔ ∃ element ∈ set.toList, holds element
  nearest : ∀ path, path? = some path → ∃ element ∈ set.toList,
    set.keyAt? path = some element ∧ holds element ∧
      ∀ other ∈ set.toList, holds other → other = element ∨ nearer element other

variable {set : OrderedSet α cmp} {holds : α → Prop} {meets : α → Bool}

theorem finds_of_bounds {side : Side} {nearer : α → α → Prop}
    (same : ∀ element, meets element = true ↔ holds element)
    (monotone : (set.tree.toward side.opposite).Pairwise fun first second =>
      meets first = true → meets second = true)
    (ordered : (set.tree.toward side).Pairwise fun other element => nearer element other) :
    set.Finds holds nearer (set.tree.bound? meets side) := by
  have bounds : set.tree.Bounds meets side (set.tree.bound? meets side) := Tree.bound?_spec monotone
  constructor
  · have found := bounds.isSome_iff
    simp only [same] at found
    exact found
  · intro path found
    rw [found] at bounds
    have tightest := bounds.tightest ordered
    simp only [same] at tightest
    exact tightest

theorem Ordered.finds_least (ordered : set.Ordered)
    (same : ∀ element, meets element = true ↔ holds element)
    (upward : set.toList.Pairwise fun lower upper => meets lower = true → meets upper = true) :
    set.Finds holds (fun element other => cmp element other = .lt) (set.tree.bound? meets .left) :=
  finds_of_bounds same upward (List.pairwise_reverse.2 ordered.ascending)

theorem Ordered.finds_greatest (ordered : set.Ordered)
    (same : ∀ element, meets element = true ↔ holds element)
    (downward : set.toList.Pairwise fun lower upper => meets upper = true → meets lower = true) :
    set.Finds holds (fun element other => cmp other element = .lt)
      (set.tree.bound? meets .right) :=
  finds_of_bounds same (List.pairwise_reverse.2 downward) ordered.ascending

/-- After any changes the four searches lead to the least element that the target is not above, the
least that it is below, the greatest that it is not below and the greatest that it is above. -/
theorem bounds_exact [Std.TransCmp cmp] (changes : List (Change α)) (target : α) :
    let set : OrderedSet α cmp := empty.changeAll changes
    set.Finds (fun element => cmp target element ≠ .gt) (fun element other => cmp element other = .lt)
        (set.ceiling? target) ∧
      set.Finds (fun element => cmp target element = .lt)
        (fun element other => cmp element other = .lt) (set.above? target) ∧
      set.Finds (fun element => cmp target element ≠ .lt)
        (fun element other => cmp other element = .lt) (set.floor? target) ∧
      set.Finds (fun element => cmp target element = .gt)
        (fun element other => cmp other element = .lt) (set.below? target) := by
  intro set
  have ordered : set.Ordered := (sound_empty.changeAll changes).toOrdered
  have parted := lt_or_gt ordered.ascending target
  refine ⟨ordered.finds_least (by simp) ?_, ordered.finds_least (by simp) ?_,
    ordered.finds_greatest (by simp) ?_, ordered.finds_greatest (by simp) ?_⟩
  all_goals exact parted.imp fun split => by rcases split with order | order <;> simp [order]

theorem bounds_exact_lastDigit :
    Std.TransCmp (compareOn fun number : Nat => number % 10) ∧
      let set : OrderedSet Nat (compareOn fun number => number % 10) :=
        empty.changeAll [.insert 13, .insert 5, .insert 21, .insert 27, .erase 31, .insert 8]
      set.Finds (fun element => compareOn (· % 10) 35 element ≠ .lt)
          (fun element other => compareOn (· % 10) other element = .lt) (set.floor? 35) ∧
        (set.floor? 35).bind set.keyAt? = some 5 ∧ (set.below? 35).bind set.keyAt? = some 13 ∧
        (set.above? 35).bind set.keyAt? = some 27 ∧ set.below? 3 = none :=
  ⟨inferInstance, (bounds_exact _ 35).2.2.1, by decide, by decide, by decide, by decide⟩

end OrderedSet

end AttributeIndex
