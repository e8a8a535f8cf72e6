import AttributeIndex.Proofs.OrderedSet.Building
import AttributeIndex.Proofs.OrderedSet.Stepping
import Mathlib.Data.Nat.Fib.Basic

namespace AttributeIndex

namespace Tree

variable {α : Type} {tree : Tree α} {path : Path}

theorem Balanced.fib_le (balanced : tree.Balanced) : Nat.fib (tree.height + 2) ≤ tree.size + 1 := by
  induction tree with
  | leaf => exact Nat.le_refl _
  | node left key balance right ihLeft ihRight =>
    obtain ⟨exact, low, high, leftBalanced, rightBalanced⟩ := balanced
    have onLeft := ihLeft leftBalanced
    have onRight := ihRight rightBalanced
    have recurrence : Nat.fib (1 + max left.height right.height + 2) =
        Nat.fib (max left.height right.height + 1) + Nat.fib (max left.height right.height + 2) := by
      rw [Nat.add_comm 1]
      exact Nat.fib_add_two
    rw [height, size, recurrence]
    -- The taller side pays for the later summand, the other for the earlier one.
    rcases Nat.le_total left.height right.height with taller | taller
    · have lower : Nat.fib (right.height + 1) ≤ Nat.fib (left.height + 2) :=
        Nat.fib_mono (by omega)
      rw [Nat.max_eq_right taller]
      omega
    · have lower : Nat.fib (left.height + 1) ≤ Nat.fib (right.height + 2) :=
        Nat.fib_mono (by omega)
      rw [Nat.max_eq_left taller]
      omega

theorem size_eq_of_toList {other : Tree α} (same : tree.toList = other.toList) :
    tree.size = other.size := by
  rw [← length_toList, same, length_toList]

theorem size_insert (cmp : α → α → Ordering) (key : α) (tree : Tree α) :
    (tree.insert cmp key).tree.size =
      tree.size + if (tree.insert cmp key).inserted then 1 else 0 := by
  induction tree with
  | leaf => rfl
  | node left root balance right ihLeft ihRight =>
    rw [insert]
    cases cmp key root with
    | eq => rfl
    | lt =>
      dsimp only
      rw [inserted_afterGrowth, size_eq_of_toList (toList_afterGrowth ..), size, size, ihLeft]
      omega
    | gt =>
      dsimp only
      rw [inserted_afterGrowth, size_eq_of_toList (toList_afterGrowth ..), size, size, ihRight]
      omega

theorem size_withoutRoot (left : Tree α) (balance : Int) (right : Tree α) :
    (withoutRoot left balance right).1.size = left.size + right.size := by
  rw [← length_toList, toList_withoutRoot, List.length_append, length_toList, length_toList]

theorem size_erase (cmp : α → α → Ordering) (key : α) (tree : Tree α) :
    (tree.erase cmp key).tree.size + (if (tree.erase cmp key).removed then 1 else 0) = tree.size := by
  induction tree with
  | leaf => rfl
  | node left root balance right ihLeft ihRight =>
    rw [erase]
    cases cmp key root with
    | eq =>
      simp only [size_withoutRoot, if_true, size]
      omega
    | lt =>
      dsimp only
      split
      · simp only [size_eq_of_toList (toList_afterShrinkage _), size]
        omega
      · simp only [size]
        omega
    | gt =>
      dsimp only
      split
      · simp only [size_eq_of_toList (toList_afterShrinkage _), size]
        omega
      · simp only [size]
        omega

/-! ## Ways to nodes -/

theorem length_lt_height {key : α} (found : tree.keyAt? path = some key) :
    path.length < tree.height := by
  induction path generalizing tree with
  | nil =>
    cases tree with
    | leaf => cases found
    | node left root balance right =>
      rw [height]
      exact Nat.lt_of_lt_of_le Nat.one_pos (Nat.le_add_right ..)
  | cons turn path ih =>
    cases tree with
    | leaf => cases (keyAt?_leaf _).symm.trans found
    | node left root balance right =>
      have inner : path.length < ((node left root balance right).child turn).height := ih found
      have lower : ((node left root balance right).child turn).height ≤
          max left.height right.height := by
        cases turn with
        | left => exact Nat.le_max_left ..
        | right => exact Nat.le_max_right ..
      rw [List.length_cons, height]
      omega

theorem exists_of_bound? {meets : α → Bool} {side : Side}
    (bound : tree.bound? meets side = some path) :
    ∃ key, tree.keyAt? path = some key := by
  induction tree generalizing path with
  | leaf => cases bound
  | node left root balance right ihLeft ihRight =>
    have inner : ∀ turn {path}, ((node left root balance right).child turn).bound? meets side = some path →
        ∃ key, (node left root balance right).keyAt? (turn :: path) = some key := by
      intro turn path found
      cases turn with
      | left => exact ihLeft found
      | right => exact ihRight found
    rw [bound?_node] at bound
    cases met : meets root with
    | true =>
      rw [met, if_pos rfl, Option.some.injEq] at bound
      cases search : ((node left root balance right).child side).bound? meets side with
      | none =>
        rw [search] at bound
        cases bound
        exact ⟨root, rfl⟩
      | some further =>
        rw [search] at bound
        cases bound
        exact inner side search
    | false =>
      rw [met, if_neg Bool.false_ne_true, Option.map_eq_some_iff] at bound
      obtain ⟨further, search, rfl⟩ := bound
      exact inner side.opposite search

theorem exists_of_outermost? {side : Side} (outermost : tree.outermost? side = some path) :
    ∃ key, tree.keyAt? path = some key := by
  have spec := tree.outermost?_spec side
  rw [outermost] at spec
  exact spec.1

end Tree

namespace OrderedSet

variable {α : Type} {cmp : α → α → Ordering}

/-- The ways that a set offers: to an end, to a bound of any target, and by a step from any way. -/
inductive Offers (set : OrderedSet α cmp) : (path : Path) → Prop
  | first {path : Path} (found : set.firstPath? = some path) : Offers set path
  | last {path : Path} (found : set.lastPath? = some path) : Offers set path
  | ceiling {path : Path} (target : α) (found : set.ceiling? target = some path) : Offers set path
  | above {path : Path} (target : α) (found : set.above? target = some path) : Offers set path
  | floor {path : Path} (target : α) (found : set.floor? target = some path) : Offers set path
  | below {path : Path} (target : α) (found : set.below? target = some path) : Offers set path
  | step {path : Path} (side : Side) (before : Path) (moved : set.tree.step side before = (true, path)) :
    Offers set path

variable {set : OrderedSet α cmp} {path : Path}

theorem Offers.exists_key (offers : set.Offers path) : ∃ key, set.keyAt? path = some key := by
  cases offers with
  | first found => exact Tree.exists_of_outermost? found
  | last found => exact Tree.exists_of_outermost? found
  | ceiling target found => exact Tree.exists_of_bound? found
  | above target found => exact Tree.exists_of_bound? found
  | floor target found => exact Tree.exists_of_bound? found
  | below target found => exact Tree.exists_of_bound? found
  | step side before moved =>
    obtain ⟨index, -, there⟩ := Tree.exists_of_step moved
    exact Tree.mem_pathsToward.1 (List.mem_of_getElem? there)

/-- What no change breaks even if the comparison is no order. -/
structure Shaped (set : OrderedSet α cmp) : Prop where
  size_eq : set.size = set.tree.size
  balanced : set.tree.Balanced

theorem shaped_empty : (empty : OrderedSet α cmp).Shaped :=
  ⟨rfl, trivial⟩

theorem Shaped.change (shaped : set.Shaped) (change : Change α) : (set.change change).Shaped := by
  obtain ⟨counted, balanced⟩ := shaped
  cases change with
  | insert key =>
    refine ⟨?_, (Tree.insert_grown cmp key balanced).balanced⟩
    have grown := set.tree.size_insert cmp key
    simp only [OrderedSet.change, OrderedSet.insert, counted]
    split <;> simp_all
  | erase key =>
    refine ⟨?_, (Tree.erase_shrunk cmp key balanced).balanced⟩
    have shrunk := set.tree.size_erase cmp key
    simp only [OrderedSet.change, OrderedSet.erase, counted]
    split <;> simp_all
    omega
  | clear => exact shaped_empty
  | replace keys =>
    simp only [OrderedSet.change, ofSorted]
    cases firstDisorder? cmp keys with
    | some index => exact ⟨counted, balanced⟩
    | none =>
      exact ⟨(Tree.size_build (Nat.le_refl _)).symm,
        (Tree.build_balanced keys.length keys (Nat.le_refl _)).1⟩

theorem Shaped.changeAll (shaped : set.Shaped) (changes : List (Change α)) :
    (set.changeAll changes).Shaped := by
  induction changes generalizing set with
  | nil => exact shaped
  | cons first rest ih => exact ih (shaped.change first)

/-- After any changes the tree has at least as many nodes as the Fibonacci tree of its height, and
every way that the set offers has fewer turns than the tree has levels. -/
theorem depth_bounded (changes : List (Change α)) :
    let set : OrderedSet α cmp := empty.changeAll changes
    set.size = set.toList.length ∧ Nat.fib (set.tree.height + 2) ≤ set.size + 1 ∧
      ∀ path, set.Offers path → path.length < set.tree.height := by
  intro set
  have shaped : set.Shaped := shaped_empty.changeAll changes
  refine ⟨?_, ?_, fun path offers => ?_⟩
  · rw [shaped.size_eq]
    exact set.tree.length_toList.symm
  · rw [shaped.size_eq]
    exact shaped.balanced.fib_le
  · obtain ⟨key, found⟩ := offers.exists_key
    exact Tree.length_lt_height found

example :
    let set : OrderedSet Nat compare :=
      empty.changeAll [.insert 6, .insert 3, .insert 9, .insert 1, .insert 5, .insert 8, .insert 11,
        .insert 0, .insert 2, .erase 2, .erase 11]
    set.tree.height = 4 ∧ set.size + 1 = Nat.fib 6 := by
  decide

end OrderedSet

end AttributeIndex
