import AttributeIndex.OrderedSet.Iterator
import AttributeIndex.Proofs.OrderedSet.Guarded

namespace AttributeIndex

variable {α : Type} {cmp : α → α → Ordering}

theorem Sequence.below_append_above [Std.TransCmp cmp] {key : α} {list : List α}
    (ascending : Ascending cmp list) (fresh : has cmp key list = false) :
    list.filter (fun element => cmp element key == .lt) ++
      list.filter (fun element => cmp element key == .gt) = list := by
  induction list with
  | nil => rfl
  | cons head tail ih =>
    obtain ⟨after, ascending⟩ := ascending_cons.1 ascending
    have distinct : cmp key head ≠ .eq ∧ has cmp key tail = false := by simpa [has] using fresh
    cases order : cmp head key with
    | eq => exact absurd (Std.OrientedCmp.eq_symm order) distinct.1
    | lt => simp [order, ih ascending distinct.2]
    | gt =>
      -- From here on nothing is below the key.
      have above : ∀ element ∈ head :: tail, cmp element key = .gt := by
        intro element member
        rcases List.mem_cons.1 member with rfl | member
        · exact order
        · exact Std.OrientedCmp.gt_of_lt
            (Std.TransCmp.lt_trans (Std.OrientedCmp.lt_of_gt order) (after element member))
      have none : ∀ element ∈ head :: tail, cmp element key ≠ .lt := by
        intro element member
        simp [above element member]
      rw [filter_eq_nil_of_below none, filter_eq_self_of_all above, List.nil_append]

namespace Tree

open Sequence

theorem insert_eq_self {key : α} {tree : Tree α} (refused : (tree.insert cmp key).inserted = false) :
    tree.insert cmp key = ⟨tree, false, false⟩ := by
  induction tree with
  | leaf => cases refused
  | node left root balance right ihLeft ihRight =>
    rw [insert] at refused ⊢
    cases order : cmp key root with
    | eq => rfl
    | lt =>
      simp only [order, inserted_afterGrowth] at refused ⊢
      rw [ihLeft refused]
      rfl
    | gt =>
      simp only [order, inserted_afterGrowth] at refused ⊢
      rw [ihRight refused]
      rfl

theorem erase_eq_self {key : α} {tree : Tree α} (missed : (tree.erase cmp key).removed = false) :
    tree.erase cmp key = ⟨tree, false, false⟩ := by
  induction tree with
  | leaf => rfl
  | node left root balance right ihLeft ihRight =>
    rw [erase] at missed ⊢
    cases order : cmp key root with
    | eq => simp [order] at missed
    | lt =>
      have below : (left.erase cmp key).removed = false := by
        simp only [order] at missed
        split at missed <;> exact missed
      simp [ihLeft below]
    | gt =>
      have above : (right.erase cmp key).removed = false := by
        simp only [order] at missed
        split at missed <;> exact missed
      simp [ihRight above]

theorem last?_eq_getLast? (tree : Tree α) : tree.last? = tree.toList.getLast? := by
  induction tree with
  | leaf => rfl
  | node left key balance right _ ih =>
    cases right with
    | leaf => simp [last?, toList]
    | node inner root rootBalance outer =>
      have shown : (node left key balance (node inner root rootBalance outer)).last? =
          (node inner root rootBalance outer).last? := rfl
      rw [shown, ih]
      simp [toList, List.getLast?_append, List.getLast?_cons]

theorem search_eq_some [Std.TransCmp cmp] {key element : α} {tree : Tree α}
    (ascending : Ascending cmp tree.toList) :
    @OrderedSet.find?.go α cmp key tree = some element ↔
      element ∈ tree.toList ∧ cmp key element = .eq := by
  -- Only one side of a node can hold an equal element, and neither can if the node does.
  induction tree with
  | leaf => simp [OrderedSet.find?.go, toList]
  | node left root balance right ihLeft ihRight =>
    obtain ⟨leftAscending, upper, before⟩ := ascending_append.1 ascending
    obtain ⟨after, rightAscending⟩ := ascending_cons.1 upper
    have lower : element ∈ left.toList → cmp element root = .lt :=
      fun member => before element member root (List.mem_cons_self ..)
    rw [OrderedSet.find?.go, toList, List.mem_append, List.mem_cons]
    cases order : cmp key root with
    | eq =>
      have onLeft : element ∈ left.toList → cmp key element ≠ .eq := fun member => by
        simp [Std.TransCmp.congr_left order, Std.OrientedCmp.gt_of_lt (lower member)]
      have onRight : element ∈ right.toList → cmp key element ≠ .eq := fun member => by
        simp [Std.TransCmp.congr_left order, after element member]
      constructor
      · intro found
        obtain rfl := Option.some.inj found
        exact ⟨.inr (.inl rfl), order⟩
      · rintro ⟨member | rfl | member, equal⟩
        · exact absurd equal (onLeft member)
        · rfl
        · exact absurd equal (onRight member)
    | lt =>
      have onRight : element = root ∨ element ∈ right.toList → cmp key element ≠ .eq := by
        rintro (rfl | member)
        · simp [order]
        · simp [Std.TransCmp.lt_trans order (after element member)]
      dsimp only
      rw [ihLeft leftAscending]
      refine and_congr_left fun equal => ⟨.inl, fun member => ?_⟩
      exact member.resolve_right fun member => onRight member equal
    | gt =>
      have onLeft : element ∈ left.toList → cmp key element ≠ .eq := fun member => by
        have below := Std.TransCmp.lt_trans (lower member) (Std.OrientedCmp.lt_of_gt order)
        simp [Std.OrientedCmp.gt_of_lt below]
      dsimp only
      rw [ihRight rightAscending]
      refine and_congr_left fun equal => ⟨fun member => .inr (.inr member), fun member => ?_⟩
      rcases member with member | rfl | member
      · exact absurd equal (onLeft member)
      · simp [order] at equal
      · exact member

end Tree

namespace OrderedSet

open Sequence

/-! ## Iteration -/

namespace Iterator

def toList (iterator : Iterator α) : List α :=
  iterator.pending.flatMap fun entry => entry.1 :: entry.2.toList

theorem flatMap_descend (tree : Tree α) (pending : List (α × Tree α)) :
    (descend tree pending).flatMap (fun entry => entry.1 :: entry.2.toList) =
      tree.toList ++ pending.flatMap fun entry => entry.1 :: entry.2.toList := by
  induction tree generalizing pending with
  | leaf => rfl
  | node left key balance right ihLeft _ => simp [descend, ihLeft, Tree.toList]

theorem toList_of_next {iterator after : Iterator α} {key : α}
    (next : iterator.next? = some (key, after)) :
    iterator.toList = key :: after.toList ∧ after.remaining = iterator.remaining - 1 := by
  unfold next? at next
  split at next
  · cases next
  · rename_i first right pending waiting
    simp only [Option.some.injEq, Prod.mk.injEq] at next
    obtain ⟨rfl, rfl⟩ := next
    refine ⟨?_, rfl⟩
    simp [toList, waiting, flatMap_descend]

theorem next?_eq_none {iterator : Iterator α} : iterator.next? = none ↔ iterator.toList = [] := by
  unfold next? toList
  split <;> simp_all

theorem take_eq (limit : Nat) (iterator : Iterator α) :
    (iterator.take limit).1 = iterator.toList.take limit ∧
      (iterator.take limit).2.toList = iterator.toList.drop limit ∧
      (iterator.take limit).2.remaining = iterator.remaining - (iterator.take limit).1.length := by
  induction limit generalizing iterator with
  | zero => exact ⟨rfl, rfl, rfl⟩
  | succ limit ih =>
    rw [take]
    cases next : iterator.next? with
    | none => simp [next?_eq_none.1 next]
    | some step =>
      obtain ⟨key, after⟩ := step
      obtain ⟨listed, counted⟩ := toList_of_next next
      obtain ⟨taken, left, remaining⟩ := ih after
      refine ⟨?_, ?_, ?_⟩
      · simp [listed, taken]
      · simp [listed, left]
      · simp only [remaining, counted, List.length_cons]
        omega

end Iterator

theorem toList_iterator (set : OrderedSet α cmp) : set.iterator.toList = set.toList := by
  simp [iterator, Iterator.toList, Iterator.flatMap_descend, toList]

/-! ## Sets -/

structure Inserts (set : OrderedSet α cmp) (key : α) : Prop where
  inserted_iff : (set.insert key).1 = true ↔ ∀ element ∈ set.toList, cmp key element ≠ .eq
  placed : (set.insert key).1 = true → ∃ below above, set.toList = below ++ above ∧
    (∀ element ∈ below, cmp element key = .lt) ∧ (∀ element ∈ above, cmp key element = .lt) ∧
    (set.insert key).2.toList = below ++ key :: above
  refused : (set.insert key).1 = false → (set.insert key).2 = set

structure Erases (set : OrderedSet α cmp) (key : α) : Prop where
  removed_iff : (set.erase key).1 = true ↔ ∃ element ∈ set.toList, cmp key element = .eq
  taken : (set.erase key).1 = true → ∃ below element above, set.toList = below ++ element :: above ∧
    cmp key element = .eq ∧ (set.erase key).2.toList = below ++ above
  missed : (set.erase key).1 = false → (set.erase key).2 = set

structure Yields (set : OrderedSet α cmp) (limit : Nat) : Prop where
  elements_eq : (set.iterator.take limit).1 = set.toList.take limit
  remaining_eq : (set.iterator.take limit).2.remaining + (set.iterator.take limit).1.length = set.size
  ended_iff : (set.iterator.take limit).2.next? = none ↔ set.size ≤ limit
  counts_down : ∀ key after, (set.iterator.take limit).2.next? = some (key, after) →
    after.remaining + 1 = (set.iterator.take limit).2.remaining

theorem Ordered.inserts [Std.TransCmp cmp] {set : OrderedSet α cmp} (ordered : set.Ordered)
    (key : α) : set.Inserts key where
  inserted_iff := by
    rw [inserted_insert ordered key]
    simp [has]
  placed inserted := by
    have fresh : has cmp key set.toList = false := by
      simpa [inserted_insert ordered key] using inserted
    have whole := below_append_above ordered.ascending fresh
    refine ⟨_, _, whole.symm, fun element member => ?_, fun element member => ?_, ?_⟩
    · simpa using (List.mem_filter.1 member).2
    · exact Std.OrientedCmp.lt_of_gt (by simpa using (List.mem_filter.1 member).2)
    · rw [toList_insert ordered key, add, if_neg (by simp [fresh])]
      rfl
  refused refused := by
    have same : set.tree.insert cmp key = ⟨set.tree, false, false⟩ := Tree.insert_eq_self refused
    simp [insert, same]

theorem Ordered.erases [Std.TransCmp cmp] {set : OrderedSet α cmp} (ordered : set.Ordered)
    (key : α) : set.Erases key where
  removed_iff := by
    rw [removed_erase ordered key]
    exact has_iff
  taken removed := by
    rw [removed_erase ordered key] at removed
    obtain ⟨element, member, equal⟩ := has_iff.1 removed
    obtain ⟨below, above, split⟩ := List.append_of_mem member
    refine ⟨below, element, above, split, equal, ?_⟩
    rw [toList_erase ordered key]
    have ascending := ordered.ascending
    rw [split] at ascending ⊢
    exact erase_append_of_eq ascending equal
  missed missed := by
    have same : set.tree.erase cmp key = ⟨set.tree, false, false⟩ := Tree.erase_eq_self missed
    simp [erase, same]

theorem Ordered.yields {set : OrderedSet α cmp} (ordered : set.Ordered) (limit : Nat) :
    set.Yields limit := by
  obtain ⟨taken, left, counted⟩ := Iterator.take_eq limit set.iterator
  rw [toList_iterator] at taken left
  have size_eq := ordered.size_eq
  have remaining : (set.iterator.take limit).2.remaining + (set.iterator.take limit).1.length =
      set.size := by
    have whole : set.iterator.remaining = set.size := rfl
    rw [counted, whole, taken, List.length_take]
    omega
  refine ⟨taken, remaining, ?_, fun key after next => ?_⟩
  · rw [Iterator.next?_eq_none, left, List.drop_eq_nil_iff, size_eq]
  · obtain ⟨listed, one⟩ := Iterator.toList_of_next next
    have some_left : 0 < (set.toList.drop limit).length := by
      rw [← left, listed]
      exact Nat.succ_pos _
    rw [taken, List.length_take] at remaining
    rw [List.length_drop] at some_left
    omega

/-- After any changes a set answers and changes as its sequence demands. -/
theorem changeAll_elements [Std.TransCmp cmp] (changes : List (Change α)) :
    let set : OrderedSet α cmp := empty.changeAll changes
    (∀ key, set.Inserts key ∧ set.Erases key ∧
      ∀ element, set.find? key = some element ↔ element ∈ set.toList ∧ cmp key element = .eq) ∧
    set.first? = set.toList.head? ∧ set.last? = set.toList.getLast? ∧
    ∀ limit, set.Yields limit := by
  intro set
  have ordered : set.Ordered := (sound_empty.changeAll changes).toOrdered
  refine ⟨fun key => ⟨ordered.inserts key, ordered.erases key, fun element => ?_⟩, set.first?_eq,
    set.tree.last?_eq_getLast?, ordered.yields⟩
  exact Tree.search_eq_some ordered.ascending

theorem changeAll_elements_lastDigit :
    Std.TransCmp (compareOn fun number : Nat => number % 10) ∧
      let set : OrderedSet Nat (compareOn fun number => number % 10) :=
        empty.changeAll [.insert 13, .insert 5, .insert 21, .insert 27, .insert 35, .insert 8]
      set.toList = [21, 13, 5, 27, 8] ∧ set.find? 95 = some 5 ∧ set.find? 4 = none ∧
        (set.insert 45).2 = set ∧ (set.erase 23).2.toList = [21, 5, 27, 8] ∧
        set.last? = some 8 ∧ (set.iterator.take 3).2.remaining = 2 := by
  obtain ⟨changes, -, last, yields⟩ := @changeAll_elements Nat (compareOn fun n => n % 10) _
    [.insert 13, .insert 5, .insert 21, .insert 27, .insert 35, .insert 8]
  refine ⟨inferInstance, by decide, ((changes 95).2.2 5).2 (by decide), by decide,
    (changes 45).1.refused (by decide), by decide, last.trans (by decide), ?_⟩
  have counted := (yields 3).remaining_eq
  rw [(yields 3).elements_eq] at counted
  exact Nat.add_right_cancel (counted.trans (by decide))

end OrderedSet

end AttributeIndex
