import AttributeIndex.OrderedSet.Basic

namespace AttributeIndex

namespace Sequence

variable {α : Type}

def has (cmp : α → α → Ordering) (key : α) (list : List α) : Bool :=
  list.any fun element => cmp key element == .eq

def insert (cmp : α → α → Ordering) (key : α) (list : List α) : List α :=
  list.filter (fun element => cmp element key == .lt) ++
    key :: list.filter (fun element => cmp element key == .gt)

def add (cmp : α → α → Ordering) (key : α) (list : List α) : List α :=
  if has cmp key list then list else insert cmp key list

def erase (cmp : α → α → Ordering) (key : α) (list : List α) : List α :=
  list.filter fun element => cmp element key != .eq

def Ascending (cmp : α → α → Ordering) (list : List α) : Prop :=
  list.Pairwise fun first second => cmp first second = .lt

variable {cmp : α → α → Ordering}

theorem ascending_append {left right : List α} :
    Ascending cmp (left ++ right) ↔
      Ascending cmp left ∧ Ascending cmp right ∧
        ∀ low ∈ left, ∀ high ∈ right, cmp low high = .lt :=
  List.pairwise_append

theorem ascending_cons {key : α} {list : List α} :
    Ascending cmp (key :: list) ↔ (∀ high ∈ list, cmp key high = .lt) ∧ Ascending cmp list :=
  List.pairwise_cons

theorem ascending_erase {key : α} {list : List α} (ascending : Ascending cmp list) :
    Ascending cmp (erase cmp key list) :=
  ascending.filter _

theorem ascending_insert [Std.TransCmp cmp] {key : α} {list : List α}
    (ascending : Ascending cmp list) : Ascending cmp (insert cmp key list) := by
  rw [insert, ascending_append, ascending_cons]
  refine ⟨ascending.filter _, ⟨?_, ascending.filter _⟩, ?_⟩
  · intro high member
    exact Std.OrientedCmp.lt_of_gt (by simpa using (List.mem_filter.1 member).2)
  · intro low lowMember high highMember
    have below : cmp low key = .lt := by simpa using (List.mem_filter.1 lowMember).2
    rcases List.mem_cons.1 highMember with rfl | highMember
    · exact below
    · have above : cmp high key = .gt := by simpa using (List.mem_filter.1 highMember).2
      exact Std.TransCmp.lt_trans below (Std.OrientedCmp.lt_of_gt above)

theorem has_iff {key : α} {list : List α} :
    has cmp key list = true ↔ ∃ element ∈ list, cmp key element = .eq := by
  simp [has]

theorem has_append {key : α} {left right : List α} :
    has cmp key (left ++ right) = (has cmp key left || has cmp key right) :=
  List.any_append

theorem mem_insert [Std.LawfulEqCmp cmp] {key element : α} {list : List α} :
    element ∈ insert cmp key list ↔ element = key ∨ element ∈ list := by
  simp only [insert, List.mem_append, List.mem_cons, List.mem_filter, beq_iff_eq]
  cases order : cmp element key with
  | lt => simp [or_comm]
  | gt => simp
  | eq =>
    obtain rfl := Std.LawfulEqCmp.compare_eq_iff_eq.1 order
    simp

theorem mem_erase {key element : α} {list : List α} :
    element ∈ erase cmp key list ↔ element ∈ list ∧ cmp element key ≠ .eq := by
  simp [erase]

theorem length_insert [Std.TransCmp cmp] {key : α} {list : List α}
    (fresh : has cmp key list = false) : (insert cmp key list).length = list.length + 1 := by
  induction list with
  | nil => rfl
  | cons head tail ih =>
    have distinct : cmp key head ≠ .eq ∧ has cmp key tail = false := by
      simpa [has] using fresh
    have grown := ih distinct.2
    rw [insert, List.length_append, List.length_cons] at grown
    cases order : cmp head key with
    | eq => exact absurd (Std.OrientedCmp.eq_symm order) distinct.1
    | lt => simp [insert, order]; omega
    | gt => simp [insert, order]; omega

theorem filter_eq_nil_of_below {list : List α} {key : α} {order : Ordering}
    (all : ∀ element ∈ list, cmp element key ≠ order) :
    list.filter (fun element => cmp element key == order) = [] := by
  simpa using all

theorem filter_eq_self_of_all {list : List α} {key : α} {order : Ordering}
    (all : ∀ element ∈ list, cmp element key = order) :
    list.filter (fun element => cmp element key == order) = list := by
  simpa using all

theorem insert_append_of_lt [Std.TransCmp cmp] {left right : List α} {root key : α}
    (ascending : Ascending cmp (left ++ root :: right)) (below : cmp key root = .lt) :
    insert cmp key (left ++ root :: right) = insert cmp key left ++ root :: right := by
  have above : ∀ element ∈ root :: right, cmp element key = .gt := by
    intro element member
    rcases List.mem_cons.1 member with rfl | member
    · exact Std.OrientedCmp.gt_of_lt below
    · have after := (ascending_cons.1 (ascending_append.1 ascending).2.1).1 element member
      exact Std.OrientedCmp.gt_of_lt (Std.TransCmp.lt_trans below after)
  have none : ∀ element ∈ root :: right, cmp element key ≠ .lt := by
    intro element member
    simp [above element member]
  rw [insert, List.filter_append, List.filter_append, filter_eq_nil_of_below none,
    filter_eq_self_of_all above, List.append_nil, insert, List.append_assoc, List.cons_append]

theorem insert_append_of_gt [Std.TransCmp cmp] {left right : List α} {root key : α}
    (ascending : Ascending cmp (left ++ root :: right)) (above : cmp key root = .gt) :
    insert cmp key (left ++ root :: right) = left ++ root :: insert cmp key right := by
  have lower : cmp root key = .lt := Std.OrientedCmp.lt_of_gt above
  have below : ∀ element ∈ left, cmp element key = .lt := by
    intro element member
    have before := (ascending_append.1 ascending).2.2 element member root (List.mem_cons_self ..)
    exact Std.TransCmp.lt_trans before lower
  have none : ∀ element ∈ left, cmp element key ≠ .gt := by
    intro element member
    simp [below element member]
  rw [insert, List.filter_append, List.filter_append, filter_eq_nil_of_below none,
    filter_eq_self_of_all below]
  simp [insert, lower]

theorem has_append_of_lt [Std.TransCmp cmp] {left right : List α} {root key : α}
    (ascending : Ascending cmp (left ++ root :: right)) (below : cmp key root = .lt) :
    has cmp key (left ++ root :: right) = has cmp key left := by
  have none : has cmp key (root :: right) = false := by
    refine Bool.eq_false_iff.2 fun found => ?_
    obtain ⟨element, member, equal⟩ := has_iff.1 found
    rcases List.mem_cons.1 member with rfl | member
    · simp [below] at equal
    · have after := (ascending_cons.1 (ascending_append.1 ascending).2.1).1 element member
      simp [Std.TransCmp.lt_trans below after] at equal
  rw [has_append, none, Bool.or_false]

theorem has_append_of_gt [Std.TransCmp cmp] {left right : List α} {root key : α}
    (ascending : Ascending cmp (left ++ root :: right)) (above : cmp key root = .gt) :
    has cmp key (left ++ root :: right) = has cmp key right := by
  have none : has cmp key (left ++ [root]) = false := by
    refine Bool.eq_false_iff.2 fun found => ?_
    obtain ⟨element, member, equal⟩ := has_iff.1 found
    rcases List.mem_append.1 member with member | member
    · have before := (ascending_append.1 ascending).2.2 element member root (List.mem_cons_self ..)
      have lower := Std.TransCmp.lt_trans before (Std.OrientedCmp.lt_of_gt above)
      simp [Std.OrientedCmp.gt_of_lt lower] at equal
    · obtain rfl := List.mem_singleton.1 member
      simp [above] at equal
  rw [← List.singleton_append, ← List.append_assoc, has_append, none, Bool.false_or]

theorem has_append_of_eq {left right : List α} {root key : α} (same : cmp key root = .eq) :
    has cmp key (left ++ root :: right) = true :=
  has_iff.2 ⟨root, by simp, same⟩

theorem add_append_of_lt [Std.TransCmp cmp] {left right : List α} {root key : α}
    (ascending : Ascending cmp (left ++ root :: right)) (below : cmp key root = .lt) :
    add cmp key (left ++ root :: right) = add cmp key left ++ root :: right := by
  simp only [add, has_append_of_lt ascending below, insert_append_of_lt ascending below]
  split <;> rfl

theorem add_append_of_gt [Std.TransCmp cmp] {left right : List α} {root key : α}
    (ascending : Ascending cmp (left ++ root :: right)) (above : cmp key root = .gt) :
    add cmp key (left ++ root :: right) = left ++ root :: add cmp key right := by
  simp only [add, has_append_of_gt ascending above, insert_append_of_gt ascending above]
  split <;> rfl

theorem erase_eq_self [Std.OrientedCmp cmp] {key : α} {list : List α}
    (absent : has cmp key list = false) : erase cmp key list = list := by
  refine List.filter_eq_self.2 fun element member => ?_
  simp only [bne_iff_ne]
  intro equal
  have found : has cmp key list = true :=
    has_iff.2 ⟨element, member, Std.OrientedCmp.eq_symm equal⟩
  simp [absent] at found

theorem erase_append_of_eq [Std.TransCmp cmp] {left right : List α} {root key : α}
    (ascending : Ascending cmp (left ++ root :: right)) (same : cmp key root = .eq) :
    erase cmp key (left ++ root :: right) = left ++ right := by
  have parts := ascending_append.1 ascending
  have keepLeft : erase cmp key left = left := by
    refine List.filter_eq_self.2 fun element member => ?_
    have before := parts.2.2 element member root (List.mem_cons_self ..)
    simp [Std.TransCmp.congr_right same, before]
  have keepRight : erase cmp key right = right := by
    refine List.filter_eq_self.2 fun element member => ?_
    have after := (ascending_cons.1 parts.2.1).1 element member
    simp [Std.TransCmp.congr_right same, Std.OrientedCmp.gt_of_lt after]
  have dropRoot : erase cmp key (root :: right) = right := by
    rw [← keepRight]
    simp [erase, Std.OrientedCmp.eq_symm same]
  show List.filter _ (left ++ root :: right) = left ++ right
  rw [List.filter_append]
  exact (congrArg (· ++ _) keepLeft).trans (congrArg (left ++ ·) dropRoot)

theorem erase_append_of_lt [Std.TransCmp cmp] {left right : List α} {root key : α}
    (ascending : Ascending cmp (left ++ root :: right)) (below : cmp key root = .lt) :
    erase cmp key (left ++ root :: right) = erase cmp key left ++ root :: right := by
  have absent : has cmp key (root :: right) = false := by
    rw [← List.nil_append (root :: right)]
    exact has_append_of_lt (ascending_append.1 ascending).2.1 below
  rw [erase, List.filter_append]
  exact congrArg _ (erase_eq_self absent)

theorem erase_append_of_gt [Std.TransCmp cmp] {left right : List α} {root key : α}
    (ascending : Ascending cmp (left ++ root :: right)) (above : cmp key root = .gt) :
    erase cmp key (left ++ root :: right) = left ++ root :: erase cmp key right := by
  have front : Ascending cmp (left ++ root :: []) := by
    have parts := ascending_append.1 ascending
    exact ascending_append.2 ⟨parts.1, by simp [Ascending], fun low member high single =>
      List.mem_singleton.1 single ▸ parts.2.2 low member root (List.mem_cons_self ..)⟩
  have absent : has cmp key (left ++ [root]) = false := by
    rw [has_append_of_gt front above]
    rfl
  rw [← List.singleton_append, ← List.append_assoc, erase, List.filter_append,
    ← List.singleton_append (l := erase cmp key right), ← List.append_assoc]
  exact congrArg (· ++ _) (erase_eq_self absent)

theorem length_erase [Std.TransCmp cmp] {key : α} {list : List α} (ascending : Ascending cmp list)
    (present : has cmp key list = true) : (erase cmp key list).length + 1 = list.length := by
  obtain ⟨element, member, equal⟩ := has_iff.1 present
  obtain ⟨left, right, rfl⟩ := List.append_of_mem member
  rw [erase_append_of_eq ascending equal]
  simp
  omega

end Sequence

/-! ## Trees -/

namespace Tree

open Sequence

variable {α : Type} {cmp : α → α → Ordering}

@[simp]
theorem toList_afterGrowth (inserted grew : Bool) (tree : Tree α) :
    (afterGrowth inserted grew tree).tree.toList = tree.toList := by
  unfold afterGrowth
  split
  · rfl
  · split
    · rfl
    · split <;> simp

@[simp]
theorem inserted_afterGrowth (inserted grew : Bool) (tree : Tree α) :
    (afterGrowth inserted grew tree).inserted = inserted := by
  unfold afterGrowth
  split
  · rfl
  · split
    · rfl
    · split <;> rfl

@[simp]
theorem toList_afterShrinkage (tree : Tree α) :
    (afterShrinkage tree).1.toList = tree.toList := by
  unfold afterShrinkage
  split
  · rfl
  · split <;> simp

theorem insert_eq [Std.TransCmp cmp] (key : α) (tree : Tree α)
    (ascending : Ascending cmp tree.toList) :
    (tree.insert cmp key).inserted = !has cmp key tree.toList ∧
      (tree.insert cmp key).tree.toList = add cmp key tree.toList := by
  induction tree with
  | leaf => exact ⟨rfl, rfl⟩
  | node left root balance right ihLeft ihRight =>
    have parts := ascending_append.1 ascending
    simp only [toList, Tree.insert]
    cases order : cmp key root with
    | eq => simp [has_append_of_eq order, add, toList]
    | lt =>
      obtain ⟨inserted, sequence⟩ := ihLeft parts.1
      rw [add_append_of_lt ascending order, has_append_of_lt ascending order]
      simp [toList, inserted, sequence]
    | gt =>
      obtain ⟨inserted, sequence⟩ := ihRight (ascending_cons.1 parts.2.1).2
      rw [add_append_of_gt ascending order, has_append_of_gt ascending order]
      simp [toList, inserted, sequence]

theorem toList_takeFirst (left : Tree α) (key : α) (balance : Int) (right : Tree α) :
    (takeFirst left key balance right).1 :: (takeFirst left key balance right).2.1.toList =
      left.toList ++ key :: right.toList := by
  induction left generalizing key balance right with
  | leaf => rfl
  | node left root rootBalance inner ih _ =>
    have taken := ih root rootBalance inner
    simp only [takeFirst]
    split <;> rename_i taking <;> rw [taking] at taken <;> simp only at taken <;>
      simp [toList, ← taken]

theorem toList_withoutRoot (left : Tree α) (balance : Int) (right : Tree α) :
    (withoutRoot left balance right).1.toList = left.toList ++ right.toList := by
  cases left with
  | leaf => rfl
  | node _ _ _ _ =>
    cases right with
    | leaf => simp [withoutRoot, toList]
    | node inner root rootBalance outer =>
      have taken := toList_takeFirst inner root rootBalance outer
      simp only [withoutRoot]
      split <;> rename_i taking <;> rw [taking] at taken <;> simp only at taken <;>
        simp [toList, ← taken]

theorem erase_eq [Std.TransCmp cmp] (key : α) (tree : Tree α)
    (ascending : Ascending cmp tree.toList) :
    (tree.erase cmp key).removed = has cmp key tree.toList ∧
      (tree.erase cmp key).tree.toList = Sequence.erase cmp key tree.toList := by
  induction tree with
  | leaf => exact ⟨rfl, rfl⟩
  | node left root balance right ihLeft ihRight =>
    have parts := ascending_append.1 ascending
    simp only [toList, Tree.erase]
    cases order : cmp key root with
    | eq =>
      rw [has_append_of_eq order, erase_append_of_eq ascending order]
      exact ⟨rfl, toList_withoutRoot ..⟩
    | lt =>
      obtain ⟨removed, sequence⟩ := ihLeft parts.1
      rw [has_append_of_lt ascending order, erase_append_of_lt ascending order, ← removed,
        ← sequence]
      dsimp only
      split
      · exact ⟨rfl, toList_afterShrinkage _⟩
      · exact ⟨rfl, rfl⟩
    | gt =>
      obtain ⟨removed, sequence⟩ := ihRight (ascending_cons.1 parts.2.1).2
      rw [has_append_of_gt ascending order, erase_append_of_gt ascending order, ← removed,
        ← sequence]
      dsimp only
      split
      · exact ⟨rfl, toList_afterShrinkage _⟩
      · exact ⟨rfl, rfl⟩

theorem first?_eq_head? (tree : Tree α) : tree.first? = tree.toList.head? := by
  induction tree with
  | leaf => rfl
  | node left key balance right ih _ =>
    cases left with
    | leaf => rfl
    | node inner root rootBalance outer =>
      rw [first?, ih, toList, List.head?_append]
      · simp [toList]
      · intro impossible
        cases impossible

theorem build_eq (count : Nat) (keys : List α) (enough : count ≤ keys.length) :
    (build count keys).1.toList = keys.take count ∧ (build count keys).2.2 = keys.drop count := by
  induction count using Nat.strongRecOn generalizing keys with
  | ind count ih =>
    unfold build
    split
    · subst count
      exact ⟨rfl, rfl⟩
    · obtain ⟨leftList, leftRest⟩ := ih (count / 2) (by omega) keys (by omega)
      split
      · rename_i building
        have rest : (build (count / 2) keys).2.2.length = 0 := by rw [building]; rfl
        rw [leftRest, List.length_drop] at rest
        omega
      · rename_i left leftHeight key rest building
        rw [building] at leftList leftRest
        simp only at leftList leftRest
        have shorter : rest.length + 1 = keys.length - count / 2 := by
          rw [← List.length_drop, ← leftRest, List.length_cons]
        obtain ⟨rightList, rightRest⟩ := ih (count - count / 2 - 1) (by omega) rest (by omega)
        obtain ⟨remaining, counted⟩ : ∃ remaining, count = count / 2 + (remaining + 1) :=
          ⟨count - count / 2 - 1, by omega⟩
        have right : count - count / 2 - 1 = remaining := by omega
        rw [right] at rightList rightRest ⊢
        constructor
        · rw [counted, List.take_add, ← leftRest, List.take_succ_cons, ← leftList, ← rightList]
          rfl
        · rw [counted, ← List.drop_drop, ← leftRest, List.drop_succ_cons, ← rightRest]

theorem build_node {count : Nat} {keys : List α} (positive : 0 < count)
    (enough : count ≤ keys.length) :
    ∃ key rest, count - count / 2 - 1 ≤ rest.length ∧
      build (count / 2) keys = ((build (count / 2) keys).1, (build (count / 2) keys).2.1, key :: rest) ∧
      build count keys =
        (node (build (count / 2) keys).1 key
            ((build (count - count / 2 - 1) rest).2.1 - (build (count / 2) keys).2.1)
            (build (count - count / 2 - 1) rest).1,
          1 + max (build (count / 2) keys).2.1 (build (count - count / 2 - 1) rest).2.1,
          (build (count - count / 2 - 1) rest).2.2) := by
  have leftRest := (build_eq (count / 2) keys (by omega)).2
  have behind : (build (count / 2) keys).2.2.length = keys.length - count / 2 := by
    rw [leftRest, List.length_drop]
  obtain ⟨key, rest, ahead⟩ := List.exists_cons_of_length_pos (by omega :
    0 < (build (count / 2) keys).2.2.length)
  rw [ahead, List.length_cons] at behind
  refine ⟨key, rest, by omega, by rw [← ahead], ?_⟩
  rw [build, if_neg (by omega)]
  revert ahead
  rcases build (count / 2) keys with ⟨left, leftHeight, remaining⟩
  rintro rfl
  rfl

end Tree

/-! ## Sets -/

namespace OrderedSet

open Sequence

variable {α : Type} {cmp : α → α → Ordering}

structure Ordered (set : OrderedSet α cmp) : Prop where
  ascending : Ascending cmp set.toList
  size_eq : set.size = set.toList.length

theorem ordered_empty : (empty : OrderedSet α cmp).Ordered :=
  ⟨.nil, rfl⟩

theorem first?_eq (set : OrderedSet α cmp) : set.first? = set.toList.head? :=
  set.tree.first?_eq_head?

theorem isEmpty_iff {set : OrderedSet α cmp} (ordered : set.Ordered) :
    set.isEmpty = true ↔ set.toList = [] := by
  simp [isEmpty, ordered.size_eq]

theorem contains_eq [Std.TransCmp cmp] {set : OrderedSet α cmp} (ordered : set.Ordered) (key : α) :
    set.contains key = has cmp key set.toList := by
  have search : ∀ tree : Tree α, Ascending cmp tree.toList →
      (@find?.go α cmp key tree).isSome = has cmp key tree.toList := by
    intro tree ascending
    induction tree with
    | leaf => rfl
    | node left root balance right ihLeft ihRight =>
      have parts := ascending_append.1 ascending
      rw [find?.go, Tree.toList]
      cases order : cmp key root with
      | eq => rw [has_append_of_eq order]; rfl
      | lt => rw [has_append_of_lt ascending order]; exact ihLeft parts.1
      | gt =>
        rw [has_append_of_gt ascending order]
        exact ihRight (ascending_cons.1 parts.2.1).2
  exact search set.tree ordered.ascending

section Changes

variable [Std.TransCmp cmp] {set : OrderedSet α cmp} (ordered : set.Ordered) (key : α)
include ordered

theorem inserted_insert : (set.insert key).1 = !has cmp key set.toList :=
  (Tree.insert_eq key set.tree ordered.ascending).1

theorem toList_insert : (set.insert key).2.toList = add cmp key set.toList :=
  (Tree.insert_eq key set.tree ordered.ascending).2

theorem ordered_insert : (set.insert key).2.Ordered := by
  have inserted := inserted_insert ordered key
  have sequence := toList_insert ordered key
  have sized : (set.insert key).2.size =
      if (set.insert key).1 then set.size + 1 else set.size := rfl
  cases found : has cmp key set.toList with
  | true =>
    rw [add, found, if_pos rfl] at sequence
    rw [inserted, found] at sized
    exact ⟨sequence ▸ ordered.ascending, by rw [sequence, sized]; exact ordered.size_eq⟩
  | false =>
    rw [add, found, if_neg Bool.false_ne_true] at sequence
    rw [inserted, found] at sized
    refine ⟨sequence ▸ ascending_insert ordered.ascending, ?_⟩
    rw [sequence, sized, length_insert found, ← ordered.size_eq]
    rfl

theorem removed_erase : (set.erase key).1 = has cmp key set.toList :=
  (Tree.erase_eq key set.tree ordered.ascending).1

theorem toList_erase : (set.erase key).2.toList = Sequence.erase cmp key set.toList :=
  (Tree.erase_eq key set.tree ordered.ascending).2

theorem ordered_erase : (set.erase key).2.Ordered := by
  have removed := removed_erase ordered key
  have sequence := toList_erase ordered key
  have sized : (set.erase key).2.size =
      if (set.erase key).1 then set.size - 1 else set.size := rfl
  refine ⟨sequence ▸ ascending_erase ordered.ascending, ?_⟩
  cases found : has cmp key set.toList with
  | true =>
    have shorter := length_erase ordered.ascending found
    rw [sequence, sized, removed, found, if_pos rfl, ordered.size_eq]
    omega
  | false =>
    rw [sequence, sized, removed, found, erase_eq_self found]
    exact ordered.size_eq

end Changes

theorem firstDisorder?_eq_none [Std.TransCmp cmp] {keys : List α} :
    firstDisorder? cmp keys = none ↔ Ascending cmp keys := by
  induction keys with
  | nil => simp [firstDisorder?, Ascending]
  | cons first rest ih =>
    cases rest with
    | nil => simp [firstDisorder?, Ascending]
    | cons second rest =>
      rw [firstDisorder?, ascending_cons]
      constructor
      · intro none
        split at none
        · rename_i below
          have ascending := ih.1 (Option.map_eq_none_iff.1 none)
          refine ⟨fun high member => ?_, ascending⟩
          rcases List.mem_cons.1 member with rfl | member
          · exact below
          · exact Std.TransCmp.lt_trans below ((ascending_cons.1 ascending).1 high member)
        · cases none
      · rintro ⟨below, ascending⟩
        rw [if_pos (below second (List.mem_cons_self ..)), ih.2 ascending]
        rfl

theorem ofSorted_eq {keys : List α} {set : OrderedSet α cmp} (built : ofSorted keys = .ok set) :
    firstDisorder? cmp keys = none ∧ set.toList = keys ∧ set.size = keys.length := by
  unfold ofSorted at built
  split at built
  · cases built
  · rename_i ordered
    cases built
    have listed := (Tree.build_eq keys.length keys (Nat.le_refl _)).1
    rw [List.take_length] at listed
    exact ⟨ordered, listed, rfl⟩

theorem ofSorted_ok [Std.TransCmp cmp] {keys : List α} {set : OrderedSet α cmp}
    (built : ofSorted keys = .ok set) : set.Ordered ∧ set.toList = keys := by
  obtain ⟨ordered, rfl, counted⟩ := ofSorted_eq built
  exact ⟨⟨firstDisorder?_eq_none.1 ordered, counted⟩, rfl⟩

theorem ofSorted_of [Std.TransCmp cmp] {keys : List α} (ascending : Ascending cmp keys) :
    ∃ set : OrderedSet α cmp, ofSorted keys = .ok set := by
  rw [ofSorted, firstDisorder?_eq_none.2 ascending]
  exact ⟨_, rfl⟩

end OrderedSet

end AttributeIndex
