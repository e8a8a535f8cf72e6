import AttributeIndex.Proofs.OrderedSet.Balance

namespace AttributeIndex

namespace Tree.Guarded

variable {α : Type}

def keep (balance : Int) : Option Int :=
  if -2 ≤ balance ∧ balance ≤ 2 then some balance else none

def rotateLeft : Tree α → Option (Tree α)
  | node left key balance (node inner pivot pivotBalance outer) => do
    let lowered ← keep ((← keep (balance - 1)) - max pivotBalance 0)
    let raised ← keep ((← keep (pivotBalance - 1)) + min lowered 0)
    return node (node left key lowered inner) pivot raised outer
  | tree => some tree

def rotateRight : Tree α → Option (Tree α)
  | node (node outer pivot pivotBalance inner) key balance right => do
    let raised ← keep ((← keep (balance + 1)) - min pivotBalance 0)
    let lowered ← keep ((← keep (pivotBalance + 1)) + max raised 0)
    return node outer pivot lowered (node inner key raised right)
  | tree => some tree

def rebalance : Tree α → Option (Tree α)
  | leaf => some leaf
  | node left key balance right =>
    if balance < -1 then do
      let left ← if 0 < left.balance then rotateLeft left else some left
      rotateRight (node left key balance right)
    else if 1 < balance then do
      let right ← if right.balance < 0 then rotateRight right else some right
      rotateLeft (node left key balance right)
    else some (node left key balance right)

def afterGrowth (inserted grew : Bool) (tree : Tree α) : Option (Insertion α) :=
  if !grew then some ⟨tree, inserted, false⟩
  else if tree.balance = 0 then some ⟨tree, inserted, false⟩
  else if tree.balance = -1 ∨ tree.balance = 1 then some ⟨tree, inserted, true⟩
  else do return ⟨← rebalance tree, inserted, false⟩

def insert (cmp : α → α → Ordering) (key : α) : Tree α → Option (Insertion α)
  | leaf => some ⟨node leaf key 0 leaf, true, true⟩
  | node left root balance right =>
    match cmp key root with
    | .eq => some ⟨node left root balance right, false, false⟩
    | .lt => do
      let lower ← insert cmp key left
      let balance ← if lower.grew then keep (balance - 1) else some balance
      afterGrowth lower.inserted lower.grew (node lower.tree root balance right)
    | .gt => do
      let upper ← insert cmp key right
      let balance ← if upper.grew then keep (balance + 1) else some balance
      afterGrowth upper.inserted upper.grew (node left root balance upper.tree)

def afterShrinkage (tree : Tree α) : Option (Tree α × Bool) :=
  if tree.balance = 0 then some (tree, true)
  else if tree.balance = -1 ∨ tree.balance = 1 then some (tree, false)
  else do
    let tree ← rebalance tree
    return (tree, tree.balance == 0)

def takeFirst : Tree α → α → Int → Tree α → Option (α × Tree α × Bool)
  | leaf, key, _, right => some (key, right, true)
  | node left root rootBalance inner, key, balance, right => do
    match ← takeFirst left root rootBalance inner with
    | (first, left, false) => return (first, node left key balance right, false)
    | (first, left, true) =>
      return (first, ← afterShrinkage (node left key (← keep (balance + 1)) right))

def withoutRoot : Tree α → Int → Tree α → Option (Tree α × Bool)
  | leaf, _, right => some (right, true)
  | left, _, leaf => some (left, true)
  | left, balance, node inner root rootBalance outer => do
    match ← takeFirst inner root rootBalance outer with
    | (first, right, false) => return (node left first balance right, false)
    | (first, right, true) => afterShrinkage (node left first (← keep (balance - 1)) right)

def erase (cmp : α → α → Ordering) (key : α) : Tree α → Option (Removal α)
  | leaf => some ⟨leaf, false, false⟩
  | node left root balance right =>
    match cmp key root with
    | .eq => do
      let (tree, shrunk) ← withoutRoot left balance right
      return ⟨tree, true, shrunk⟩
    | .lt => do
      let lower ← erase cmp key left
      if lower.shrunk then
        let (tree, shrunk) ← afterShrinkage (node lower.tree root (← keep (balance + 1)) right)
        return ⟨tree, lower.removed, shrunk⟩
      else return ⟨node lower.tree root balance right, lower.removed, false⟩
    | .gt => do
      let upper ← erase cmp key right
      if upper.shrunk then
        let (tree, shrunk) ← afterShrinkage (node left root (← keep (balance - 1)) upper.tree)
        return ⟨tree, upper.removed, shrunk⟩
      else return ⟨node left root balance upper.tree, upper.removed, false⟩

def build (count : Nat) (keys : List α) : Option (Tree α × Nat × List α) :=
  if count = 0 then some (leaf, 0, keys)
  else do
    match ← build (count / 2) keys with
    | (left, leftHeight, []) => return (left, leftHeight, [])
    | (left, leftHeight, key :: keys) =>
      let (right, rightHeight, keys) ← build (count - count / 2 - 1) keys
      return (node left key (← keep ((rightHeight : Int) - leftHeight)) right,
        1 + max leftHeight rightHeight, keys)
termination_by count
decreasing_by all_goals omega

/-! ## Trees -/

theorem keep_eq {balance : Int} (low : -2 ≤ balance) (high : balance ≤ 2) :
    keep balance = some balance :=
  if_pos ⟨low, high⟩

def Tilted : Tree α → Prop
  | leaf => True
  | node left _ balance right =>
    balance = right.height - left.height ∧ -2 ≤ balance ∧ balance ≤ 2 ∧
      left.Balanced ∧ right.Balanced

theorem rebalance_eq {tree : Tree α} (tilted : Tilted tree) :
    rebalance tree = some tree.rebalance := by
  rcases tree with _ | ⟨left, key, balance, right⟩
  · rfl
  obtain ⟨exact, low, high, leftBalanced, rightBalanced⟩ := tilted
  obtain rfl | rfl | ⟨low, high⟩ : balance = -2 ∨ balance = 2 ∨ -1 ≤ balance ∧ balance ≤ 1 := by omega
  · rcases left with _ | ⟨outer, pivot, pivotBalance, inner⟩
    · simp only [height] at exact
      omega
    obtain ⟨pivotExact, pivotLow, pivotHigh, -, innerBalanced⟩ := leftBalanced
    obtain rfl | rfl | rfl : pivotBalance = -1 ∨ pivotBalance = 0 ∨ pivotBalance = 1 := by omega
    · rfl
    · rfl
    · rcases inner with _ | ⟨lower, root, rootBalance, upper⟩
      · simp only [height] at pivotExact
        omega
      obtain ⟨-, rootLow, rootHigh, -, -⟩ := innerBalanced
      obtain rfl | rfl | rfl : rootBalance = -1 ∨ rootBalance = 0 ∨ rootBalance = 1 := by omega
      all_goals rfl
  · rcases right with _ | ⟨inner, pivot, pivotBalance, outer⟩
    · simp only [height] at exact
      omega
    obtain ⟨pivotExact, pivotLow, pivotHigh, innerBalanced, -⟩ := rightBalanced
    obtain rfl | rfl | rfl : pivotBalance = 1 ∨ pivotBalance = 0 ∨ pivotBalance = -1 := by omega
    · rfl
    · rfl
    · rcases inner with _ | ⟨lower, root, rootBalance, upper⟩
      · simp only [height] at pivotExact
        omega
      obtain ⟨-, rootLow, rootHigh, -, -⟩ := innerBalanced
      obtain rfl | rfl | rfl : rootBalance = -1 ∨ rootBalance = 0 ∨ rootBalance = 1 := by omega
      all_goals rfl
  · rw [rebalance, Tree.rebalance, if_neg (by omega), if_neg (by omega), if_neg (by omega),
      if_neg (by omega)]

theorem afterGrowth_eq (inserted grew : Bool) {tree : Tree α} (tilted : Tilted tree) :
    afterGrowth inserted grew tree = some (tree.afterGrowth inserted grew) := by
  simp only [afterGrowth, Tree.afterGrowth, rebalance_eq tilted]
  split
  · rfl
  · split
    · rfl
    · split <;> rfl

theorem bind_keep_if {β : Type} {grew : Bool} {moved balance : Int} {next : Int → Option β}
    (low : -2 ≤ if grew then moved else balance) (high : (if grew then moved else balance) ≤ 2) :
    (if grew then (keep moved).bind next else next balance) =
      next (if grew then moved else balance) := by
  cases grew with
  | false => rfl
  | true => exact congrArg (Option.bind · next) (keep_eq low high)

theorem tilted_of_grown_left {left right : Tree α} {root : α} {balance : Int} {after : Insertion α}
    (balanced : (node left root balance right).Balanced) (grown : Grown left after) :
    Tilted (node after.tree root (if after.grew then balance - 1 else balance) right) := by
  obtain ⟨exact, low, high, -, rightBalanced⟩ := balanced
  have taller := grown.height_eq
  refine ⟨?_, ?_, ?_, grown.balanced, rightBalanced⟩ <;> split at taller <;> simp [*] <;> omega

theorem tilted_of_grown_right {left right : Tree α} {root : α} {balance : Int} {after : Insertion α}
    (balanced : (node left root balance right).Balanced) (grown : Grown right after) :
    Tilted (node left root (if after.grew then balance + 1 else balance) after.tree) := by
  obtain ⟨exact, low, high, leftBalanced, -⟩ := balanced
  have taller := grown.height_eq
  refine ⟨?_, ?_, ?_, leftBalanced, grown.balanced⟩ <;> split at taller <;> simp [*] <;> omega

theorem insert_eq (cmp : α → α → Ordering) (key : α) {tree : Tree α} (balanced : tree.Balanced) :
    insert cmp key tree = some (tree.insert cmp key) := by
  induction tree with
  | leaf => rfl
  | node left root balance right ihLeft ihRight =>
    obtain ⟨-, -, -, leftBalanced, rightBalanced⟩ := id balanced
    rw [insert, Tree.insert]
    cases cmp key root with
    | eq => rfl
    | lt =>
      have tilted := tilted_of_grown_left balanced (insert_grown cmp key leftBalanced)
      simp only [ihLeft leftBalanced, Option.bind_eq_bind, Option.bind_some]
      exact (bind_keep_if tilted.2.1 tilted.2.2.1).trans (afterGrowth_eq _ _ tilted)
    | gt =>
      have tilted := tilted_of_grown_right balanced (insert_grown cmp key rightBalanced)
      simp only [ihRight rightBalanced, Option.bind_eq_bind, Option.bind_some]
      exact (bind_keep_if tilted.2.1 tilted.2.2.1).trans (afterGrowth_eq _ _ tilted)

theorem afterShrinkage_eq {tree : Tree α} (tilted : Tilted tree) :
    afterShrinkage tree = some tree.afterShrinkage := by
  simp only [afterShrinkage, Tree.afterShrinkage, rebalance_eq tilted]
  split
  · rfl
  · split <;> rfl

theorem tilted_left {left right shorter : Tree α} {root : α} {balance : Int} (key : α)
    (balanced : (node left root balance right).Balanced) (shrunk : Shrunk left (shorter, true)) :
    Tilted (node shorter key (balance + 1) right) := by
  obtain ⟨exact, low, high, -, rightBalanced⟩ := balanced
  obtain ⟨shorterBalanced, lower⟩ := shrunk
  simp only [if_true] at lower
  exact ⟨by omega, by omega, by omega, shorterBalanced, rightBalanced⟩

theorem tilted_right {left right shorter : Tree α} {root : α} {balance : Int} (key : α)
    (balanced : (node left root balance right).Balanced) (shrunk : Shrunk right (shorter, true)) :
    Tilted (node left key (balance - 1) shorter) := by
  obtain ⟨exact, low, high, leftBalanced, -⟩ := balanced
  obtain ⟨shorterBalanced, lower⟩ := shrunk
  simp only [if_true] at lower
  exact ⟨by omega, by omega, by omega, leftBalanced, shorterBalanced⟩

theorem takeFirst_eq {left right : Tree α} {key : α} {balance : Int}
    (balanced : (node left key balance right).Balanced) :
    takeFirst left key balance right = some (Tree.takeFirst left key balance right) := by
  induction left generalizing key balance right with
  | leaf => rfl
  | node left root rootBalance inner ih _ =>
    obtain ⟨-, -, -, leftBalanced, -⟩ := id balanced
    have shrunk := takeFirst_shrunk leftBalanced
    rw [takeFirst, Tree.takeFirst, ih leftBalanced]
    revert shrunk
    rcases Tree.takeFirst left root rootBalance inner with ⟨first, shorter, _ | _⟩
    · exact fun _ => rfl
    · intro shrunk
      have tilted := tilted_left key balanced shrunk
      simp [keep_eq tilted.2.1 tilted.2.2.1, afterShrinkage_eq tilted]

theorem withoutRoot_eq {left right : Tree α} {root : α} {balance : Int}
    (balanced : (node left root balance right).Balanced) :
    withoutRoot left balance right = some (Tree.withoutRoot left balance right) := by
  rcases left with _ | ⟨_, _, _, _⟩
  · rfl
  rcases right with _ | ⟨inner, next, nextBalance, outer⟩
  · rfl
  obtain ⟨-, -, -, -, rightBalanced⟩ := id balanced
  have shrunk := takeFirst_shrunk rightBalanced
  simp only [withoutRoot, Tree.withoutRoot, takeFirst_eq rightBalanced]
  revert shrunk
  rcases Tree.takeFirst inner next nextBalance outer with ⟨first, shorter, _ | _⟩
  · exact fun _ => rfl
  · intro shrunk
    have tilted := tilted_right first balanced shrunk
    simp [keep_eq tilted.2.1 tilted.2.2.1, afterShrinkage_eq tilted]

theorem erase_eq (cmp : α → α → Ordering) (key : α) {tree : Tree α} (balanced : tree.Balanced) :
    erase cmp key tree = some (tree.erase cmp key) := by
  induction tree with
  | leaf => rfl
  | node left root balance right ihLeft ihRight =>
    obtain ⟨-, -, -, leftBalanced, rightBalanced⟩ := id balanced
    rw [erase, Tree.erase]
    cases cmp key root with
    | eq => simp [withoutRoot_eq balanced]
    | lt =>
      have shrunk := erase_shrunk cmp key leftBalanced
      cases reported : (left.erase cmp key).shrunk with
      | false => simp [ihLeft leftBalanced, reported]
      | true =>
        rw [reported] at shrunk
        have tilted := tilted_left root balanced shrunk
        simp [ihLeft leftBalanced, reported, keep_eq tilted.2.1 tilted.2.2.1, afterShrinkage_eq tilted]
    | gt =>
      have shrunk := erase_shrunk cmp key rightBalanced
      cases reported : (right.erase cmp key).shrunk with
      | false => simp [ihRight rightBalanced, reported]
      | true =>
        rw [reported] at shrunk
        have tilted := tilted_right root balanced shrunk
        simp [ihRight rightBalanced, reported, keep_eq tilted.2.1 tilted.2.2.1,
          afterShrinkage_eq tilted]

theorem build_eq (count : Nat) (keys : List α) (enough : count ≤ keys.length) :
    build count keys = some (Tree.build count keys) := by
  induction count using Nat.strongRecOn generalizing keys with
  | ind count ih =>
    rcases Nat.eq_zero_or_pos count with rfl | positive
    · rw [build, Tree.build, if_pos rfl, if_pos rfl]
    · obtain ⟨key, rest, more, left, built⟩ := build_node positive enough
      obtain ⟨-, -, leftHigh⟩ := build_balanced (count / 2) keys (by omega)
      obtain ⟨-, -, rightHigh⟩ := build_balanced (count - count / 2 - 1) rest more
      obtain ⟨-, notHigher, notLower⟩ := size_half count positive
      have low : -2 ≤ ((Tree.build (count - count / 2 - 1) rest).2.1 : Int) -
        (Tree.build (count / 2) keys).2.1 := by omega
      have high : ((Tree.build (count - count / 2 - 1) rest).2.1 : Int) -
        (Tree.build (count / 2) keys).2.1 ≤ 2 := by omega
      rw [build, if_neg (by omega), ih (count / 2) (by omega) keys (by omega), left, built]
      simp only [Option.bind_eq_bind, Option.bind_some,
        ih (count - count / 2 - 1) (by omega) rest more]
      rw [keep_eq low high]
      rfl

end Tree.Guarded

/-! ## Sets -/

namespace OrderedSet

open Sequence

variable {α : Type} {cmp : α → α → Ordering}

inductive Change (α : Type)
  | insert (key : α)
  | erase (key : α)
  | clear
  | replace (keys : List α)

def change (set : OrderedSet α cmp) : Change α → OrderedSet α cmp
  | .insert key => (set.insert key).2
  | .erase key => (set.erase key).2
  | .clear => empty
  | .replace keys =>
    match ofSorted keys with
    | .ok replacement => replacement
    | .error _ => set

/-- A change that gives up when a balance leaves its range. -/
def guardedChange (set : OrderedSet α cmp) : Change α → Option (OrderedSet α cmp)
  | .insert key => do
    let change ← Tree.Guarded.insert cmp key set.tree
    return ⟨change.tree, if change.inserted then set.size + 1 else set.size⟩
  | .erase key => do
    let change ← Tree.Guarded.erase cmp key set.tree
    return ⟨change.tree, if change.removed then set.size - 1 else set.size⟩
  | .clear => some empty
  | .replace keys =>
    match firstDisorder? cmp keys with
    | some _ => some set
    | none => do return ⟨(← Tree.Guarded.build keys.length keys).1, keys.length⟩

def changeAll (set : OrderedSet α cmp) (changes : List (Change α)) : OrderedSet α cmp :=
  changes.foldl change set

structure Sound (set : OrderedSet α cmp) : Prop extends set.Ordered where
  balanced : set.tree.Balanced

variable {set : OrderedSet α cmp}

theorem sound_empty : (empty : OrderedSet α cmp).Sound :=
  ⟨ordered_empty, trivial⟩

theorem Sound.change [Std.TransCmp cmp] (sound : set.Sound) (change : Change α) :
    (set.change change).Sound := by
  cases change with
  | insert key =>
    exact ⟨ordered_insert sound.toOrdered key, (Tree.insert_grown cmp key sound.balanced).balanced⟩
  | erase key =>
    exact ⟨ordered_erase sound.toOrdered key, (Tree.erase_shrunk cmp key sound.balanced).balanced⟩
  | clear => exact sound_empty
  | replace keys =>
    simp only [OrderedSet.change]
    split
    · rename_i replacement built
      refine ⟨(ofSorted_ok built).1, ?_⟩
      unfold ofSorted at built
      split at built
      · cases built
      · cases built
        exact (Tree.build_balanced keys.length keys (Nat.le_refl _)).1
    · exact sound

theorem Sound.changeAll [Std.TransCmp cmp] (sound : set.Sound) (changes : List (Change α)) :
    (set.changeAll changes).Sound := by
  induction changes generalizing set with
  | nil => exact sound
  | cons first rest ih => exact ih (sound.change first)

theorem Sound.guardedChange_eq (sound : set.Sound) (change : Change α) :
    set.guardedChange change = some (set.change change) := by
  cases change with
  | insert key =>
    simp [guardedChange, OrderedSet.change, OrderedSet.insert,
      Tree.Guarded.insert_eq cmp key sound.balanced]
  | erase key =>
    simp [guardedChange, OrderedSet.change, OrderedSet.erase,
      Tree.Guarded.erase_eq cmp key sound.balanced]
  | clear => rfl
  | replace keys =>
    simp only [guardedChange, OrderedSet.change, ofSorted]
    cases firstDisorder? cmp keys with
    | some index => rfl
    | none => simp [Tree.Guarded.build_eq keys.length keys (Nat.le_refl _)]

/-- After any changes the sequence ascends, the stored balances are the differences of the heights and
at most one, and the size is the number of nodes; and no balance leaves the range from -2 to 2 in the
course of the next change. -/
theorem changeAll_balanced [Std.TransCmp cmp] (changes : List (Change α)) :
    let set : OrderedSet α cmp := empty.changeAll changes
    Ascending cmp set.toList ∧ set.tree.Balanced ∧ set.size = set.tree.size ∧
      ∀ change, set.guardedChange change = some (set.change change) := by
  intro set
  have sound : set.Sound := sound_empty.changeAll changes
  refine ⟨sound.ascending, sound.balanced, ?_, sound.guardedChange_eq⟩
  rw [sound.size_eq]
  exact set.tree.length_toList

theorem changeAll_balanced_erase :
    Std.TransCmp (compare : Nat → Nat → Ordering) ∧
      let set : OrderedSet Nat compare :=
        empty.changeAll [.replace [2, 1], .insert 5, .insert 2, .insert 7, .insert 1, .insert 3,
          .insert 6, .insert 4, .erase 6]
      set.tree.preorder = [(3, 0), (2, -1), (1, 0), (5, 0), (4, 0), (7, 0)] ∧ set.tree.Balanced :=
  ⟨inferInstance, by decide, (changeAll_balanced _).2.1⟩

end OrderedSet

end AttributeIndex
