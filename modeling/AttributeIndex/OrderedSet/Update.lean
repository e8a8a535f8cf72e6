import AttributeIndex.OrderedSet.Tree

namespace AttributeIndex.Tree

variable {α : Type}

/-- A tree after an insertion, whether a key went in, and whether the tree grew by a level. -/
structure Insertion (α : Type) where
  tree : Tree α
  inserted : Bool
  grew : Bool

/-- Settles a root after one child may have grown. A rotation takes the new level back. -/
def afterGrowth (inserted grew : Bool) (tree : Tree α) : Insertion α :=
  if !grew then ⟨tree, inserted, false⟩
  else if tree.balance = 0 then ⟨tree, inserted, false⟩
  else if tree.balance = -1 ∨ tree.balance = 1 then ⟨tree, inserted, true⟩
  else ⟨tree.rebalance, inserted, false⟩

def insert (cmp : α → α → Ordering) (key : α) : Tree α → Insertion α
  | leaf => ⟨node leaf key 0 leaf, true, true⟩
  | node left root balance right =>
    match cmp key root with
    | .eq => ⟨node left root balance right, false, false⟩
    | .lt =>
      let lower := insert cmp key left
      afterGrowth lower.inserted lower.grew
        (node lower.tree root (if lower.grew then balance - 1 else balance) right)
    | .gt =>
      let upper := insert cmp key right
      afterGrowth upper.inserted upper.grew
        (node left root (if upper.grew then balance + 1 else balance) upper.tree)

structure Removal (α : Type) where
  tree : Tree α
  removed : Bool
  shrunk : Bool

def afterShrinkage (tree : Tree α) : Tree α × Bool :=
  if tree.balance = 0 then (tree, true)
  else if tree.balance = -1 ∨ tree.balance = 1 then (tree, false)
  else (tree.rebalance, tree.rebalance.balance == 0)

def takeFirst : Tree α → α → Int → Tree α → α × Tree α × Bool
  | leaf, key, _, right => (key, right, true)
  | node left root rootBalance inner, key, balance, right =>
    match takeFirst left root rootBalance inner with
    | (first, left, false) => (first, node left key balance right, false)
    | (first, left, true) => (first, afterShrinkage (node left key (balance + 1) right))

def withoutRoot : Tree α → Int → Tree α → Tree α × Bool
  | leaf, _, right => (right, true)
  | left, _, leaf => (left, true)
  | left, balance, node inner root rootBalance outer =>
    match takeFirst inner root rootBalance outer with
    | (first, right, false) => (node left first balance right, false)
    | (first, right, true) => afterShrinkage (node left first (balance - 1) right)

def erase (cmp : α → α → Ordering) (key : α) : Tree α → Removal α
  | leaf => ⟨leaf, false, false⟩
  | node left root balance right =>
    match cmp key root with
    | .eq =>
      let (tree, shrunk) := withoutRoot left balance right
      ⟨tree, true, shrunk⟩
    | .lt =>
      let lower := erase cmp key left
      if lower.shrunk then
        let (tree, shrunk) := afterShrinkage (node lower.tree root (balance + 1) right)
        ⟨tree, lower.removed, shrunk⟩
      else ⟨node lower.tree root balance right, lower.removed, false⟩
    | .gt =>
      let upper := erase cmp key right
      if upper.shrunk then
        let (tree, shrunk) := afterShrinkage (node left root (balance - 1) upper.tree)
        ⟨tree, upper.removed, shrunk⟩
      else ⟨node left root balance upper.tree, upper.removed, false⟩

/-- Builds a tree of the next `count` keys; answers with its height and the keys left over. The left
side gets half of them, rounded down, and the root the one after. -/
def build (count : Nat) (keys : List α) : Tree α × Nat × List α :=
  if count = 0 then (leaf, 0, keys)
  else
    match build (count / 2) keys with
    | (left, leftHeight, []) => (left, leftHeight, [])
    | (left, leftHeight, key :: keys) =>
      match build (count - count / 2 - 1) keys with
      | (right, rightHeight, keys) =>
        (node left key ((rightHeight : Int) - leftHeight) right,
          1 + max leftHeight rightHeight, keys)
termination_by count
decreasing_by all_goals omega

end AttributeIndex.Tree
