namespace AttributeIndex

/-- A binary tree; `balance` stores the height of the right side less that of the left. -/
inductive Tree (α : Type)
  | leaf
  | node (left : Tree α) (key : α) (balance : Int) (right : Tree α)
  deriving DecidableEq, Repr

namespace Tree

variable {α : Type}

instance : Inhabited (Tree α) :=
  ⟨leaf⟩

def toList : Tree α → List α
  | leaf => []
  | node left key _ right => left.toList ++ key :: right.toList

def size : Tree α → Nat
  | leaf => 0
  | node left _ _ right => left.size + 1 + right.size

def height : Tree α → Nat
  | leaf => 0
  | node left _ _ right => 1 + max left.height right.height

def balance : Tree α → Int
  | leaf => 0
  | node _ _ balance _ => balance

def preorder : Tree α → List (α × Int)
  | leaf => []
  | node left key balance right => (key, balance) :: left.preorder ++ right.preorder

def first? : Tree α → Option α
  | leaf => none
  | node leaf key _ _ => some key
  | node left _ _ _ => left.first?

def last? : Tree α → Option α
  | leaf => none
  | node _ key _ leaf => some key
  | node _ _ _ right => right.last?

/-! ## Rotations -/

def rotateLeft : Tree α → Tree α
  | node left key balance (node inner pivot pivotBalance outer) =>
    let lowered := balance - 1 - max pivotBalance 0
    node (node left key lowered inner) pivot (pivotBalance - 1 + min lowered 0) outer
  | tree => tree

def rotateRight : Tree α → Tree α
  | node (node outer pivot pivotBalance inner) key balance right =>
    let raised := balance + 1 - min pivotBalance 0
    node outer pivot (pivotBalance + 1 + max raised 0) (node inner key raised right)
  | tree => tree

/-- Evens out a root whose sides differ by two. A taller side that leans inward is first turned
outward. -/
def rebalance : Tree α → Tree α
  | leaf => leaf
  | node left key balance right =>
    if balance < -1 then
      rotateRight (node (if 0 < left.balance then left.rotateLeft else left) key balance right)
    else if 1 < balance then
      rotateLeft (node left key balance (if right.balance < 0 then right.rotateRight else right))
    else node left key balance right

@[simp]
theorem toList_rotateLeft (tree : Tree α) : tree.rotateLeft.toList = tree.toList := by
  unfold rotateLeft
  split <;> simp [toList]

@[simp]
theorem toList_rotateRight (tree : Tree α) : tree.rotateRight.toList = tree.toList := by
  unfold rotateRight
  split <;> simp [toList]

@[simp]
theorem toList_rebalance (tree : Tree α) : tree.rebalance.toList = tree.toList := by
  cases tree with
  | leaf => rfl
  | node left key balance right =>
    simp only [rebalance]
    split
    · split <;> simp [toList]
    · split
      · split <;> simp [toList]
      · rfl

@[simp]
theorem length_toList (tree : Tree α) : tree.toList.length = tree.size := by
  induction tree with
  | leaf => rfl
  | node left key balance right ihLeft ihRight =>
    simp [toList, size, ihLeft, ihRight]
    omega

end Tree

end AttributeIndex
