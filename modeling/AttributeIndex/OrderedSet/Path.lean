import AttributeIndex.OrderedSet.Basic

namespace AttributeIndex

inductive Side
  | left
  | right
  deriving DecidableEq, Repr

namespace Side

def opposite : Side → Side
  | left => right
  | right => left

end Side

abbrev Path := List Side

namespace Path

def beforeLast? (side : Side) (path : Path) : Option Path :=
  match path.reverse.dropWhile (· ≠ side) with
  | [] => none
  | _ :: above => some above.reverse

end Path

namespace Tree

variable {α : Type}

def child (side : Side) : Tree α → Tree α
  | leaf => leaf
  | node left _ _ right =>
    match side with
    | .left => left
    | .right => right

def descend : Tree α → Path → Tree α
  | tree, [] => tree
  | tree, side :: path => (tree.child side).descend path

def root? : Tree α → Option α
  | leaf => none
  | node _ key _ _ => some key

def keyAt? (tree : Tree α) (path : Path) : Option α :=
  (tree.descend path).root?

def outermost? (side : Side) : Tree α → Option Path
  | leaf => none
  | node left _ _ right =>
    match side with
    | .left => some ((left.outermost? side).elim [] (Side.left :: ·))
    | .right => some ((right.outermost? side).elim [] (Side.right :: ·))

/-- The neighbour of a node on a side: the nearest node of the subtree there, or the last ancestor
from which the path turned away from that side. -/
def neighbour? (side : Side) (tree : Tree α) (path : Path) : Option Path :=
  match tree.descend path with
  | leaf => none
  | node left key balance right =>
    match ((node left key balance right).child side).outermost? side.opposite with
    | some inner => some (path ++ side :: inner)
    | none => path.beforeLast? side.opposite

def step (side : Side) (tree : Tree α) (path : Path) : Bool × Path :=
  match tree.neighbour? side path with
  | some next => (true, next)
  | none => (false, path)

/-- The tightest node that meets a condition. The condition holds on one side of the order, and
`toward` is the direction in which to look for a tighter one. -/
def bound? (meets : α → Bool) (toward : Side) : Tree α → Option Path
  | leaf => none
  | node left key _ right =>
    match toward, meets key with
    | .left, true => some ((left.bound? meets toward).elim [] (Side.left :: ·))
    | .left, false => (right.bound? meets toward).map (Side.right :: ·)
    | .right, true => some ((right.bound? meets toward).elim [] (Side.right :: ·))
    | .right, false => (left.bound? meets toward).map (Side.left :: ·)

end Tree

namespace OrderedSet

variable {α : Type} {cmp : α → α → Ordering}

def rootPath? (set : OrderedSet α cmp) : Option Path :=
  set.tree.root?.map fun _ => []

def keyAt? (set : OrderedSet α cmp) (path : Path) : Option α :=
  set.tree.keyAt? path

def firstPath? (set : OrderedSet α cmp) : Option Path :=
  set.tree.outermost? .left

def lastPath? (set : OrderedSet α cmp) : Option Path :=
  set.tree.outermost? .right

def successor? (set : OrderedSet α cmp) (path : Path) : Option Path :=
  set.tree.neighbour? .right path

def predecessor? (set : OrderedSet α cmp) (path : Path) : Option Path :=
  set.tree.neighbour? .left path

def ceiling? (set : OrderedSet α cmp) (target : α) : Option Path :=
  set.tree.bound? (fun key => cmp target key != .gt) .left

def above? (set : OrderedSet α cmp) (target : α) : Option Path :=
  set.tree.bound? (fun key => cmp target key == .lt) .left

def floor? (set : OrderedSet α cmp) (target : α) : Option Path :=
  set.tree.bound? (fun key => cmp target key != .lt) .right

def below? (set : OrderedSet α cmp) (target : α) : Option Path :=
  set.tree.bound? (fun key => cmp target key == .gt) .right

end OrderedSet

end AttributeIndex
