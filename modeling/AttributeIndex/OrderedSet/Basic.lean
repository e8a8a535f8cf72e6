import AttributeIndex.Error
import AttributeIndex.OrderedSet.Update

namespace AttributeIndex

structure OrderedSet (α : Type) (cmp : α → α → Ordering) where
  tree : Tree α
  size : Nat
  deriving DecidableEq, Repr

namespace OrderedSet

variable {α : Type} {cmp : α → α → Ordering}

def empty : OrderedSet α cmp :=
  ⟨.leaf, 0⟩

instance : Inhabited (OrderedSet α cmp) :=
  ⟨empty⟩

def toList (set : OrderedSet α cmp) : List α :=
  set.tree.toList

def isEmpty (set : OrderedSet α cmp) : Bool :=
  set.size == 0

def first? (set : OrderedSet α cmp) : Option α :=
  set.tree.first?

def last? (set : OrderedSet α cmp) : Option α :=
  set.tree.last?

def find? (set : OrderedSet α cmp) (key : α) : Option α :=
  go set.tree
where
  go : Tree α → Option α
    | .leaf => none
    | .node left root _ right =>
      match cmp key root with
      | .eq => some root
      | .lt => go left
      | .gt => go right

def contains (set : OrderedSet α cmp) (key : α) : Bool :=
  (set.find? key).isSome

def insert (set : OrderedSet α cmp) (key : α) : Bool × OrderedSet α cmp :=
  let change := set.tree.insert cmp key
  (change.inserted, ⟨change.tree, if change.inserted then set.size + 1 else set.size⟩)

def erase (set : OrderedSet α cmp) (key : α) : Bool × OrderedSet α cmp :=
  let change := set.tree.erase cmp key
  (change.removed, ⟨change.tree, if change.removed then set.size - 1 else set.size⟩)

def insertAll (set : OrderedSet α cmp) : List α → List Bool × OrderedSet α cmp
  | [] => ([], set)
  | key :: keys =>
    let (inserted, set) := set.insert key
    let (others, set) := insertAll set keys
    (inserted :: others, set)

def eraseAll (set : OrderedSet α cmp) : List α → List Bool × OrderedSet α cmp
  | [] => ([], set)
  | key :: keys =>
    let (removed, set) := set.erase key
    let (others, set) := eraseAll set keys
    (removed :: others, set)

def ofList (keys : List α) : OrderedSet α cmp :=
  keys.foldl (fun set key => (set.insert key).2) empty

def firstDisorder? (cmp : α → α → Ordering) : List α → Option Nat
  | first :: second :: rest =>
    if cmp first second = .lt then (firstDisorder? cmp (second :: rest)).map (· + 1) else some 0
  | _ => none

def ofSorted (keys : List α) : Except Error (OrderedSet α cmp) :=
  match firstDisorder? cmp keys with
  | some index =>
    .error (.invalidArgument "items"
      ("elements " ++ toString index ++ " and " ++ toString (index + 1) ++
        " are not strictly ascending"))
  | none => .ok ⟨(Tree.build keys.length keys).1, keys.length⟩

end OrderedSet

end AttributeIndex
