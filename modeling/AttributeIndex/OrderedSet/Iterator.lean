import AttributeIndex.OrderedSet.Basic

namespace AttributeIndex.OrderedSet

variable {α : Type} {cmp : α → α → Ordering}

/-- An iteration in progress: keys to come, each with the tree of the keys right after it. -/
structure Iterator (α : Type) where
  pending : List (α × Tree α)
  remaining : Nat

namespace Iterator

def descend : Tree α → List (α × Tree α) → List (α × Tree α)
  | .leaf, pending => pending
  | .node left key _ right, pending => descend left ((key, right) :: pending)

def next? (iterator : Iterator α) : Option (α × Iterator α) :=
  match iterator.pending with
  | [] => none
  | (key, right) :: pending => some (key, ⟨descend right pending, iterator.remaining - 1⟩)

def take : Nat → Iterator α → List α × Iterator α
  | 0, iterator => ([], iterator)
  | limit + 1, iterator =>
    match iterator.next? with
    | none => ([], iterator)
    | some (key, iterator) =>
      let (keys, iterator) := take limit iterator
      (key :: keys, iterator)

end Iterator

def iterator (set : OrderedSet α cmp) : Iterator α :=
  ⟨Iterator.descend set.tree [], set.size⟩

end AttributeIndex.OrderedSet
