import AttributeIndex.Action
import AttributeIndex.Error

namespace AttributeIndex

class Cursor (κ : Type) (α : outParam Type) where
  isAvailable : κ → Bool
  before : α → Action κ Error Unit
  after : α → Action κ Error Unit
  beforeFirst : Action κ Error Unit
  afterLast : Action κ Error Unit
  first : Action κ Error Bool
  last : Action κ Error Bool
  previous : Action κ Error Bool
  next : Action κ Error Bool
  get : κ → Except Error α
  /-- Whether `get` answers with storage that the next step overwrites. -/
  isElementReused : κ → Bool
  close : Action κ Error Unit
  isClosed : κ → Bool
  extent : κ → Nat

namespace Cursor

variable {κ α : Type} [Cursor κ α]

def advance (cursor : κ) : Option (Except Error α) × κ :=
  match (Cursor.next : Action κ Error Bool) cursor with
  | (.ok true, cursor) => (some (Cursor.get cursor), cursor)
  | (.ok false, cursor) => (none, cursor)
  | (.error failure, cursor) => (some (.error failure), cursor)

def items : Nat → κ → List (Except Error α) × κ
  | 0, cursor => ([], cursor)
  | limit + 1, cursor =>
    match advance cursor with
    | (none, cursor) => ([], cursor)
    | (some (.error failure), cursor) => ([.error failure], cursor)
    | (some (.ok element), cursor) =>
      let (rest, cursor) := items limit cursor
      (.ok element :: rest, cursor)

def rest (cursor : κ) : List (Except Error α) × κ :=
  items (Cursor.extent cursor + 1) cursor

end Cursor

end AttributeIndex
