import AttributeIndex.SetTable.Basic

namespace AttributeIndex.SetTable

variable {σ D : Type} [Ord D] [Table σ]

def lastRecordId : Action σ IoError (Option UInt64) :=
  Table.scanning id do
    if ← Action.relating (fun failure => IoError.failed failure.message) Cursor.last then
      let tuple ← Action.query fun scan : Scan σ =>
        (Cursor.get scan).mapError fun failure => .failed failure.message
      if tuple.key.length = 8 then return some tuple.key.toUInt64
      else throw .badRecordKey
    else return none

def storedSize? (bytes : Bytes) : Option Nat :=
  match bytes.split? 4 with
  | none => none
  | some (number, _) =>
    if 4 + 4 * number.toNat ≤ bytes.length then some number.toNat else none

def storedSet (name : String) (slot : Bytes) : Action σ Error (Option Bytes) := do
  if Redirect.hasForm slot then
    let redirect ← Action.ofResult (Redirect.decode slot)
    Action.relating (.io name) (Table.get (recordKey redirect.recordId))
  else return some slot

/-- Adds up the stored sizes of the sets of the next slots, at most `limit` of them. The state is a
scan of the primary table together with the overflow table. -/
def countFrom (name : String) : (limit : Nat) → Action (Scan σ × σ) Error Nat
  | 0 => return 0
  | limit + 1 => do
    if ← Action.on Prod.fst (fun state scan => (scan, state.2)) id Cursor.next then
      let slot ← Action.query fun (state : Scan σ × σ) => Cursor.get state.1
      let stored? ← Action.on Prod.snd (fun state overflow => (state.1, overflow)) id
        (storedSet name slot.value)
      let rest ← countFrom name limit
      return (stored?.bind storedSize?).getD 0 + rest
    else return 0

/-- The number of elements of all stored sets. Sets that cannot be read count nothing here; they
fail when their key is used. -/
def countStored (name : String) : Action (Stores σ) Error Nat :=
  fun stores =>
    match (Table.beginScan : Action σ IoError Unit) stores.primary with
    | (.error failure, primary) => (.error (.io name failure), { stores with primary })
    | (.ok (), primary) =>
      match countFrom name (Table.size primary + 1) (Scan.start primary, stores.overflow) with
      | (outcome, (scan, overflow)) => (outcome, ⟨scan.table, overflow⟩)

def headerNextId (name : String) : Action (Stores σ) Error UInt64 := do
  match ← Stores.onOverflow (.io name) (Table.get (recordKey headerId)) with
  | none => return headerId + 1
  | some header =>
    Action.ofResult (Error.requireFormat (header.length = 8) "header" "header.len() == 8")
    return header.toUInt64

def openOver (name : String) (codec : Codec D) (limit cacheSize : Nat) :
    Action (Stores σ) Error (SetTable σ D) := do
  Action.ofResult (Error.requireArgument (0 < limit) "duplicate_limit" "duplicate_limit > 0")
  Action.ofResult (Error.requireArgument (0 < cacheSize) "cache_size" "cache_size > 0")
  let announced ← headerNextId name
  let last? ← Stores.onOverflow (.io name) lastRecordId
  let nextId := match last? with
    | some last => max announced (last + 1)
    | none => announced
  let count ← countStored name
  return {
    name, codec, limit, nextId, count
    stores := ← get
    sets := .empty cacheSize
    headerDirty := false
    isClosed := false }

end AttributeIndex.SetTable
