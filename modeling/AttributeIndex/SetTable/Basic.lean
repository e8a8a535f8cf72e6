import AttributeIndex.Codec
import AttributeIndex.Lru
import AttributeIndex.Table.Scan

/-!
Tables from keys to sorted sets, over a primary and an overflow table.

A small set stands in its key's slot of the primary table. A set that has grown past the limit has a
record of its own in the overflow table, and the slot holds a redirect to it. Overflow sets in use
are cached; a cached set that was modified is dirty until its record is written.
-/

namespace AttributeIndex

structure Stores (σ : Type) where
  primary : σ
  overflow : σ

namespace Stores

variable {σ ε δ α : Type}

def onPrimary (relate : ε → δ) (call : Action σ ε α) : Action (Stores σ) δ α :=
  Action.on Stores.primary (fun stores primary => { stores with primary }) relate call

def onOverflow (relate : ε → δ) (call : Action σ ε α) : Action (Stores σ) δ α :=
  Action.on Stores.overflow (fun stores overflow => { stores with overflow }) relate call

end Stores

/-- A set in the cache; it is dirty if its record does not hold it yet. -/
structure CachedSet (D : Type) [Ord D] where
  set : OrderedSet D compare
  dirty : Bool

inductive Slot (D : Type) [Ord D]
  | inline (set : OrderedSet D compare)
  | overflow (redirect : Redirect)

structure SetTable (σ D : Type) [Ord D] where
  name : String
  codec : Codec D
  limit : Nat
  stores : Stores σ
  sets : Lru UInt64 (CachedSet D)
  nextId : UInt64
  /-- Whether the header record does not hold the next id yet. -/
  headerDirty : Bool
  count : Nat
  isClosed : Bool

namespace SetTable

variable {σ D α : Type} [Ord D]

/-- The overflow record that holds the next id. -/
def headerId : UInt64 := 0

def recordKey (id : UInt64) : Bytes :=
  Bytes.ofUInt64 id

/-! ## Calls to the stores -/

def onStores (work : Action (Stores σ) Error α) : Action (SetTable σ D) Error α :=
  Action.on stores (fun table stores => { table with stores }) id work

def onPrimary (call : Action σ IoError α) : Action (SetTable σ D) Error α := do
  onStores (Stores.onPrimary (.io (← get).name) call)

def onOverflow (call : Action σ IoError α) : Action (SetTable σ D) Error α := do
  onStores (Stores.onOverflow (.io (← get).name) call)

def requireOpen : Action (SetTable σ D) Error Unit := do
  let table ← get
  if table.isClosed then throw (.closed table.name)

def encodeSet (set : OrderedSet D compare) : Action (SetTable σ D) Error Bytes :=
  Action.query fun table => table.codec.set.encode set

def decodeSet (bytes : Bytes) : Action (SetTable σ D) Error (OrderedSet D compare) :=
  Action.query fun table => table.codec.set.decode bytes

variable [Table σ]

def keyCount (table : SetTable σ D) : Nat :=
  Table.size table.stores.primary

def readSlot (key : Bytes) : Action (SetTable σ D) Error (Option (Slot D)) := do
  match ← onPrimary (Table.get key) with
  | none => return none
  | some bytes =>
    if Redirect.hasForm bytes then
      return some (.overflow (← Action.ofResult (Redirect.decode bytes)))
    else return some (.inline (← decodeSet bytes))

def writeInline (key : Bytes) (set : OrderedSet D compare) : Action (SetTable σ D) Error Unit := do
  let bytes ← encodeSet set
  onPrimary (Table.put key bytes)

/-! ## Overflow records -/

def writeRecord (id : UInt64) (set : OrderedSet D compare) : Action (SetTable σ D) Error Unit := do
  let bytes ← encodeSet set
  onOverflow (Table.put (recordKey id) bytes)

/-- Gives up the cached set used longest ago if the cache is full, after writing it back if it is
dirty. A set that cannot be written back returns to the cache. -/
def makeRoom : Action (SetTable σ D) Error Unit := do
  if (← get).sets.isFull then
    let (evicted, sets) := (← get).sets.evict
    if let some (id, cached) := evicted then
      modify fun table => { table with sets }
      if cached.dirty then
        if let .error failure ← Action.attempt (writeRecord id cached.set) then
          modify fun table => { table with sets := table.sets.insert id cached }
          throw failure

def cacheClean (id : UInt64) (set : OrderedSet D compare) : Action (SetTable σ D) Error Unit :=
  modify fun table => { table with sets := table.sets.insert id ⟨set, false⟩ }

def cacheDirty (id : UInt64) (set : OrderedSet D compare) : Action (SetTable σ D) Error Unit :=
  modify fun table => { table with sets := table.sets.modify id fun _ => ⟨set, true⟩ }

def readRecord (id : UInt64) : Action (SetTable σ D) Error (OrderedSet D compare) := do
  match ← onOverflow (Table.get (recordKey id)) with
  | some bytes => decodeSet bytes
  | none => throw (.notFound ((← get).name ++ " overflow record " ++ toString id.toNat))

def useOverflowSet (id : UInt64) : Action (SetTable σ D) Error (OrderedSet D compare) := do
  unless (← get).sets.contains id do
    let set ← readRecord id
    makeRoom
    cacheClean id set
  modify fun table => { table with sets := table.sets.touch id }
  match (← get).sets.find? id with
  | some cached => return cached.set
  | none => throw (.invalidOperation "overflow set cache")

/-- Moves a set that has outgrown the limit to a record of its own and redirects its slot there. If
the slot cannot be written, the record is removed again. -/
def migrate (key : Bytes) (set : OrderedSet D compare) : Action (SetTable σ D) Error Unit := do
  makeRoom
  let id := (← get).nextId
  writeRecord id set
  modify fun table => { table with nextId := id + 1, headerDirty := true }
  if let .error failure ← Action.attempt (onPrimary (Table.put key (Redirect.mk id).encode)) then
    Action.ignoring (onOverflow (Table.remove (recordKey id)))
    throw failure
  cacheClean id set

/-- Removes an overflow record and then the slot that leads to it. If the slot stays, the cached set
becomes dirty, so that its record is written again. -/
def release (key : Bytes) (id : UInt64) : Action (SetTable σ D) Error Unit := do
  let _ ← onOverflow (Table.remove (recordKey id))
  if let .error failure ← Action.attempt (onPrimary (Table.remove key)) then
    modify fun table =>
      { table with sets := table.sets.modify id fun cached => { cached with dirty := true } }
    throw failure
  modify fun table => { table with sets := table.sets.erase id }

end SetTable

end AttributeIndex
