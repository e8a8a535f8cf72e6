import AttributeIndex.Config.Basic
import AttributeIndex.Index.Tables
import AttributeIndex.OrderedSet.Walk
import AttributeIndex.SetTable.Opening
import AttributeIndex.SetTable.Operations

/-!
Indices of one attribute: which entries hold a value, and which values an entry holds.

An index is two set tables that say the same thing in both directions. The forward one leads from an
encoded value to the ids of its entries, the reverse one from an encoded id to encoded values.
-/

namespace AttributeIndex

structure Index (σ V : Type) where
  config : Config
  codec : Codec V
  forward : SetTable σ UInt64
  reverse : SetTable σ Bytes
  isClosed : Bool

namespace Index

variable {σ V α : Type}

def entryKey (id : UInt64) : Bytes :=
  Bytes.ofUInt64 id

def onForward (work : Action (SetTable σ UInt64) Error α) : Action (Index σ V) Error α :=
  Action.on forward (fun index forward => { index with forward }) id work

def onReverse (work : Action (SetTable σ Bytes) Error α) : Action (Index σ V) Error α :=
  Action.on reverse (fun index reverse => { index with reverse }) id work

def requireOpen : Action (Index σ V) Error Unit := do
  let index ← get
  if index.isClosed then throw (.closed ("index '" ++ index.config.attributeId ++ "'"))

def encode (value : V) : Action (Index σ V) Error Bytes :=
  Action.query fun index => index.codec.encode value

def count (index : Index σ V) : Nat :=
  index.forward.count

def tables (index : Index σ V) : Tables σ :=
  ⟨index.forward.stores, index.reverse.stores⟩

def withTables (index : Index σ V) (tables : Tables σ) : Index σ V :=
  { index with
    forward := { index.forward with stores := tables.forward }
    reverse := { index.reverse with stores := tables.reverse } }

variable [Table σ]

def openOver (config : Config) (codec : Codec V) : Action (Tables σ) Error (Index σ V) := do
  Action.ofResult config.validate
  let forward ← Action.on Tables.forward (fun tables forward => { tables with forward }) id
    (SetTable.openOver (config.attributeId ++ ".forward") .uint64 config.duplicateLimit
      config.cacheSize)
  let reverse ← Action.on Tables.reverse (fun tables reverse => { tables with reverse }) id
    (SetTable.openOver (config.attributeId ++ ".reverse") .bytes config.duplicateLimit
      config.cacheSize)
  return { config, codec, forward, reverse, isClosed := false }

/-! ## Reading -/

def lookup (value : V) : Action (Index σ V) Error (OrderedSet.Walk UInt64 compare) := do
  requireOpen
  let key ← encode value
  let ids ← onForward (SetTable.elements key)
  return .start (ids.getD .empty)

def has (value : V) (id : UInt64) : Action (Index σ V) Error Bool := do
  requireOpen
  let key ← encode value
  onForward (SetTable.contains key id)

def countOf (value : V) : Action (Index σ V) Error Nat := do
  requireOpen
  let key ← encode value
  onForward (SetTable.countOf key)

def reverseLookup (id : UInt64) : Action (Index σ V) Error V := do
  requireOpen
  match ← onReverse (SetTable.firstElement (entryKey id)) with
  | some key => Action.query fun index => index.codec.decode key
  | none =>
    throw (.notFound ((← get).config.attributeId ++ " of entry " ++ toString id.toNat))

def reverseValues (id : UInt64) : Action (Index σ V) Error (List V) := do
  requireOpen
  match ← onReverse (SetTable.elements (entryKey id)) with
  | some keys => Action.query fun index => keys.toList.mapM index.codec.decode
  | none => return []

def rawForwardSlot (value : V) : Action (Index σ V) Error (Option Bytes) := do
  requireOpen
  let key ← encode value
  onForward (SetTable.rawSlot key)

def entries : Action (Index σ V) Error (List (V × UInt64)) := do
  requireOpen
  let slots ← onForward SetTable.slots
  let groups ← Action.query fun index => slots.mapM fun (key, ids) => do
    let value ← index.codec.decode key
    return ids.toList.map fun id => (value, id)
  return groups.flatten

def restoreForward (keys : List Bytes) (id : UInt64) : Action (Index σ V) Error Unit :=
  keys.forM fun key => Action.ignoring (onForward (SetTable.put key id))

/-- Records that an entry holds a value; answers whether that is new. If the reverse direction cannot
be written, the forward one is undone. -/
def add (value : V) (id : UInt64) : Action (Index σ V) Error Bool := do
  requireOpen
  let key ← encode value
  let added ← onForward (SetTable.put key id)
  if let .error failure ← Action.attempt (onReverse (SetTable.put (entryKey id) key)) then
    if added then Action.ignoring (onForward (SetTable.remove key id))
    throw failure
  return added

def remove (value : V) (id : UInt64) : Action (Index σ V) Error Bool := do
  requireOpen
  let key ← encode value
  let removed ← onForward (SetTable.remove key id)
  if let .error failure ← Action.attempt (onReverse (SetTable.remove (entryKey id) key)) then
    if removed then restoreForward [key] id
    throw failure
  return removed

/-- Removes the pairs of an entry with some keys from the forward direction; answers with the keys
that had one. If one cannot be removed, those before it are put back. -/
def removeForward (id : UInt64) : (removed keys : List Bytes) →
    Action (Index σ V) Error (List Bytes)
  | removed, [] => return removed
  | removed, key :: keys => do
    match ← Action.attempt (onForward (SetTable.remove key id)) with
    | .ok true => removeForward id (removed ++ [key]) keys
    | .ok false => removeForward id removed keys
    | .error failure =>
      restoreForward removed id
      throw failure

def dropEntry (id : UInt64) : Action (Index σ V) Error Nat := do
  requireOpen
  match ← onReverse (SetTable.elements (entryKey id)) with
  | none => return 0
  | some keys =>
    let removed ← removeForward id [] keys.toList
    if let .error failure ← Action.attempt (onReverse (SetTable.take (entryKey id))) then
      restoreForward removed id
      throw failure
    return keys.size

def sync : Action (Index σ V) Error Unit := do
  requireOpen
  onForward SetTable.sync
  onReverse SetTable.sync

def close : Action (Index σ V) Error Unit := do
  unless (← get).isClosed do
    onForward SetTable.close
    onReverse SetTable.close
    modify fun index => { index with isClosed := true }

end Index

end AttributeIndex
