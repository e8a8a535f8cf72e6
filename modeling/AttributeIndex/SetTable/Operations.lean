import AttributeIndex.SetTable.Basic

namespace AttributeIndex.SetTable

variable {σ D : Type} [Ord D] [Table σ]

/-! ## Reading -/

def elements (key : Bytes) : Action (SetTable σ D) Error (Option (OrderedSet D compare)) := do
  requireOpen
  match ← readSlot key with
  | none => return none
  | some (.inline set) => return some set
  | some (.overflow redirect) => return some (← useOverflowSet redirect.recordId)

def contains (key : Bytes) (element : D) : Action (SetTable σ D) Error Bool := do
  return (← elements key).any (·.contains element)

def countOf (key : Bytes) : Action (SetTable σ D) Error Nat := do
  return ((← elements key).map OrderedSet.size).getD 0

def firstElement (key : Bytes) : Action (SetTable σ D) Error (Option D) := do
  return (← elements key).bind OrderedSet.first?

def rawSlot (key : Bytes) : Action (SetTable σ D) Error (Option Bytes) := do
  requireOpen
  onPrimary (Table.get key)

def keysFrom : (limit : Nat) → Action (Scan σ) Error (List Bytes)
  | 0 => return []
  | limit + 1 => do
    if ← Cursor.next then
      let tuple ← Action.query fun scan : Scan σ => Cursor.get scan
      return tuple.key :: (← keysFrom limit)
    else return []

def elementsOf : List Bytes → Action (SetTable σ D) Error (List (Bytes × OrderedSet D compare))
  | [] => return []
  | key :: keys => do
    match ← elements key with
    | some set => return (key, set) :: (← elementsOf keys)
    | none => elementsOf keys

def slots : Action (SetTable σ D) Error (List (Bytes × OrderedSet D compare)) := do
  requireOpen
  let table ← get
  let keys ← onStores (Stores.onPrimary id
    (Table.scanning (.io table.name) (keysFrom (table.keyCount + 1))))
  elementsOf keys

def put (key : Bytes) (element : D) : Action (SetTable σ D) Error Bool := do
  requireOpen
  match ← readSlot key with
  | none => writeInline key (OrderedSet.empty.insert element).2
  | some (.inline set) =>
    let (inserted, set) := set.insert element
    unless inserted do return false
    if (← get).limit < set.size then migrate key set else writeInline key set
  | some (.overflow redirect) =>
    let (inserted, set) := (← useOverflowSet redirect.recordId).insert element
    unless inserted do return false
    cacheDirty redirect.recordId set
  modify fun table => { table with count := table.count + 1 }
  return true

def remove (key : Bytes) (element : D) : Action (SetTable σ D) Error Bool := do
  requireOpen
  match ← readSlot key with
  | none => return false
  | some (.inline set) =>
    let (removed, set) := set.erase element
    unless removed do return false
    if set.isEmpty then discard (onPrimary (Table.remove key)) else writeInline key set
  | some (.overflow redirect) =>
    let set ← useOverflowSet redirect.recordId
    unless set.contains element do return false
    if set.size = 1 then release key redirect.recordId
    else cacheDirty redirect.recordId (set.erase element).2
  modify fun table => { table with count := table.count - 1 }
  return true

def take (key : Bytes) : Action (SetTable σ D) Error (Option (OrderedSet D compare)) := do
  requireOpen
  match ← readSlot key with
  | none => return none
  | some (.inline set) =>
    discard (onPrimary (Table.remove key))
    modify fun table => { table with count := table.count - set.size }
    return some set
  | some (.overflow redirect) =>
    let set ← useOverflowSet redirect.recordId
    release key redirect.recordId
    modify fun table => { table with count := table.count - set.size }
    return some set

def writeBack (id : UInt64) : Action (SetTable σ D) Error Unit := do
  if let some cached := (← get).sets.find? id then
    if cached.dirty then
      writeRecord id cached.set
      modify fun table =>
        { table with sets := table.sets.modify id fun cached => { cached with dirty := false } }

def writeHeader : Action (SetTable σ D) Error Unit := do
  let table ← get
  if table.headerDirty then
    onOverflow (Table.put (recordKey headerId) (Bytes.ofUInt64 table.nextId))
    modify fun table => { table with headerDirty := false }

def sync : Action (SetTable σ D) Error Unit := do
  requireOpen
  (← get).sets.keys.forM writeBack
  writeHeader
  onPrimary Table.sync
  onOverflow Table.sync

def close : Action (SetTable σ D) Error Unit := do
  unless (← get).isClosed do
    sync
    modify fun table => { table with sets := table.sets.clear }
    onPrimary Table.close
    onOverflow Table.close
    modify fun table => { table with isClosed := true }

end AttributeIndex.SetTable
