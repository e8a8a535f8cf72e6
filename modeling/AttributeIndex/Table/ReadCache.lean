import AttributeIndex.Lru
import AttributeIndex.Table.Basic

namespace AttributeIndex

structure ReadCache (σ : Type) where
  inner : σ
  cache : Lru Bytes Bytes
  hits : Nat
  misses : Nat

namespace ReadCache

variable {σ : Type} {ε α : Type}

def ofTable (inner : σ) (capacity : Nat) : ReadCache σ :=
  ⟨inner, .empty (max capacity 1), 0, 0⟩

def asking (work : Action σ ε α) : Action (ReadCache σ) ε α :=
  fun table =>
    match work table.inner with
    | (outcome, inner) => (outcome, { table with inner })

/-- Performs an operation of the inner table that may change it; what the cache holds may be wrong
afterwards and is dropped. -/
def bypassing (work : Action σ ε α) : Action (ReadCache σ) ε α :=
  fun table => asking work { table with cache := table.cache.clear }

def writeCache (key value : Bytes) (table : ReadCache σ) : ReadCache σ :=
  { table with cache := table.cache.insert key value }

variable [Table σ]

def get (key : Bytes) : Action (ReadCache σ) IoError (Option Bytes) := do
  match (← MonadState.get).cache.find? key with
  | some value =>
    modify fun table =>
      { table with cache := table.cache.touch key, hits := table.hits + 1 }
    return some value
  | none =>
    modify fun table => { table with misses := table.misses + 1 }
    let value? ← asking (Table.get key)
    if let some value := value? then
      modify (writeCache key value)
    return value?

def put (key value : Bytes) : Action (ReadCache σ) IoError Unit := do
  asking (Table.put key value)
  modify (writeCache key value)

def remove (key : Bytes) : Action (ReadCache σ) IoError Bool := do
  modify fun table => { table with cache := table.cache.erase key }
  asking (Table.remove key)

instance : Table (ReadCache σ) where
  get := get
  put := put
  remove := remove
  size table := Table.size table.inner
  keys table := Table.keys table.inner
  beginScan := asking Table.beginScan
  load key := asking (Table.load key)
  sync := asking Table.sync
  close := bypassing Table.close

end ReadCache

end AttributeIndex
