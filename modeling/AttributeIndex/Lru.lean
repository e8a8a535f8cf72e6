namespace AttributeIndex

/-- A cache of at most `capacity` entries, the latest used first. -/
structure Lru (κ ν : Type) where
  capacity : Nat
  entries : List (κ × ν)

namespace Lru

variable {κ ν : Type} [DecidableEq κ]

def empty (capacity : Nat) : Lru κ ν :=
  ⟨capacity, []⟩

def size (cache : Lru κ ν) : Nat :=
  cache.entries.length

def keys (cache : Lru κ ν) : List κ :=
  cache.entries.map Prod.fst

def isFull (cache : Lru κ ν) : Bool :=
  cache.capacity ≤ cache.size

/-- The value of a key, without counting as a use. -/
def find? (cache : Lru κ ν) (key : κ) : Option ν :=
  (cache.entries.find? fun entry => entry.1 = key).map Prod.snd

def contains (cache : Lru κ ν) (key : κ) : Bool :=
  (cache.find? key).isSome

def erase (cache : Lru κ ν) (key : κ) : Lru κ ν :=
  { cache with entries := cache.entries.filter fun entry => entry.1 ≠ key }

def touch (cache : Lru κ ν) (key : κ) : Lru κ ν :=
  match cache.find? key with
  | some value => { cache with entries := (key, value) :: (cache.erase key).entries }
  | none => cache

def modify (cache : Lru κ ν) (key : κ) (change : ν → ν) : Lru κ ν :=
  { cache with
    entries := cache.entries.map fun entry =>
      if entry.1 = key then (entry.1, change entry.2) else entry }

def evict (cache : Lru κ ν) : Option (κ × ν) × Lru κ ν :=
  (cache.entries.getLast?, { cache with entries := cache.entries.dropLast })

def insert (cache : Lru κ ν) (key : κ) (value : ν) : Lru κ ν :=
  if cache.contains key then
    { cache with entries := (key, value) :: (cache.erase key).entries }
  else if cache.isFull then
    { cache with entries := (key, value) :: cache.entries.dropLast }
  else
    { cache with entries := (key, value) :: cache.entries }

def clear (cache : Lru κ ν) : Lru κ ν :=
  { cache with entries := [] }

end Lru

end AttributeIndex
