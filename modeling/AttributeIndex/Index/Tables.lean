import AttributeIndex.SetTable.Basic
import AttributeIndex.Storage

namespace AttributeIndex

namespace Stores

variable {σ τ : Type}

def map (change : σ → τ) (stores : Stores σ) : Stores τ :=
  ⟨change stores.primary, change stores.overflow⟩

def showIn (stores : Stores Storage) (tree : FileTree) : FileTree :=
  stores.overflow.showIn (stores.primary.showIn tree)

def dropIn (stores : Stores Storage) (tree : FileTree) : FileTree :=
  stores.overflow.dropIn (stores.primary.dropIn tree)

def refreshFrom (tree : FileTree) (stores : Stores Storage) : Stores Storage :=
  stores.map (Storage.refreshFrom tree)

def openIn (primary overflow : String) (cacheSize : Nat) :
    Action FileTree IoError (Stores Storage) := do
  let primary ← Storage.openIn primary cacheSize
  let overflow ← Storage.openIn overflow cacheSize
  return ⟨primary, overflow⟩

end Stores

structure Tables (σ : Type) where
  forward : Stores σ
  reverse : Stores σ

namespace Tables

variable {σ τ : Type}

def map (change : σ → τ) (tables : Tables σ) : Tables τ :=
  ⟨tables.forward.map change, tables.reverse.map change⟩

def toList (tables : Tables σ) : List σ :=
  [tables.forward.primary, tables.forward.overflow, tables.reverse.primary, tables.reverse.overflow]

def inMemory : Tables Storage :=
  ⟨⟨.inMemory, .inMemory⟩, ⟨.inMemory, .inMemory⟩⟩

def openIn (directory : String) (cacheSize : Nat) : Action FileTree IoError (Tables Storage) := do
  FileTree.ensureDirectories directory
  let path := FileName.join directory
  let forward ← Stores.openIn (path "forward.tbl") (path "forward-overflow.tbl") cacheSize
  let reverse ← Stores.openIn (path "reverse.tbl") (path "reverse-overflow.tbl") cacheSize
  return ⟨forward, reverse⟩

def showIn (tables : Tables Storage) (tree : FileTree) : FileTree :=
  tables.reverse.showIn (tables.forward.showIn tree)

def dropIn (tables : Tables Storage) (tree : FileTree) : FileTree :=
  tables.reverse.dropIn (tables.forward.dropIn tree)

def refreshFrom (tree : FileTree) (tables : Tables Storage) : Tables Storage :=
  tables.map (Storage.refreshFrom tree)

end Tables

end AttributeIndex
