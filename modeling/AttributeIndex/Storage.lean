import AttributeIndex.FileTree
import AttributeIndex.Log.Table
import AttributeIndex.Table.ReadCache
import AttributeIndex.Table.Volatile

namespace AttributeIndex

namespace FileTree

def logPaths (path : String) : List String :=
  [path, LogTable.siblingPath path]

def lend (tree : FileTree) (path : String) : Files :=
  (logPaths path).foldl (fun files path =>
    match tree.findFile path, tree.locateFile path with
    | .ok (_, _, content), _ => files.write path content
    | .error _, .ok _ => files
    | .error _, .error failure => files.refuse path failure) .empty

def takeBack (tree : FileTree) (path : String) (files : Files) : FileTree :=
  (logPaths path).foldl (fun tree path =>
    match tree.locateFile path, files.contents.find? path with
    | .ok (place, name), some content => (place.put name (.file content)).toTree
    | .ok (place, name), none => (place.erase name).toTree
    | .error _, _ => tree) tree

end FileTree

namespace LogTable

def openIn (path : String) : Action FileTree IoError LogTable :=
  Action.on (·.lend path) (·.takeBack path) id (openAt path)

def showIn (table : LogTable) (tree : FileTree) : FileTree :=
  tree.takeBack table.path table.files

def dropIn (table : LogTable) (tree : FileTree) : FileTree :=
  tree.takeBack table.path table.release

def refreshFrom (tree : FileTree) (table : LogTable) : LogTable :=
  { table with files := tree.lend table.path }

end LogTable

/-- A table in memory, or a log table behind a read cache. -/
inductive Storage
  | memory (table : Volatile)
  | logged (table : ReadCache LogTable)

namespace Storage

variable {ε α : Type}

def inMemory : Storage :=
  .memory .empty

def openIn (path : String) (cacheSize : Nat) : Action FileTree IoError Storage := do
  let table ← LogTable.openIn path
  return .logged (.ofTable table cacheSize)

def perform (onMemory : Action Volatile ε α) (onLog : Action (ReadCache LogTable) ε α) :
    Action Storage ε α
  | memory table =>
    match onMemory table with
    | (outcome, table) => (outcome, memory table)
  | logged table =>
    match onLog table with
    | (outcome, table) => (outcome, logged table)

instance : Table Storage where
  get key := perform (Table.get key) (Table.get key)
  put key value := perform (Table.put key value) (Table.put key value)
  remove key := perform (Table.remove key) (Table.remove key)
  size
    | memory table => Table.size table
    | logged table => Table.size table
  keys
    | memory table => Table.keys table
    | logged table => Table.keys table
  beginScan := perform Table.beginScan Table.beginScan
  load key := perform (Table.load key) (Table.load key)
  sync := perform Table.sync Table.sync
  close := perform Table.close Table.close

def showIn (storage : Storage) (tree : FileTree) : FileTree :=
  match storage with
  | memory _ => tree
  | logged table => table.inner.showIn tree

def dropIn (storage : Storage) (tree : FileTree) : FileTree :=
  match storage with
  | memory _ => tree
  | logged table => table.inner.dropIn tree

def refreshFrom (tree : FileTree) : Storage → Storage
  | memory table => .memory table
  | logged table => .logged { table with inner := table.inner.refreshFrom tree }

end Storage

end AttributeIndex
