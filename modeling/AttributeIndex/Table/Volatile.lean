import AttributeIndex.Table.Basic

namespace AttributeIndex

structure Volatile where
  entries : SortedMap Bytes Bytes
  isClosed : Bool
  deriving Inhabited

namespace Volatile

def ofEntries (entries : SortedMap Bytes Bytes) : Volatile :=
  ⟨entries, false⟩

def empty : Volatile :=
  ofEntries .empty

def whileOpen {α : Type} (work : SortedMap Bytes Bytes → α × SortedMap Bytes Bytes) :
    Action Volatile IoError α :=
  fun table =>
    if table.isClosed then (.error (.closed "memory"), table)
    else
      let (answer, entries) := work table.entries
      (.ok answer, { table with entries })

instance : Table Volatile where
  get key := whileOpen fun entries => (entries.find? key, entries)
  put key value := whileOpen fun entries => ((), entries.insert key value)
  remove key := whileOpen fun entries => (entries.contains key, entries.erase key)
  size table := table.entries.size
  keys table := table.entries.keys
  beginScan := whileOpen fun entries => ((), entries)
  load key := Action.query fun table => .ok ((table.entries.find? key).getD [])
  sync := whileOpen fun entries => ((), entries)
  close := Action.update fun table => { table with isClosed := true }

end Volatile

end AttributeIndex
