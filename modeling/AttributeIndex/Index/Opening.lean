import AttributeIndex.Index.Basic

namespace AttributeIndex

namespace Index

variable {V : Type}

def openTables (config : Config) : Action FileTree Error (Tables Storage) :=
  match config.indexDirectory with
  | none => return .inMemory
  | some directory =>
    Action.relating (.io directory) (Tables.openIn directory config.cacheSize)

def openIn (config : Config) (codec : Codec V) : Action FileTree Error (Index Storage V) := do
  Action.ofResult config.validate
  let tables ← openTables config
  match openOver config codec tables with
  | (.ok index, _) => return index
  | (.error failure, tables) =>
    modify tables.dropIn
    throw failure

end Index

end AttributeIndex
