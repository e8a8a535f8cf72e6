import AttributeIndex.FileTree.Place

namespace AttributeIndex

namespace FileTree

def names (path : String) : List String :=
  (FileName.components path).filter (· ≠ "")

def checkPath (path : String) : Except IoError Unit :=
  if path.toList.contains '\x00' then .error .nulInPath
  else if FileName.isTooLongPath path then .error .nameTooLong
  else .ok ()

def follow (tree : FileTree) (path : String) : Except IoError Place := do
  checkPath path
  (names path).foldlM Place.enter (.root tree)

/-- The directory that a path leads into, and the last name, which is looked for there. A path that
ends in dots is led all the way and has no name left. -/
def locate (tree : FileTree) (path : String) : Except IoError (Place × Option String) := do
  checkPath path
  let name? := (names path).getLast?.filter fun name => name ≠ "." && name ≠ ".."
  let way := if name?.isSome then (names path).dropLast else names path
  return (← way.foldlM Place.enter (.root tree), name?)

def isDirectory (tree : FileTree) (path : String) : Bool :=
  (tree.follow path).isOk

def makeDirectory (path : String) : Action FileTree IoError Unit := do
  match ← Action.query fun tree => tree.locate path with
  | (_, none) => throw .alreadyExists
  | (place, some name) =>
    match ← Action.ofResult (place.find? name) with
    | some _ => throw .alreadyExists
    | none => set (place.put name (.directory [])).toTree

def ensureDirectory (path : String) : Action FileTree IoError Unit := do
  try makeDirectory path
  catch failure =>
    unless (← get).isDirectory path do throw failure

def ensureWay (names : List String) : Action FileTree IoError Unit :=
  Action.on Place.root (fun _ place => place.toTree) id (names.forM Place.enterOrMake)

def ensureDirectories (path : String) : Action FileTree IoError Unit := do
  try ensureDirectory path
  catch
    | .noSuchFile =>
      ensureWay (names (FileName.parent path))
      ensureDirectory path
    | failure => throw failure

/-! ## Files -/

def locateFile (tree : FileTree) (path : String) : Except IoError (Place × String) := do
  match ← tree.locate path with
  | (_, none) => throw .isADirectory
  | (place, some name) =>
    if FileName.endsInSlash path then throw .isADirectory
    match ← place.find? name with
    | some (.directory _) => throw .isADirectory
    | _ => return (place, name)

def findFile (tree : FileTree) (path : String) : Except IoError (Place × String × Bytes) := do
  match ← tree.locate path with
  | (_, none) => throw .isADirectory
  | (place, some name) =>
    match ← place.find? name with
    | none => throw .noSuchFile
    | some (.directory _) => throw .isADirectory
    | some (.file content) =>
      if FileName.endsInSlash path then throw .notADirectory
      return (place, name, content)

def fetch (path : String) : Action FileTree IoError Bytes :=
  Action.query fun tree => (·.2.2) <$> tree.findFile path

def hasEntry (tree : FileTree) (path : String) : Bool :=
  tree.isDirectory path || (tree.findFile path).isOk

def changeFile (path : String) (change : Bytes → Bytes) : Action FileTree IoError Unit := do
  let (place, name, content) ← Action.query fun tree => tree.findFile path
  set (place.put name (.file (change content))).toTree

def writeFile (path : String) (content : Bytes) : Action FileTree IoError Unit := do
  let (place, name) ← Action.query fun tree => tree.locateFile path
  set (place.put name (.file content)).toTree

end FileTree

end AttributeIndex
