import AttributeIndex.Action
import AttributeIndex.Error
import AttributeIndex.Text.FileName

namespace AttributeIndex

namespace FileTree

inductive Entry
  | file (content : Bytes)
  | directory (entries : List (String × Entry))

end FileTree

structure FileTree where
  entries : List (String × FileTree.Entry)

namespace FileTree

def empty : FileTree :=
  ⟨[]⟩

def setEntry (name : String) (entry : Entry) (entries : List (String × Entry)) :
    List (String × Entry) :=
  (name, entry) :: entries.filter (·.1 ≠ name)

/-- A directory in a file tree. The directories above it come with the name that leads down from
each, the nearest first. -/
structure Place where
  entries : List (String × Entry)
  above : List (String × List (String × Entry))

namespace Place

def root (tree : FileTree) : Place :=
  ⟨tree.entries, []⟩

def toTree (place : Place) : FileTree :=
  ⟨place.above.foldl (fun entries (name, outer) => setEntry name (.directory entries) outer)
    place.entries⟩

def find? (place : Place) (name : String) : Except IoError (Option Entry) :=
  if FileName.isTooLong name then .error .nameTooLong
  else .ok (place.entries.lookup name)

def put (name : String) (entry : Entry) (place : Place) : Place :=
  { place with entries := setEntry name entry place.entries }

def erase (name : String) (place : Place) : Place :=
  { place with entries := place.entries.filter (·.1 ≠ name) }

def descend (name : String) (entries : List (String × Entry)) (place : Place) : Place :=
  ⟨entries, (name, place.entries) :: place.above⟩

def ascend (place : Place) : Place :=
  match place.above with
  | [] => place
  | (name, outer) :: above => ⟨setEntry name (.directory place.entries) outer, above⟩

def enter (place : Place) (name : String) : Except IoError Place :=
  if name = "." then .ok place
  else if name = ".." then .ok place.ascend
  else do
    match ← place.find? name with
    | none => throw .noSuchFile
    | some (.file _) => throw .notADirectory
    | some (.directory entries) => return place.descend name entries

def enterOrMake (name : String) : Action Place IoError Unit :=
  fun place =>
    match place.enter name with
    | .ok inner => (.ok (), inner)
    | .error .noSuchFile => (.ok (), place.descend name [])
    | .error .notADirectory => (.error .alreadyExists, place)
    | .error failure => (.error failure, place)

theorem toTree_root (tree : FileTree) : (root tree).toTree = tree :=
  rfl

theorem toTree_ascend (place : Place) : place.ascend.toTree = place.toTree := by
  obtain ⟨entries, above⟩ := place
  cases above <;> rfl

end Place

end FileTree

end AttributeIndex
