import AttributeIndex.Log.Appender
import AttributeIndex.Log.Frame
import AttributeIndex.Source
import AttributeIndex.Table.Basic
import AttributeIndex.Text.FileName

/-!
Tables kept as a log of their changes.

Every change appends a frame to one file. A directory in memory says where in the file the latest
value of each key stands, and values are read from there when they are asked for. Opening a table
replays its log and cuts off a frame that was only partly written; compaction leaves one frame for
each key.
-/

namespace AttributeIndex

structure Files where
  contents : SortedMap String Bytes
  refusals : SortedMap String IoError

namespace Files

def empty : Files :=
  ⟨.empty, .empty⟩

def content (files : Files) (path : String) : Bytes :=
  (files.contents.find? path).getD []

def write (path : String) (content : Bytes) (files : Files) : Files :=
  { files with contents := files.contents.insert path content }

def erase (path : String) (files : Files) : Files :=
  { files with contents := files.contents.erase path }

def refuse (path : String) (failure : IoError) (files : Files) : Files :=
  { files with refusals := files.refusals.insert path failure }

def create (path : String) (content : Bytes) (files : Files) : Except IoError Files :=
  match files.refusals.find? path with
  | some failure => .error failure
  | none => .ok (files.write path content)

end Files

structure Location where
  offset : Nat
  length : Nat
  deriving DecidableEq, Repr

namespace Location

def frameLength (location : Location) (keyLength : Nat) : Nat :=
  Frame.lengthOf keyLength location.length

end Location

/-! ## The directory of a log -/

/-- What a log says: where each key has its latest value, how long the log is, and how much of it
compaction would reclaim. -/
structure LogState where
  directory : SortedMap Bytes Location
  size : Nat
  garbage : Nat

namespace LogState

def empty : LogState :=
  ⟨.empty, 0, 0⟩

def frameLengthOf (state : LogState) (key : Bytes) : Nat :=
  match state.directory.find? key with
  | some location => location.frameLength key.length
  | none => 0

/-- A frame at the end of the log. The value that it replaces or removes becomes garbage, and so
does a removal itself. -/
def append (state : LogState) (frame : Frame) : LogState :=
  let size := state.size + frame.length
  match frame.op with
  | .put =>
    let location : Location :=
      ⟨state.size + Frame.headerSize + frame.key.length, frame.value.length⟩
    ⟨state.directory.insert frame.key location, size,
      state.garbage + state.frameLengthOf frame.key⟩
  | .remove =>
    ⟨state.directory.erase frame.key, size,
      state.garbage + frame.length + state.frameLengthOf frame.key⟩

def ofFrames (frames : List Frame) : LogState :=
  frames.foldl append empty

def compacted (directory : SortedMap Bytes Location) : LogState :=
  directory.entries.foldl (fun state (key, location) =>
    { directory :=
        state.directory.insert key
          ⟨state.size + Frame.headerSize + key.length, location.length⟩
      size := state.size + location.frameLength key.length
      garbage := 0 }) empty

end LogState

/-! ## Tables -/

/-- A table whose changes are logged in the file at `path`. The files it may touch are its own while
it is open; `pending` holds frames that have not reached the file, and nothing once the table is
closed. -/
structure LogTable where
  path : String
  files : Files
  pending : Option Bytes
  state : LogState

namespace LogTable

def file (table : LogTable) : Bytes :=
  table.files.content table.path

def siblingPath (path : String) : String :=
  FileName.withExtension path "compact"

def logSize (table : LogTable) : Nat :=
  table.state.size

def garbageSize (table : LogTable) : Nat :=
  table.state.garbage

def closedError (table : LogTable) : IoError :=
  .closed table.path

/-- Opens the table at a path. A file that is not there becomes an empty log, and one that ends
inside a frame is cut back to its last whole frame. A damaged log is refused and left as it is. -/
def openAt (path : String) : Action Files IoError LogTable := do
  let content := (← get).content path
  set (← Action.query fun files => files.create path content)
  match Frame.readAll content content.length with
  | (_, .error failure) => throw failure
  | (frames, .ok _) =>
    let state := LogState.ofFrames frames
    modify (Files.write path (content.take state.size))
    return ⟨path, ← get, some [], state⟩

def write (bytes : Bytes) : Action LogTable IoError Unit :=
  fun table =>
    match table.pending with
    | none => (.error table.closedError, table)
    | some pending =>
      let out := Appender.write ⟨table.file, pending⟩ bytes
      (.ok (), { table with
        files := table.files.write table.path out.file
        pending := some out.pending })

def flush : Action LogTable IoError Unit :=
  fun table =>
    match table.pending with
    | none => (.error table.closedError, table)
    | some [] => (.ok (), table)
    | some pending =>
      let out := Appender.flush ⟨table.file, pending⟩
      (.ok (), { table with
        files := table.files.write table.path out.file
        pending := some out.pending })

def readValue (table : LogTable) (location : Location) : Except IoError Bytes :=
  readAt table.file location.offset location.length

def append (frame : Frame) : Action LogTable IoError Unit := do
  if (← get).pending.isNone then
    throw (← get).closedError
  let bytes ← Action.query fun _ => frame.write
  write bytes
  modify fun table => { table with state := table.state.append frame }

def find? (key : Bytes) : Action LogTable IoError (Option Bytes) := do
  flush
  match (← get).state.directory.find? key with
  | some location => some <$> Action.query fun table => table.readValue location
  | none => return none

def remove (key : Bytes) : Action LogTable IoError Bool := do
  let table ← get
  if table.pending.isNone then
    throw table.closedError
  if table.state.directory.contains key then
    append ⟨.remove, key, []⟩
    return true
  else return false

def close : Action LogTable IoError Unit := do
  if (← get).pending.isSome then
    flush
    modify fun table => { table with pending := none }

instance : Table LogTable where
  get := find?
  put key value := append ⟨.put, key, value⟩
  remove := remove
  size table := table.state.directory.size
  keys table := table.state.directory.keys
  beginScan := flush
  load key := Action.query fun table =>
    match table.state.directory.find? key with
    | some location => table.readValue location
    | none => .ok []
  sync := flush
  close := close

/-- The files as the table leaves them when it is dropped; what is pending still reaches the log. -/
def release (table : LogTable) : Files :=
  match table.pending with
  | some pending => table.files.write table.path (table.file ++ pending)
  | none => table.files

def writeSibling (pending bytes : Bytes) (table : LogTable) : LogTable × Bytes :=
  let path := siblingPath table.path
  let out := Appender.write ⟨table.files.content path, pending⟩ bytes
  ({ table with files := table.files.write path out.file }, out.pending)

def flushSibling (pending : Bytes) (table : LogTable) : LogTable :=
  let path := siblingPath table.path
  { table with files := table.files.write path (table.files.content path ++ pending) }

/-- Copies the values of a directory to the sibling file, one frame each. If a value cannot be read,
the frames before it stay there. -/
def copyValues : List (Bytes × Location) → (pending : Bytes) → Action LogTable IoError Unit
  | [], pending => modify (flushSibling pending)
  | (key, location) :: rest, pending => fun table =>
    match table.readValue location >>= fun value => Frame.write ⟨.put, key, value⟩ with
    | .error failure => (.error failure, flushSibling pending table)
    | .ok bytes =>
      let (table, pending) := writeSibling pending bytes table
      copyValues rest pending table

def replaceBySibling (table : LogTable) : LogTable :=
  let path := siblingPath table.path
  let content := table.files.content path
  { table with
    files := (table.files.erase path).write table.path content
    pending := some []
    state := .compacted table.state.directory }

def compact : Action LogTable IoError Unit := do
  flush
  let table ← get
  let files ← Action.ofResult (table.files.create (siblingPath table.path) [])
  set { table with files }
  copyValues (← get).state.directory.entries []
  modify replaceBySibling

end LogTable

end AttributeIndex
