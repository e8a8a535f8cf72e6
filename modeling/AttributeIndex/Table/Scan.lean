import AttributeIndex.Table.Basic

/-!
Cursors over the tuples of a table.

A scan stands at a key or beside one, and every step asks the key directory for the nearest key in
its direction. A step that cannot fetch its value leaves the scan where it was, so that it can be
taken again.
-/

namespace AttributeIndex

namespace Scan

inductive Position
  | beforeFirst
  | afterLast
  | onTuple
  | before (key : Bytes)
  | after (key : Bytes)
  | closed
  deriving DecidableEq, Repr

end Scan

/-- A cursor that holds its table for as long as it is open. -/
structure Scan (σ : Type) where
  table : σ
  position : Scan.Position
  current : Tuple

namespace Scan

variable {σ : Type}

def label : String :=
  "table cursor"

def start (table : σ) : Scan σ :=
  ⟨table, .beforeFirst, ⟨[], []⟩⟩

def isAvailable (scan : Scan σ) : Bool :=
  match scan.position with
  | .onTuple => true
  | _ => false

def isClosed (scan : Scan σ) : Bool :=
  match scan.position with
  | .closed => true
  | _ => false

def get (scan : Scan σ) : Except Error Tuple :=
  match scan.position with
  | .onTuple => .ok scan.current
  | .closed => .error (.closed label)
  | _ => .error (.invalidPosition label)

def wait (position : Position) : Action (Scan σ) Error Unit :=
  fun scan =>
    if scan.isClosed then (.error (.closed label), scan)
    else (.ok (), { scan with position := position })

/-! ## The nearest key -/

def below? (keys : List Bytes) (key : Bytes) : Option Bytes :=
  (keys.takeWhile fun other => compare other key == .lt).getLast?

def floor? (keys : List Bytes) (key : Bytes) : Option Bytes :=
  (keys.takeWhile fun other => compare other key != .gt).getLast?

def ceiling? (keys : List Bytes) (key : Bytes) : Option Bytes :=
  keys.find? fun other => compare other key != .lt

def above? (keys : List Bytes) (key : Bytes) : Option Bytes :=
  keys.find? fun other => compare other key == .gt

def ahead? (keys : List Bytes) (scan : Scan σ) : Option Bytes :=
  match scan.position with
  | .afterLast | .closed => none
  | .beforeFirst => keys.head?
  | .onTuple => above? keys scan.current.key
  | .before key => ceiling? keys key
  | .after key => above? keys key

def back? (keys : List Bytes) (scan : Scan σ) : Option Bytes :=
  match scan.position with
  | .beforeFirst | .closed => none
  | .afterLast => keys.getLast?
  | .onTuple => below? keys scan.current.key
  | .before key => below? keys key
  | .after key => floor? keys key

variable [Table σ]

/-- Lands on a key and fetches its value, or comes to rest at the given end if there is none. -/
def land (found : Option Bytes) (edge : Position) : Action (Scan σ) Error Bool :=
  fun scan =>
    match found with
    | none => (.ok false, { scan with position := edge })
    | some key =>
      match (Table.load key : Action σ IoError Bytes) scan.table with
      | (.ok value, table) => (.ok true, ⟨table, .onTuple, ⟨key, value⟩⟩)
      | (.error failure, table) =>
        (.error (.io (label ++ " value load") failure), { scan with table })

def move (find : List Bytes → Scan σ → Option Bytes) (edge : Position) :
    Action (Scan σ) Error Bool :=
  fun scan =>
    if scan.isClosed then (.error (.closed label), scan)
    else land (find (Table.keys scan.table) scan) edge scan

instance : Cursor (Scan σ) Tuple where
  isAvailable := isAvailable
  before target := wait (.before target.key)
  after target := wait (.after target.key)
  beforeFirst := wait .beforeFirst
  afterLast := wait .afterLast
  first := move (fun keys _ => keys.head?) .beforeFirst
  last := move (fun keys _ => keys.getLast?) .afterLast
  previous := move back? .beforeFirst
  next := move ahead? .afterLast
  get := get
  isElementReused _ := true
  close := Action.update fun scan => { scan with position := .closed }
  isClosed := isClosed
  extent scan := Table.size scan.table

end Scan

namespace Table

variable {σ ε α : Type} [Table σ]

def scanning (relate : IoError → ε) (work : Action (Scan σ) ε α) : Action σ ε α :=
  fun table =>
    match (Table.beginScan : Action σ IoError Unit) table with
    | (.error failure, table) => (.error (relate failure), table)
    | (.ok (), table) =>
      match work (Scan.start table) with
      | (outcome, scan) => (outcome, scan.table)

end Table

end AttributeIndex
