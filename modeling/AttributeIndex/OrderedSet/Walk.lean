import AttributeIndex.Cursor
import AttributeIndex.OrderedSet.Path

namespace AttributeIndex.OrderedSet

variable {α : Type} {cmp : α → α → Ordering}

namespace Walk

inductive Position
  | beforeFirst
  | afterLast
  | on (path : Path)
  | gap (next : Option Path)
  | closed
  deriving DecidableEq, Repr

end Walk

structure Walk (α : Type) (cmp : α → α → Ordering) where
  set : OrderedSet α cmp
  position : Walk.Position

namespace Walk

def label : String :=
  "avl tree cursor"

def start (set : OrderedSet α cmp) : Walk α cmp :=
  ⟨set, .beforeFirst⟩

def isAvailable (walk : Walk α cmp) : Bool :=
  match walk.position with
  | .on _ => true
  | _ => false

def isClosed (walk : Walk α cmp) : Bool :=
  match walk.position with
  | .closed => true
  | _ => false

def land (path : Option Path) (edge : Position) : Position :=
  match path with
  | some path => .on path
  | none => edge

def ahead (walk : Walk α cmp) : Position :=
  match walk.position with
  | .beforeFirst => land walk.set.firstPath? .afterLast
  | .on path => land (walk.set.successor? path) .afterLast
  | .gap next => land next .afterLast
  | .afterLast | .closed => .afterLast

def back (walk : Walk α cmp) : Position :=
  match walk.position with
  | .afterLast | .gap none => land walk.set.lastPath? .beforeFirst
  | .on path | .gap (some path) => land (walk.set.predecessor? path) .beforeFirst
  | .beforeFirst | .closed => .beforeFirst

def move (target : Walk α cmp → Position) : Action (Walk α cmp) Error Bool :=
  fun walk =>
    if walk.isClosed then (.error (.closed label), walk)
    else
      let walk := { walk with position := target walk }
      (.ok walk.isAvailable, walk)

def wait (target : Walk α cmp → Position) : Action (Walk α cmp) Error Unit :=
  fun walk =>
    if walk.isClosed then (.error (.closed label), walk)
    else (.ok (), { walk with position := target walk })

def get (walk : Walk α cmp) : Except Error α :=
  match walk.position with
  | .on path =>
    match walk.set.keyAt? path with
    | some key => .ok key
    | none => .error (.invalidPosition label)
  | .closed => .error (.closed label)
  | _ => .error (.invalidPosition label)

end Walk

instance : Cursor (Walk α cmp) α where
  isAvailable := Walk.isAvailable
  before target := Walk.wait fun walk => .gap (walk.set.ceiling? target)
  after target := Walk.wait fun walk => .gap (walk.set.above? target)
  beforeFirst := Walk.wait fun _ => .beforeFirst
  afterLast := Walk.wait fun _ => .afterLast
  first := Walk.move fun walk => Walk.land walk.set.firstPath? .beforeFirst
  last := Walk.move fun walk => Walk.land walk.set.lastPath? .afterLast
  previous := Walk.move Walk.back
  next := Walk.move Walk.ahead
  get := Walk.get
  isElementReused _ := true
  close := Action.update fun walk => { walk with position := .closed }
  isClosed := Walk.isClosed
  extent walk := walk.set.size

end AttributeIndex.OrderedSet
