import AttributeIndex.Cursor
import AttributeIndex.SortedMap

namespace AttributeIndex

structure Tuple where
  key : Bytes
  value : Bytes
  deriving DecidableEq, Repr, Inhabited

class Table (σ : Type) where
  get : Bytes → Action σ IoError (Option Bytes)
  put : Bytes → Bytes → Action σ IoError Unit
  remove : Bytes → Action σ IoError Bool
  /-- The number of keys, known also after the table was closed. -/
  size : σ → Nat
  keys : σ → List Bytes
  beginScan : Action σ IoError Unit
  load : Bytes → Action σ IoError Bytes
  sync : Action σ IoError Unit
  close : Action σ IoError Unit

namespace Table

variable {σ : Type} [Table σ]

def isEmpty (table : σ) : Bool :=
  Table.size table == 0

end Table

end AttributeIndex
