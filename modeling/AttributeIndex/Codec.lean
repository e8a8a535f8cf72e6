import AttributeIndex.OrderedSet.Basic
import AttributeIndex.Redirect
import AttributeIndex.Text.Utf8

namespace AttributeIndex

structure Codec (α : Type) where
  encode : α → Except Error Bytes
  decode : Bytes → Except Error α

namespace Codec

def uint64 : Codec UInt64 where
  encode value := .ok (Bytes.ofUInt64 value)
  decode bytes := do
    Error.requireFormat (bytes.length = 8) "bytes" "bytes.len() == 8"
    return Bytes.toUInt64 bytes

def nonzero : Codec UInt64 where
  encode value := do
    Error.requireArgument (value != 0) "value" "*value != 0"
    uint64.encode value
  decode := uint64.decode

def bytes : Codec Bytes where
  encode := .ok
  decode := .ok

def text : Codec String where
  encode value := .ok (Utf8.encode value)
  decode bytes := (Utf8.decode bytes).mapError fun fault => .invalidFormat "string" fault.message

def redirect : Codec Redirect where
  encode value := .ok value.encode
  decode := Redirect.decode

/-! ## Sets -/

def maxFieldLength : Nat :=
  UInt32.size - 1

def setLabel : String :=
  "duplicate set"

def takeNumber (bytes : Bytes) : Except Error (Nat × Bytes) :=
  match bytes.split? 4 with
  | some (number, rest) => .ok (number.toNat, rest)
  | none => .error (.invalidFormat setLabel IoError.unexpectedEnd.message)

variable {α : Type}

def encodeElements (element : Codec α) : List α → Except Error Bytes
  | [] => .ok []
  | value :: rest => do
    let bytes ← element.encode value
    Error.requireArgument (bytes.length ≤ maxFieldLength) "element"
      "bytes.len() <= MAX_PREFIXED_LEN"
    let tail ← encodeElements element rest
    return Bytes.ofNat 4 bytes.length ++ bytes ++ tail

def decodeElements (element : Codec α) : Nat → Bytes → Except Error (List α × Bytes)
  | 0, bytes => .ok ([], bytes)
  | count + 1, bytes => do
    let (length, bytes) ← takeNumber bytes
    match bytes.split? length with
    | none => throw (.invalidFormat "len" "len <= rest.len()")
    | some (front, bytes) =>
      let value ← element.decode front
      let (values, bytes) ← decodeElements element count bytes
      return (value :: values, bytes)

/-- Sets as their count and their elements in ascending order. Only strictly ascending runs with
nothing before, between or behind them are read. -/
def set [Ord α] (element : Codec α) : Codec (OrderedSet α compare) where
  encode set := do
    Error.requireArgument (set.size ≤ maxFieldLength) "tree" "tree.len() <= MAX_PREFIXED_LEN"
    let elements ← encodeElements element set.toList
    return Bytes.ofNat 4 set.size ++ elements
  decode bytes := do
    let (count, bytes) ← takeNumber bytes
    Error.requireFormat (count ≤ bytes.length / 4) "count" "count <= rest.len() / 4"
    let (values, bytes) ← decodeElements element count bytes
    Error.requireFormat bytes.isEmpty "rest" "rest.is_empty()"
    match OrderedSet.ofSorted values with
    | .ok set => return set
    | .error failure => throw (.invalidFormat setLabel failure.message)

end Codec

end AttributeIndex
