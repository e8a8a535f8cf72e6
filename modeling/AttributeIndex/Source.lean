import AttributeIndex.Error

namespace AttributeIndex

inductive Delivery
  | chunk (bytes : Bytes)
  | interruption
  | failure (error : IoError)
  deriving DecidableEq, Repr

namespace Delivery

/-- Up to `wanted` bytes from a source, the failure that stopped it early, and what it has left. -/
def gather : (wanted : Nat) → List Delivery → Bytes × Option IoError × List Delivery
  | 0, source => ([], none, source)
  | _ + 1, [] => ([], none, [])
  | wanted + 1, interruption :: source => gather (wanted + 1) source
  | _ + 1, failure error :: source => ([], some error, failure error :: source)
  | _ + 1, chunk [] :: source => ([], none, source)
  | wanted + 1, chunk (byte :: bytes) :: source =>
    if bytes.length ≤ wanted then
      let (gathered, error, source) := gather (wanted - bytes.length) source
      (byte :: bytes ++ gathered, error, source)
    else
      (byte :: bytes.take wanted, none, chunk (bytes.drop wanted) :: source)

def fill (buffer : Bytes) (source : List Delivery) : Except IoError Nat × Bytes × List Delivery :=
  let (gathered, error, source) := gather buffer.length source
  let outcome : Except IoError Nat :=
    match error with
    | some error => .error error
    | none => .ok gathered.length
  (outcome, gathered ++ buffer.drop gathered.length, source)

end Delivery

/-- The last position plus one that a file can have. -/
def positionLimit : Nat :=
  1 <<< 63

def readAt (content : Bytes) (position count : Nat) : Except IoError Bytes :=
  if count = 0 then .ok []
  else if positionLimit ≤ position + count then .error .badPosition
  else
    match Bytes.split? count (content.drop position) with
    | some (bytes, _) => .ok bytes
    | none => .error .unexpectedEnd

end AttributeIndex
