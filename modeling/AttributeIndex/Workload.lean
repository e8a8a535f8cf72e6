import AttributeIndex.Log.Checksum

namespace AttributeIndex

structure Random where
  state : UInt64

abbrev Drawing (α : Type) := StateM Random α

namespace Random

def bits : Drawing UInt64 := do
  let state := (← get).state + 0x2d358dccaa6c78a5
  set (Random.mk state)
  return Checksum.fold state (state ^^^ 0x8bb84b93962eacc9)

/-- How often a draw that would favour some numbers is repeated. More repetitions than this do not
occur: each is less likely than one in two. -/
def maxRepeats : Nat := 256

def below.retry (bound threshold : Nat) : (repeats : Nat) → (product : Nat) → Drawing Nat
  | 0, product => return product / UInt64.size
  | repeats + 1, product =>
    if product % UInt64.size < threshold then do
      below.retry bound threshold repeats ((← bits).toNat * bound)
    else return product / UInt64.size

def below (bound : Nat) : Drawing Nat := do
  below.retry bound (UInt64.size % bound) maxRepeats ((← bits).toNat * bound)

def unit.retry : (repeats : Nat) → Drawing Float
  | 0 => return 0
  | repeats + 1 => do
    let number := ((← bits) >>> 1).toFloat / Float.ofNat (1 <<< 63)
    if number < 1 then return number else unit.retry repeats

def unit : Drawing Float :=
  unit.retry maxRepeats

def shuffle {α : Type} (items : Array α) : Drawing (Array α) :=
  (List.range' 1 (items.size - 1)).foldlM
    (fun items index => return items.swapIfInBounds index (← below (index + 1))) items

end Random

namespace Workload

def shuffledIds (count : Nat) (seed : UInt64) : List UInt64 :=
  let ids := (List.range' 1 count).map UInt64.ofNat
  ((Random.shuffle ids.toArray).run ⟨seed⟩).1.toList

def fourDigits (number : Nat) : String :=
  let digits := toString number
  String.ofList (List.replicate (4 - digits.length) '0') ++ digits

def vocabulary (stem : String) (size : Nat) : List String :=
  (List.range size).map fun index => stem ++ "-" ++ fourDigits index

def skewedPairs (ids : List UInt64) (values : Array String) (seed : UInt64) :
    List (String × UInt64) :=
  let pairs : Drawing (List (String × UInt64)) := ids.mapM fun id => do
    let number ← Random.unit
    let index := (number * number * Float.ofNat values.size).toUInt64.toNat
    return (values[min index (values.size - 1)]?.getD "", id)
  (pairs.run ⟨seed⟩).1

end Workload

end AttributeIndex
