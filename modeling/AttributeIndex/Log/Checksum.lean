import AttributeIndex.Bytes

/-!
The 64-bit checksum at the end of every log frame, XXH3 with seed zero.

Inputs of up to 16, 128 and 240 bytes are mixed pair by pair with words of a fixed secret; longer
ones run through eight lanes in stripes of 64 bytes. All arithmetic is modulo two to the 64.
-/

namespace AttributeIndex.Checksum

def secret : ByteArray := ⟨#[
  0xb8, 0xfe, 0x6c, 0x39, 0x23, 0xa4, 0x4b, 0xbe, 0x7c, 0x01, 0x81, 0x2c, 0xf7, 0x21, 0xad, 0x1c,
  0xde, 0xd4, 0x6d, 0xe9, 0x83, 0x90, 0x97, 0xdb, 0x72, 0x40, 0xa4, 0xa4, 0xb7, 0xb3, 0x67, 0x1f,
  0xcb, 0x79, 0xe6, 0x4e, 0xcc, 0xc0, 0xe5, 0x78, 0x82, 0x5a, 0xd0, 0x7d, 0xcc, 0xff, 0x72, 0x21,
  0xb8, 0x08, 0x46, 0x74, 0xf7, 0x43, 0x24, 0x8e, 0xe0, 0x35, 0x90, 0xe6, 0x81, 0x3a, 0x26, 0x4c,
  0x3c, 0x28, 0x52, 0xbb, 0x91, 0xc3, 0x00, 0xcb, 0x88, 0xd0, 0x65, 0x8b, 0x1b, 0x53, 0x2e, 0xa3,
  0x71, 0x64, 0x48, 0x97, 0xa2, 0x0d, 0xf9, 0x4e, 0x38, 0x19, 0xef, 0x46, 0xa9, 0xde, 0xac, 0xd8,
  0xa8, 0xfa, 0x76, 0x3f, 0xe3, 0x9c, 0x34, 0x3f, 0xf9, 0xdc, 0xbb, 0xc7, 0xc7, 0x0b, 0x4f, 0x1d,
  0x8a, 0x51, 0xe0, 0x4b, 0xcd, 0xb4, 0x59, 0x31, 0xc8, 0x9f, 0x7e, 0xc9, 0xd9, 0x78, 0x73, 0x64,
  0xea, 0xc5, 0xac, 0x83, 0x34, 0xd3, 0xeb, 0xc3, 0xc5, 0x81, 0xa0, 0xff, 0xfa, 0x13, 0x63, 0xeb,
  0x17, 0x0d, 0xdd, 0x51, 0xb7, 0xf0, 0xda, 0x49, 0xd3, 0x16, 0x55, 0x26, 0x29, 0xd4, 0x68, 0x9e,
  0x2b, 0x16, 0xbe, 0x58, 0x7d, 0x47, 0xa1, 0xfc, 0x8f, 0xf8, 0xb8, 0xd1, 0x7a, 0xd0, 0x31, 0xce,
  0x45, 0xcb, 0x3a, 0x8f, 0x95, 0x16, 0x04, 0x28, 0xaf, 0xd7, 0xfb, 0xca, 0xbb, 0x4b, 0x40, 0x7e]⟩

def prime32₁ : UInt64 := 0x9E3779B1
def prime32₂ : UInt64 := 0x85EBCA77
def prime32₃ : UInt64 := 0xC2B2AE3D
def prime64₁ : UInt64 := 0x9E3779B185EBCA87
def prime64₂ : UInt64 := 0xC2B2AE3D27D4EB4F
def prime64₃ : UInt64 := 0x165667B19E3779F9
def prime64₄ : UInt64 := 0x85EBCA77C2B2AE63
def prime64₅ : UInt64 := 0x27D4EB2F165667C5

def fold (left right : UInt64) : UInt64 :=
  let product := left.toNat * right.toNat
  UInt64.ofNat product ^^^ UInt64.ofNat (product / UInt64.size)

def byteAt (data : ByteArray) (index : Nat) : UInt64 :=
  if h : index < data.size then data[index].toUInt64 else 0

def wordAt (data : ByteArray) (index : Nat) : UInt64 :=
  byteAt data index ||| byteAt data (index + 1) <<< 8 ||| byteAt data (index + 2) <<< 16 |||
    byteAt data (index + 3) <<< 24 ||| byteAt data (index + 4) <<< 32 |||
    byteAt data (index + 5) <<< 40 ||| byteAt data (index + 6) <<< 48 |||
    byteAt data (index + 7) <<< 56

def secretAt (index : Nat) : UInt64 :=
  wordAt secret index

def swapBytes (word : UInt64) : UInt64 :=
  (List.range 8).foldl (fun (swapped : UInt64) place =>
    swapped <<< 8 ||| (word >>> (8 * UInt64.ofNat place) &&& 0xff)) 0

def avalanche (sum : UInt64) : UInt64 :=
  let sum := sum ^^^ sum >>> 37
  let sum := sum * 0x165667919E3779F9
  sum ^^^ sum >>> 32

def mix (data : ByteArray) (index key : Nat) : UInt64 :=
  fold (wordAt data index ^^^ secretAt key) (wordAt data (index + 8) ^^^ secretAt (key + 8))

def sumOver (first count : Nat) (term : Nat → UInt64) : UInt64 :=
  (List.range' first count).foldl (fun sum index => sum + term index) 0

def ofShort (data : ByteArray) : UInt64 :=
  let low := wordAt data 0 ^^^ secretAt 24 ^^^ secretAt 32
  let high := wordAt data (data.size - 8) ^^^ secretAt 40 ^^^ secretAt 48
  avalanche (UInt64.ofNat data.size + swapBytes low + high + fold low high)

def ofMedium (data : ByteArray) : UInt64 :=
  let size := data.size
  avalanche (UInt64.ofNat size * prime64₁ + sumOver 0 ((size - 1) / 32 + 1) fun pair =>
    mix data (16 * pair) (32 * pair) + mix data (size - 16 * (pair + 1)) (32 * pair + 16))

def ofLarge (data : ByteArray) : UInt64 :=
  let size := data.size
  let head := avalanche (UInt64.ofNat size * prime64₁ +
    sumOver 0 8 fun block => mix data (16 * block) (16 * block))
  avalanche (head +
    sumOver 8 (size / 16 - 8) (fun block => mix data (16 * block) (16 * (block - 8) + 3)) +
    mix data (size - 16) (136 - 17))

/-! ## Inputs of more than 240 bytes -/

abbrev Lanes := Vector UInt64 8

def initialLanes : Lanes :=
  #v[prime32₃, prime64₁, prime64₂, prime64₃, prime64₄, prime32₂, prime64₅, prime32₁]

def accumulate (data : ByteArray) (index key : Nat) (lanes : Lanes) : Lanes :=
  Vector.ofFn fun lane : Fin 8 =>
    let mixed := wordAt data (index + 8 * lane) ^^^ secretAt (key + 8 * lane)
    let low : UInt64 := mixed &&& 0xffffffff
    let high : UInt64 := mixed >>> 32
    let neighbour := if lane.val % 2 = 0 then lane.val + 1 else lane.val - 1
    lanes[lane] + wordAt data (index + 8 * neighbour) + low * high

def scramble (lanes : Lanes) : Lanes :=
  Vector.ofFn fun lane : Fin 8 =>
    let sum := lanes[lane]
    (sum ^^^ sum >>> 47 ^^^ secretAt (128 + 8 * lane)) * prime32₁

def accumulateStripes (data : ByteArray) (index count : Nat) (lanes : Lanes) : Lanes :=
  (List.range count).foldl
    (fun lanes stripe => accumulate data (index + 64 * stripe) (8 * stripe) lanes) lanes

def ofStriped (data : ByteArray) : UInt64 :=
  let size := data.size
  let blocks := (size - 1) / 1024
  let lanes := (List.range blocks).foldl
    (fun lanes block => scramble (accumulateStripes data (1024 * block) 16 lanes)) initialLanes
  let lanes := accumulateStripes data (1024 * blocks) ((size - 1 - 1024 * blocks) / 64) lanes
  let lanes := accumulate data (size - 64) (192 - 64 - 7) lanes
  let pair (index : Fin 4) : UInt64 :=
    fold (lanes[2 * index.val] ^^^ secretAt (11 + 16 * index))
      (lanes[2 * index.val + 1] ^^^ secretAt (11 + 16 * index + 8))
  avalanche (UInt64.ofNat size * prime64₁ + (pair 0 + pair 1 + pair 2 + pair 3))

def ofBytes (bytes : Bytes) : UInt64 :=
  let data := bytes.toByteArray
  if data.size ≤ 16 then ofShort data
  else if data.size ≤ 128 then ofMedium data
  else if data.size ≤ 240 then ofLarge data
  else ofStriped data

end AttributeIndex.Checksum
