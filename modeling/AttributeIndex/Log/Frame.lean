import AttributeIndex.Error
import AttributeIndex.Log.Checksum

namespace AttributeIndex

inductive FrameOp
  | put
  | remove
  deriving DecidableEq, Repr

namespace FrameOp

def code : FrameOp → UInt8
  | put => 1
  | remove => 2

def ofCode? (code : UInt8) : Option FrameOp :=
  if code = 1 then some put else if code = 2 then some remove else none

@[simp]
theorem ofCode?_code (op : FrameOp) : ofCode? op.code = some op := by
  cases op <;> rfl

end FrameOp

structure Frame where
  op : FrameOp
  key : Bytes
  value : Bytes
  deriving DecidableEq, Repr

namespace Frame

def headerSize : Nat := 9

def checksumSize : Nat := 8

def maxFieldLength : Nat := UInt32.size - 1

def lengthOf (keyLength valueLength : Nat) : Nat :=
  headerSize + keyLength + valueLength + checksumSize

def length (frame : Frame) : Nat :=
  lengthOf frame.key.length frame.value.length

def content (frame : Frame) : Bytes :=
  frame.op.code :: Bytes.ofNat 4 frame.key.length ++ Bytes.ofNat 4 frame.value.length ++
    frame.key ++ frame.value

def encode (frame : Frame) : Bytes :=
  frame.content ++ Bytes.ofUInt64 (Checksum.ofBytes frame.content)

def write (frame : Frame) : Except IoError Bytes := do
  IoError.require (frame.key.length ≤ maxFieldLength) "key.len() <= MAX_FIELD_LEN"
  IoError.require (frame.value.length ≤ maxFieldLength) "value.len() <= MAX_FIELD_LEN"
  return frame.encode

inductive Reading
  | frame (frame : Frame) (rest : Bytes)
  | ended
  | torn
  deriving DecidableEq, Repr

def readBody (op : FrameOp) (header : Bytes) (keyLength valueLength : Nat) (bytes : Bytes) :
    Except IoError Reading :=
  match bytes.split? (keyLength + valueLength) with
  | none => .error .unexpectedEnd
  | some (body, bytes) =>
    match bytes.split? checksumSize with
    | none => .error .unexpectedEnd
    | some (stored, bytes) =>
      if Checksum.ofBytes (header ++ body) = stored.toUInt64 then
        .ok (.frame ⟨op, body.take keyLength, body.drop keyLength⟩ bytes)
      else .error .checksumMismatch

/-- Reads the front of some bytes, of which `remaining` belong to the log. The operation code is
judged before the lengths, so a header with an unknown one is damaged and not torn. -/
def read (bytes : Bytes) (remaining : Nat) : Except IoError Reading :=
  match bytes.split? headerSize with
  | none => .ok (if bytes.isEmpty then .ended else .torn)
  | some (header, bytes) =>
    let code := header.headD 0
    let keyLength := Bytes.toNat ((header.drop 1).take 4)
    let valueLength := Bytes.toNat (header.drop 5)
    match FrameOp.ofCode? code with
    | none => .error (.unknownOperation code)
    | some op =>
      if remaining < lengthOf keyLength valueLength then .ok .torn
      else readBody op header keyLength valueLength bytes

@[simp]
theorem length_encode (frame : Frame) : frame.encode.length = frame.length := by
  simp [encode, content, length, lengthOf, headerSize, checksumSize]
  omega

theorem length_rest_readBody {op : FrameOp} {header : Bytes} {keyLength valueLength : Nat}
    {bytes : Bytes} {frame : Frame} {rest : Bytes}
    (read : readBody op header keyLength valueLength bytes = .ok (.frame frame rest)) :
    rest.length + checksumSize ≤ bytes.length := by
  simp only [readBody, Bytes.split?_eq] at read
  grind

theorem length_rest_lt {bytes : Bytes} {remaining : Nat} {frame : Frame} {rest : Bytes}
    (whole : read bytes remaining = .ok (.frame frame rest)) : rest.length < bytes.length := by
  simp only [read, Bytes.split?_eq] at whole
  split at whole
  · grind
  · rename_i header body found
    split at found
    · split at whole
      · simp at whole
      · split at whole
        · simp at whole
        · have shorter := length_rest_readBody whole
          simp only [Option.some.injEq, Prod.mk.injEq] at found
          obtain ⟨_, rfl⟩ := found
          simp [checksumSize] at shorter
          omega
    · simp at found

def readAll (bytes : Bytes) (remaining : Nat) : List Frame × Except IoError Reading :=
  match _whole : read bytes remaining with
  | .ok (.frame frame rest) =>
    let (frames, last) := readAll rest (remaining - frame.length)
    (frame :: frames, last)
  | last => ([], last)
termination_by bytes.length
decreasing_by exact length_rest_lt _whole

end Frame

end AttributeIndex
