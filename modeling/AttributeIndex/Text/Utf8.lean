import AttributeIndex.Bytes

namespace AttributeIndex.Utf8

structure Fault where
  soundBytes : Nat
  length? : Option Nat
  deriving DecidableEq, Repr

namespace Fault

def message (fault : Fault) : String :=
  match fault.length? with
  | some length =>
    "invalid utf-8 sequence of " ++ toString length ++ " bytes from index " ++
      toString fault.soundBytes
  | none => "incomplete utf-8 byte sequence from index " ++ toString fault.soundBytes

end Fault

structure Range where
  low : UInt8
  high : UInt8

namespace Range

def has (range : Range) (byte : UInt8) : Bool :=
  range.low ≤ byte && byte ≤ range.high

end Range

def continuation : Range :=
  ⟨0x80, 0xBF⟩

/-- The bytes that may follow a first byte, one range a place. Overlong forms, surrogates and values
past the last code point are excluded at the second byte. -/
def following? (first : UInt8) : Option (List Range) :=
  if first < 0x80 then some []
  else if (⟨0xC2, 0xDF⟩ : Range).has first then some [continuation]
  else if first = 0xE0 then some [⟨0xA0, 0xBF⟩, continuation]
  else if first = 0xED then some [⟨0x80, 0x9F⟩, continuation]
  else if (⟨0xE1, 0xEF⟩ : Range).has first then some [continuation, continuation]
  else if first = 0xF0 then some [⟨0x90, 0xBF⟩, continuation, continuation]
  else if (⟨0xF1, 0xF3⟩ : Range).has first then some [continuation, continuation, continuation]
  else if first = 0xF4 then some [⟨0x80, 0x8F⟩, continuation, continuation]
  else none

/-- The first fault of bytes that have `sound` sound bytes before them. After a first byte, `awaited`
holds the ranges of the places still to come and `taken` the number of bytes of the sequence. -/
def faultFrom? (sound taken : Nat) : List Range → Bytes → Option Fault
  | [], [] => none
  | _ :: _, [] => some ⟨sound, none⟩
  | range :: awaited, byte :: rest =>
    if range.has byte then
      if awaited.isEmpty then faultFrom? (sound + taken + 1) 0 [] rest
      else faultFrom? sound (taken + 1) awaited rest
    else some ⟨sound, some taken⟩
  | [], byte :: rest =>
    match following? byte with
    | none => some ⟨sound, some 1⟩
    | some [] => faultFrom? (sound + 1) 0 [] rest
    | some ranges => faultFrom? sound 1 ranges rest

def firstFault (bytes : Bytes) : Fault :=
  (faultFrom? 0 0 [] bytes).getD ⟨bytes.length, none⟩

def encode (text : String) : Bytes :=
  text.toUTF8.data.toList

def decode (bytes : Bytes) : Except Fault String :=
  match String.fromUTF8? bytes.toByteArray with
  | some text => .ok text
  | none => .error (firstFault bytes)

end AttributeIndex.Utf8
