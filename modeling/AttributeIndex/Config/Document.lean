import AttributeIndex.Config.Basic

namespace AttributeIndex.Config

inductive Value
  | text (text : String)
  | number (number : Nat)
  | null
  deriving DecidableEq, Repr

namespace Document

def skipSpace : List Char → List Char
  | [] => []
  | char :: rest =>
    if char = ' ' || char = '\t' || char = '\n' || char = '\r' then skipSpace rest
    else char :: rest

def hexNumber? (digits : List Char) : Option Nat :=
  digits.foldlM (fun number digit => (16 * number + ·) <$> Bytes.hexValue? digit) 0

def escape? : Char → Option Char
  | '"' => some '"'
  | '\\' => some '\\'
  | '/' => some '/'
  | 'b' => some '\x08'
  | 'f' => some '\x0c'
  | 'n' => some '\n'
  | 'r' => some '\r'
  | 't' => some '\t'
  | _ => none

def pair? (high low : Nat) : Option Char :=
  if 0xD800 ≤ high ∧ high < 0xDC00 ∧ 0xDC00 ≤ low ∧ low < 0xE000 then
    some (Char.ofNat (0x10000 + (high - 0xD800) * 0x400 + (low - 0xDC00)))
  else none

def single? (unit : Nat) : Option Char :=
  if 0xD800 ≤ unit ∧ unit < 0xE000 then none else some (Char.ofNat unit)

/-- Reads the rest of a text behind its opening quote. Control characters must be escaped, and
escaped surrogates come in pairs. -/
def readText : List Char → Option (List Char × List Char)
  | [] => none
  | '"' :: rest => some ([], rest)
  | '\\' :: 'u' :: a :: b :: c :: d :: '\\' :: 'u' :: e :: f :: g :: h :: rest => do
    let unit ← hexNumber? [a, b, c, d]
    match single? unit with
    | some char =>
      let (text, rest) ← readText ('\\' :: 'u' :: e :: f :: g :: h :: rest)
      return (char :: text, rest)
    | none =>
      let char ← pair? unit (← hexNumber? [e, f, g, h])
      let (text, rest) ← readText rest
      return (char :: text, rest)
  | '\\' :: 'u' :: a :: b :: c :: d :: rest => do
    let char ← single? (← hexNumber? [a, b, c, d])
    let (text, rest) ← readText rest
    return (char :: text, rest)
  | '\\' :: letter :: rest => do
    let char ← escape? letter
    let (text, rest) ← readText rest
    return (char :: text, rest)
  | char :: rest => do
    if char.toNat < 0x20 || char = '\\' then none
    let (text, rest) ← readText rest
    return (char :: text, rest)

/-! ## Values -/

def isDigit (char : Char) : Bool :=
  '0' ≤ char && char ≤ '9'

def maxNumber : Nat := UInt64.size - 1

def readNumber (chars : List Char) : Option (Nat × List Char) :=
  let digits := chars.takeWhile isDigit
  let number := digits.foldl (fun number digit => 10 * number + (digit.toNat - '0'.toNat)) 0
  if digits = [] || (digits.head? = some '0' && digits ≠ ['0']) || maxNumber < number then none
  else some (number, chars.dropWhile isDigit)

def readValue : List Char → Option (Value × List Char)
  | '"' :: rest => do
    let (text, rest) ← readText rest
    return (.text (String.ofList text), rest)
  | 'n' :: 'u' :: 'l' :: 'l' :: rest => some (.null, rest)
  | chars => do
    let (number, rest) ← readNumber chars
    return (.number number, rest)

def readMember (chars : List Char) : Option ((String × Value) × List Char) :=
  match chars with
  | '"' :: rest => do
    let (name, rest) ← readText rest
    match skipSpace rest with
    | ':' :: rest =>
      let (value, rest) ← readValue (skipSpace rest)
      return ((String.ofList name, value), rest)
    | _ => none
  | _ => none

def readItems {α : Type} (item : List Char → Option (α × List Char)) (close : Char) :
    (limit : Nat) → List Char → Option (List α × List Char)
  | 0, _ => none
  | limit + 1, chars => do
    let (first, rest) ← item (skipSpace chars)
    match skipSpace rest with
    | ',' :: rest =>
      let (others, rest) ← readItems item close limit rest
      return (first :: others, rest)
    | char :: rest => if char = close then return ([first], rest) else none
    | [] => none

def readList {α : Type} (item : List Char → Option (α × List Char)) (close : Char)
    (chars : List Char) : Option (List α × List Char) :=
  match skipSpace chars with
  | char :: rest =>
    if char = close then some ([], rest) else readItems item close chars.length (char :: rest)
  | [] => none

/-! ## Settings -/

structure Draft where
  attributeId : Option String
  cacheSize : Option Nat
  duplicateLimit : Option Nat
  workingDirectory : Option (Option String)

namespace Draft

def empty : Draft :=
  ⟨none, none, none, none⟩

def names : List String :=
  ["attribute_id", "cache_size", "duplicate_limit", "working_directory"]

def add (draft : Draft) : String × Value → Option Draft
  | ("attribute_id", .text text) =>
    if draft.attributeId.isSome then none else some { draft with attributeId := text }
  | ("cache_size", .number number) =>
    if draft.cacheSize.isSome then none else some { draft with cacheSize := number }
  | ("duplicate_limit", .number number) =>
    if draft.duplicateLimit.isSome then none else some { draft with duplicateLimit := number }
  | ("working_directory", .text text) =>
    if draft.workingDirectory.isSome then none
    else some { draft with workingDirectory := some (some text) }
  | ("working_directory", .null) =>
    if draft.workingDirectory.isSome then none
    else some { draft with workingDirectory := some none }
  | _ => none

def complete? (draft : Draft) : Option Config := do
  return {
    attributeId := ← draft.attributeId
    cacheSize := draft.cacheSize.getD defaultCacheSize
    duplicateLimit := draft.duplicateLimit.getD defaultDuplicateLimit
    workingDirectory := draft.workingDirectory.getD none }

end Draft

def readObject (chars : List Char) : Option (List (String × Value) × List Char) :=
  readList readMember '\x7d' chars

def readArray (chars : List Char) : Option (List (String × Value) × List Char) := do
  let (values, rest) ← readList readValue ']' chars
  if Draft.names.length < values.length then none
  else return (Draft.names.zip values, rest)

def members? (document : String) : Option (List (String × Value)) := do
  let (members, rest) ←
    match skipSpace document.toList with
    | '\x7b' :: rest => readObject rest
    | '[' :: rest => readArray rest
    | _ => none
  if skipSpace rest = [] then return members else none

def read? (document : String) : Option Config := do
  (← (← members? document).foldlM Draft.add .empty).complete?

end Document

def documentError : Error :=
  .configuration "json" "not a configuration document"

def ofDocument (document : String) : Except Error Config :=
  match Document.read? document with
  | none => .error documentError
  | some config => do
    config.validate
    return config

end AttributeIndex.Config
