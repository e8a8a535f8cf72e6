import AttributeIndex.Bytes

namespace AttributeIndex

inductive IoKind
  | other
  | invalidData
  | invalidInput
  | unexpectedEnd
  | notFound
  | notADirectory
  | isADirectory
  | alreadyExists
  | invalidFileName
  deriving DecidableEq, Repr

inductive IoError
  | closed (table : String)
  | failed (reason : String)
  | violated (condition : String)
  | unknownOperation (code : UInt8)
  | checksumMismatch
  | unexpectedEnd
  | badRecordKey
  | badPosition
  | noSuchFile
  | notADirectory
  | isADirectory
  | alreadyExists
  | nameTooLong
  | nulInPath
  deriving DecidableEq, Repr

namespace IoError

def kind : IoError → IoKind
  | closed _ => .other
  | failed _ => .other
  | violated _ => .invalidInput
  | unknownOperation _ => .invalidData
  | checksumMismatch => .invalidData
  | unexpectedEnd => .unexpectedEnd
  | badRecordKey => .invalidData
  | badPosition => .invalidInput
  | noSuchFile => .notFound
  | notADirectory => .notADirectory
  | isADirectory => .isADirectory
  | alreadyExists => .alreadyExists
  | nameTooLong => .invalidFileName
  | nulInPath => .invalidInput

def message : IoError → String
  | closed table => "table '" ++ table ++ "' has been closed"
  | failed reason => reason
  | violated condition => condition
  | unknownOperation code => "unknown table log op code " ++ toString code.toNat
  | checksumMismatch => "table log frame checksum mismatch"
  | unexpectedEnd => "failed to fill whole buffer"
  | badRecordKey => "overflow record key"
  | badPosition => "Invalid argument (os error 22)"
  | noSuchFile => "No such file or directory (os error 2)"
  | notADirectory => "Not a directory (os error 20)"
  | isADirectory => "Is a directory (os error 21)"
  | alreadyExists => "File exists (os error 17)"
  | nameTooLong => "File name too long (os error 36)"
  | nulInPath => "file name contained an unexpected NUL byte"

def require (holds : Bool) (condition : String) : Except IoError Unit :=
  if holds then .ok () else .error (.violated condition)

end IoError

inductive Error
  | invalidPosition (element : String)
  | closed (element : String)
  | malformedRedirect (bytes : Bytes)
  | notFound (element : String)
  | configuration (name reason : String)
  | invalidArgument (name reason : String)
  | invalidOperation (name : String)
  | invalidFormat (element reason : String)
  | io (element : String) (source : IoError)
  deriving DecidableEq, Repr

namespace Error

def ofIo (source : IoError) : Error :=
  .io "" source

def message : Error → String
  | invalidPosition element => "cursor for '" ++ element ++ "' is not positioned on an element"
  | closed element => "'" ++ element ++ "' has been closed"
  | malformedRedirect bytes =>
    "not a serialized redirect (" ++ toString bytes.length ++ " bytes): " ++ bytes.toHex
  | notFound element => "'" ++ element ++ "' not found"
  | configuration name reason => "invalid configuration " ++ name ++ ": " ++ reason
  | invalidArgument name reason => "invalid argument " ++ name ++ ": " ++ reason
  | invalidOperation name => "invalid operation " ++ name
  | invalidFormat element reason =>
    "invalid storage format for '" ++ element ++ "': " ++ reason
  | io element source => "IO error for '" ++ element ++ "': " ++ source.message

def isInvalidPosition : Error → Bool
  | invalidPosition _ => true
  | _ => false

def isClosed : Error → Bool
  | closed _ => true
  | _ => false

def isMalformedRedirect : Error → Bool
  | malformedRedirect _ => true
  | _ => false

def isNotFound : Error → Bool
  | notFound _ => true
  | _ => false

def requireArgument (holds : Bool) (name condition : String) : Except Error Unit :=
  if holds then .ok () else .error (.invalidArgument name condition)

def requireFormat (holds : Bool) (name condition : String) : Except Error Unit :=
  if holds then .ok () else .error (.invalidFormat name condition)

def requireSetting (holds : Bool) (name condition : String) : Except Error Unit :=
  if holds then .ok () else .error (.configuration name condition)

end Error

end AttributeIndex
