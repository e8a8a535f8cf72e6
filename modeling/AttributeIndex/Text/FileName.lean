namespace AttributeIndex.FileName

def splitSlashes : List Char → List (List Char)
  | [] => [[]]
  | char :: rest =>
    if char = '/' then [] :: splitSlashes rest
    else
      match splitSlashes rest with
      | [] => [[char]]
      | piece :: pieces => (char :: piece) :: pieces

def components (path : String) : List String :=
  (splitSlashes path.toList).map String.ofList

def last (path : String) : String :=
  (components path).getLastD ""

def isAbsolute (path : String) : Bool :=
  path.toList.head? = some '/'

def endsInSlash (path : String) : Bool :=
  path.toList.getLast? = some '/'

def trimEnd (components : List String) : List String :=
  (components.reverse.dropWhile fun name => name = "" || name = ".").reverse

def parent (path : String) : String :=
  "/".intercalate (trimEnd (trimEnd (components path)).dropLast)

def isTooLong (name : String) : Bool :=
  255 < name.utf8ByteSize

def isTooLongPath (path : String) : Bool :=
  4095 < path.utf8ByteSize

/-- A path taken relative to a directory. An absolute path stands for itself, and no slash is added
behind an empty directory or a slash. -/
def join (directory path : String) : String :=
  if isAbsolute path then path
  else if directory.isEmpty || endsInSlash directory then directory ++ path
  else directory ++ "/" ++ path

/-- The characters before the last dot, if there are any. A name that begins with its only dot has
no extension. -/
def stem (name : List Char) : List Char :=
  match name.reverse.dropWhile (· ≠ '.') with
  | [] | ['.'] => name
  | _ :: reversed => reversed.reverse

/-- A path whose last component has the given extension instead of its own. If only `..` is left
without its own extension, that is the directory above, which takes no other. -/
def withExtension (path extension : String) : String :=
  let name := (last path).toList
  let directory := path.toList.take (path.length - name.length)
  if stem name = ['.'] then String.ofList (directory ++ ['.', '.'])
  else String.ofList (directory ++ stem name ++ '.' :: extension.toList)

end AttributeIndex.FileName
