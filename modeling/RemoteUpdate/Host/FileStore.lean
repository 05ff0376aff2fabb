import RemoteUpdate.Flash.Cells

/-!
# Files

A `FileStore` is a tree of files. Paths are text; walking one meets every directory on the way, so a path
through something that is no directory fails as it would on disk.
-/

namespace RemoteUpdate

/-- Why a file could not be opened, read or written. -/
inductive FileError where
  | notFound
  | notDirectory
  | isDirectory
  | nameTooLong
  /-- The path holds a zero character. -/
  | zeroInPath
  /-- The file ends before what has been written to it. -/
  | endsEarly
  /-- The file is longer than the flash device it stands for. -/
  | tooLarge (size capacity : Nat)
deriving DecidableEq, Repr

namespace FileError

/-- The word for the kind of failure. -/
def kind : FileError → String
  | notFound => "NotFound"
  | notDirectory => "NotADirectory"
  | isDirectory => "IsADirectory"
  | nameTooLong => "InvalidFilename"
  | zeroInPath | tooLarge _ _ => "InvalidInput"
  | endsEarly => "UnexpectedEof"

def message : FileError → String
  | notFound => "No such file or directory (os error 2)"
  | notDirectory => "Not a directory (os error 20)"
  | isDirectory => "Is a directory (os error 21)"
  | nameTooLong => "File name too long (os error 36)"
  | zeroInPath => "file name contained an unexpected NUL byte"
  | endsEarly => "failed to fill whole buffer"
  | tooLarge size capacity => s!"flash file is {size} bytes, larger than {capacity}"

end FileError

/-- The names on the way from the top directory. -/
abbrev FileLocation := List String

/-- Where a name in a path leads to from a location. -/
def FileLocation.enter (l : FileLocation) (name : String) : FileLocation :=
  if name = "" ∨ name = "." then l
  else if name = ".." then l.dropLast
  else l ++ [name]

/-- What is at a location. -/
inductive FileNode where
  | file (contents : ByteArray)
  | directory
  /-- Empty whatever is written to it. -/
  | sink
  | missing

/-- Files by location. The directories on the way to a file are there too. -/
structure FileStore where
  files : List (FileLocation × ByteArray) := []
  /-- Directories that are there even without files in them. -/
  directories : List FileLocation := []
  /-- Where paths start that do not start with a slash. -/
  workingDirectory : FileLocation := []

namespace FileStore

/-- The longest name of a file or directory, in bytes. -/
def longestName : Nat := 255

/-- The longest path, in bytes. -/
def longestPath : Nat := 4095

/-- Where the null device is. -/
def sinkLocation : FileLocation := ["dev", "null"]

/-- What is at a location. -/
def node (s : FileStore) (l : FileLocation) : FileNode :=
  if l = sinkLocation then .sink
  else
    match s.files.lookup l with
    | some contents => .file contents
    | none =>
      if (sinkLocation :: s.directories ++ s.files.map (·.1)).any l.isPrefixOf then .directory
      else .missing

/-- The location that the names of a path lead to from a location. -/
def walk (s : FileStore) : FileLocation → List String → Except FileError FileLocation
  | l, [] => .ok l
  | l, name :: rest =>
    match s.node l with
    | .missing => .error .notFound
    | .file _ | .sink => .error .notDirectory
    | .directory =>
      if longestName < name.utf8ByteSize then .error .nameTooLong
      else s.walk (FileLocation.enter l name) rest

def start (s : FileStore) (path : String) : FileLocation :=
  if path.toList.head? = some '/' then [] else s.workingDirectory

/-- The names in a path, unless no file can have it. -/
def names (path : String) : Except FileError (List String) :=
  if path.toList.contains (Char.ofNat 0) then .error .zeroInPath
  else if path = "" then .error .notFound
  else if longestPath < path.utf8ByteSize then .error .nameTooLong
  else .ok ((path.toList.splitOn '/').map String.ofList)

def locate (s : FileStore) (path : String) : Except FileError FileLocation := do
  s.walk (s.start path) (← names path)

/-- The location that a path leads to, for a file that is made if it is missing. A name with a slash behind
it is not the name of a file. -/
def locateNew (s : FileStore) (path : String) : Except FileError FileLocation := do
  let l := (← names path).reverse
  match l.head?, l.dropWhile (· == "") with
  | some "", last :: above =>
    discard (s.walk (s.start path) (above.reverse ++ ["."]))
    if last = "." ∨ last = ".." then s.locate path else .error .isDirectory
  | _, _ => s.locate path

/-- There is a file or a directory at a path. -/
def hasPath (s : FileStore) (path : String) : Bool :=
  match s.locate path with
  | .error _ => false
  | .ok l => match s.node l with
    | .missing => false
    | _ => true

def put (s : FileStore) (l : FileLocation) (contents : ByteArray) : FileStore :=
  { s with files := (l, contents) :: s.files.filter (·.1 != l) }

/-- The contents of the file at a path. -/
def read (s : FileStore) (path : String) : Except FileError ByteArray := do
  match s.node (← s.locate path) with
  | .file contents => .ok contents
  | .sink => .ok .empty
  | .directory => .error .isDirectory
  | .missing => .error .notFound

/-- Makes or replaces the file at a path. -/
def write (s : FileStore) (path : String) (contents : ByteArray) : Except FileError FileStore := do
  let l ← s.locateNew path
  match s.node l with
  | .directory => .error .isDirectory
  | .sink => .ok s
  | _ => .ok (s.put l contents)

/-- The first bytes of a file, if it has so many. -/
def readFront (s : FileStore) (l : FileLocation) (length : Nat) : Except FileError ByteArray :=
  match s.node l with
  | .file contents =>
    if length ≤ contents.size then .ok (contents.extract 0 length) else .error .endsEarly
  | .sink | .missing => if length = 0 then .ok .empty else .error .endsEarly
  | .directory => .error .isDirectory

/-- Puts bytes over those of a file from an address on. A file that ends before is filled up with
zeros. -/
def patch (s : FileStore) (l : FileLocation) (address : Nat) (bytes : ByteArray) : FileStore :=
  let old := match s.node l with
    | .file contents => contents
    | _ => .empty
  let room := old ++ Cells.filled 0 (address - old.size)
  s.put l (Cells.patch room address bytes)

end FileStore

end RemoteUpdate
