import StateGen.Text.Utf8

/-!
# File systems

A file system maps locations, which are lists of names from the root on, to files and directories.
Paths are walked name by name as the operating system does it, from the root if they start with a
slash and from the working directory if they do not: every name but the last has to lead to a
directory, `.` stays, and `..` goes up, but not above the root. Operations either succeed or fail
with the cause and change nothing.
-/

namespace StateGen

/-- Why an operation on files fails. -/
inductive FileError where
  | notFound
  | isDirectory
  | notDirectory
  | busy
  | nameTooLong
  | nulInPath
  | invalidUtf8
  /-- A failure of the system that has no case of its own here. -/
  | other (text : String)
deriving DecidableEq, Repr

/-- The text of a failure. -/
def FileError.message : FileError → String
  | .notFound => "No such file or directory (os error 2)"
  | .isDirectory => "Is a directory (os error 21)"
  | .notDirectory => "Not a directory (os error 20)"
  | .busy => "Device or resource busy (os error 16)"
  | .nameTooLong => "File name too long (os error 36)"
  | .nulInPath => "file name contained an unexpected NUL byte"
  | .invalidUtf8 => "stream did not contain valid UTF-8"
  | .other text => text

/-- What a location holds. -/
inductive FileSystem.Entry where
  | file (bytes : List UInt8)
  | directory
deriving DecidableEq, Repr

/-- Names from the root on; the root itself has none. -/
abbrev Location := List String

/-- Files and directories. -/
structure FileSystem where
  entries : List (Location × FileSystem.Entry) := []
  /-- Where relative paths start; if nothing is said about it, in a directory for scratch files. -/
  workingDirectory : Location := ["tmp", "work"]

namespace FileSystem

/-- Whether a location is the working directory or lies above it, as the root always does. -/
def isAbove (fs : FileSystem) (loc : Location) : Bool := loc.isPrefixOf fs.workingDirectory

/-- What stands at a location; the working directory and those above it are directories. -/
def lookup (fs : FileSystem) (loc : Location) : Option Entry :=
  if fs.isAbove loc then some .directory else fs.entries.lookup loc

/-- Put an entry at a location in place of what stood there. -/
def put (fs : FileSystem) (loc : Location) (entry : Entry) : FileSystem :=
  { fs with entries := (loc, entry) :: fs.entries.filter (·.1 ≠ loc) }

/-- Take away what stands at a location. -/
def erase (fs : FileSystem) (loc : Location) : FileSystem :=
  { fs with entries := fs.entries.filter (·.1 ≠ loc) }

/-! ## Paths -/

/-- Cut at every slash and leave out empty names. -/
def names (path : String) : List String :=
  (path.toList.splitOnP (· == '/')).filter (!·.isEmpty) |>.map String.ofList

/-- The longest name in bytes. -/
def maxNameLength : Nat := 255

/-- The longest path in bytes. -/
def maxPathLength : Nat := 4095

/-- Whether a path starts at the root. -/
def isAbsolute (path : String) : Bool := path.toList.head? == some '/'

/-- Where a path starts. -/
def base (fs : FileSystem) (path : String) : Location :=
  if isAbsolute path then [] else fs.workingDirectory

/-- Where a name leads from a location; above the root there is nothing. -/
def step (here : Location) (name : String) : Location :=
  if name = "." then here
  else if name = ".." then here.dropLast
  else here ++ [name]

/-- Go through directories, name by name. -/
def walk (fs : FileSystem) : Location → List String → Except FileError Location
  | here, [] => .ok here
  | here, name :: rest =>
    if maxNameLength < name.utf8ByteSize then .error .nameTooLong
    else
      match fs.lookup (step here name) with
      | none => .error .notFound
      | some (.file _) => .error .notDirectory
      | some .directory => walk fs (step here name) rest

/-- A path whose last name is still to be looked up. -/
structure Target where
  /-- Where the whole path leads. -/
  location : Location
  /-- Whether the path does not name what it leads to: its last name is `.` or `..`, or it has no
  names and leads to the root. -/
  isNameless : Bool
  /-- Whether the path ends with a slash. -/
  hasSlash : Bool

/-- Walk a path up to its last name. The length of the path is looked at before anything that it
names. Without names it leads to the root, or nowhere if it is empty. -/
def target (fs : FileSystem) (path : String) : Except FileError Target :=
  if path.toList.contains '\x00' then .error .nulInPath
  else if maxPathLength < path.utf8ByteSize then .error .nameTooLong
  else
    match (names path).getLast? with
    | none => if isAbsolute path then .ok ⟨[], true, true⟩ else .error .notFound
    | some last => do
      let here ← fs.walk (fs.base path) (names path).dropLast
      if maxNameLength < last.utf8ByteSize then throw .nameTooLong
      return {
        location := step here last
        isNameless := last = "." || last = ".."
        hasSlash := path.toList.getLast? = some '/' }

/-! ## Operations -/

/-- The bytes of a file. -/
def read (fs : FileSystem) (path : String) : Except FileError (List UInt8) := do
  let t ← fs.target path
  match fs.lookup t.location with
  | none => throw .notFound
  | some .directory => throw .isDirectory
  | some (.file bytes) => if t.hasSlash then throw .notDirectory else return bytes

/-- Create a file or replace its contents. -/
def create (fs : FileSystem) (path : String) (bytes : List UInt8) :
    Except FileError FileSystem := do
  let t ← fs.target path
  if t.isNameless || t.hasSlash || fs.lookup t.location = some .directory then throw .isDirectory
  return fs.put t.location (.file bytes)

/-- Remove a file. -/
def remove (fs : FileSystem) (path : String) : Except FileError FileSystem := do
  let t ← fs.target path
  match fs.lookup t.location with
  | none => throw .notFound
  | some .directory => throw .isDirectory
  | some (.file _) => if t.hasSlash then throw .notDirectory else return fs.erase t.location

/-- Move a file, replacing the file at the destination if there is one. -/
def rename (fs : FileSystem) (source destination : String) : Except FileError FileSystem := do
  let s ← fs.target source
  let d ← fs.target destination
  if s.isNameless || d.isNameless then throw .busy
  match fs.lookup s.location with
  | none => throw .notFound
  | some .directory => throw .isDirectory
  | some (.file bytes) =>
    if s.hasSlash || d.hasSlash then throw .notDirectory
    if fs.lookup d.location = some .directory then throw .isDirectory
    return (fs.erase s.location).put d.location (.file bytes)

/-! ## Laying out and listing -/

/-- Every location that names lead through, in order. -/
def stations (here : Location) : List String → List Location
  | [] => []
  | name :: rest => step here name :: stations (step here name) rest

/-- Put a directory where nothing stands. -/
def ensureDirectory (fs : FileSystem) (loc : Location) : FileSystem :=
  if (fs.lookup loc).isSome then fs else fs.put loc .directory

/-- Lay out a file, or a directory if the path ends with a slash, with every directory on the way
to it. -/
def layOut (fs : FileSystem) (path : String) (bytes : List UInt8) : FileSystem :=
  let way := stations (fs.base path) (names path)
  if path.toList.getLast? = some '/' then way.foldl ensureDirectory fs
  else
    match way.getLast? with
    | some loc => (way.dropLast.foldl ensureDirectory fs).put loc (.file bytes)
    | none => fs

/-- Every location below the working directory as a path from there with what it holds, sorted by
path; directories end with a slash. -/
def listing (fs : FileSystem) : List (String × Option (List UInt8)) :=
  let inside := fs.entries.filter fun (location, _) ↦
    fs.workingDirectory.isPrefixOf location && !fs.isAbove location
  let shown := inside.map fun (location, entry) ↦
    let path := "/".intercalate (location.drop fs.workingDirectory.length)
    match entry with
    | .file bytes => (path, some bytes)
    | .directory => (path ++ "/", none)
  shown.mergeSort fun a b ↦ !(decide (b.1 < a.1))

end FileSystem

/-- Computations that can read and write files. -/
class MonadFiles (m : Type → Type) where
  /-- The bytes of a file. -/
  read : String → m (Except FileError (List UInt8))
  /-- Create a file or replace its contents. -/
  create : String → List UInt8 → m (Except FileError Unit)
  /-- Remove a file. -/
  remove : String → m (Except FileError Unit)
  /-- Move a file, replacing the file at the destination. -/
  rename : String → String → m (Except FileError Unit)

namespace FileSystem

/-- Run an operation that changes the file system if it succeeds. -/
def run (op : FileSystem → Except FileError FileSystem) :
    StateM FileSystem (Except FileError Unit) :=
  fun fs ↦
    match op fs with
    | .ok fs' => (.ok (), fs')
    | .error e => (.error e, fs)

instance : MonadFiles (StateM FileSystem) where
  read path := fun fs ↦ (fs.read path, fs)
  create path bytes := run (·.create path bytes)
  remove path := run (·.remove path)
  rename source destination := run (·.rename source destination)

end FileSystem

/-- Bytes as text, if they are UTF-8. -/
def textOfBytes (bytes : List UInt8) : Except FileError String :=
  match Utf8.decode? bytes with
  | some s => .ok s
  | none => .error .invalidUtf8

end StateGen
