import BlockGraph.Command.Host

/-!
# Files in memory

A `Disk` holds a tree of directories and files, and the directory that relative paths start from.
`Disk.host` answers the file operations of the command on it, which makes a run of the command a function
of its arguments, its environment and the disk.

The names of a path are looked up one after the other, and the first problem on the way is the one that
is reported.
-/

namespace BlockGraph.Command

/-- The names that lead to a file from the root. -/
abbrev Path := List String

/-- What a path leads to. -/
inductive Entry where
  | directory
  | file (text : String)

/-- Directories and files by path. -/
structure Disk where
  entries : List (Path × Entry) := []
  /-- Where relative paths start. -/
  here : Path := []

namespace Disk

/-- What is at a path. The root is always there. -/
def get? (d : Disk) (path : Path) : Option Entry :=
  if path.isEmpty then some .directory else d.entries.lookup path

def put (d : Disk) (path : Path) (e : Entry) : Disk :=
  { d with entries := (path, e) :: d.entries.filter (·.1 != path) }

def names (path : String) : List String := (path.splitOn "/").filter (· != "")

/-- Where a path starts. -/
def start (d : Disk) (path : String) : Path := if path.startsWith "/" then [] else d.here

/-- Looks a name up in a directory. A name has at most 255 bytes. -/
def find (d : Disk) (directory : Path) (name : String) : Except FileError (Option Entry) :=
  if 255 < name.utf8ByteSize then .error .nameTooLong else .ok (d.get? (directory ++ [name]))

/-- The directory that names lead to from a directory. -/
def walk (d : Disk) : Path → List String → Except FileError Path
  | here, [] => .ok here
  | here, name :: names =>
    if name == "." then d.walk here names
    else if name == ".." then d.walk here.dropLast names
    else
      match d.find here name with
      | .error e => .error e
      | .ok (some .directory) => d.walk (here ++ [name]) names
      | .ok (some (.file _)) => .error .notDirectory
      | .ok none => .error .notFound

/-- Refuses a path that is refused before any of its names is looked up. -/
def checkPath (path : String) : Except FileError Unit :=
  if path.toList.contains (Char.ofNat 0) then .error .nulInPath
  else if path.isEmpty then .error .notFound
  else if 4096 ≤ path.utf8ByteSize then .error .nameTooLong
  else .ok ()

/-- Follows a path up to its last name: the directory that the name stands in, and the name. A path that
ends in a dot leads to a directory that exists, and so does the root. -/
def locate (d : Disk) (path : String) : Except FileError (Option (Path × String)) := do
  checkPath path
  match (names path).getLast? with
  | none => return none
  | some last =>
    let directory ← d.walk (d.start path) (names path).dropLast
    return if last == "." || last == ".." then none else some (directory, last)

/-- Whether a path asks for a directory by a slash at its end. -/
def asksDirectory (path : String) : Bool := path.endsWith "/"

def read (d : Disk) (path : String) : Except FileError String := do
  match ← d.locate path with
  | none => throw .isDirectory
  | some (directory, name) =>
    match ← d.find directory name with
    | none => throw .notFound
    | some .directory => throw .isDirectory
    | some (.file text) => if asksDirectory path then throw .notDirectory else return text

/-- Gives a file a text. -/
def write (d : Disk) (path text : String) : Except FileError Disk := do
  match ← d.locate path with
  | none => throw .isDirectory
  | some (directory, name) =>
    -- whatever is there
    if asksDirectory path then throw .isDirectory
    match ← d.find directory name with
    | some .directory => throw .isDirectory
    | _ => return d.put (directory ++ [name]) (.file text)

/-- Creates a directory in one that exists. -/
def createDirectory (d : Disk) (path : String) : Except FileError Disk := do
  match ← d.locate path with
  | none => throw .alreadyExists
  | some (directory, name) =>
    match ← d.find directory name with
    | some _ => throw .alreadyExists
    | none => return d.put (directory ++ [name]) .directory

def isDirectory (d : Disk) (path : String) : Bool :=
  match d.locate path with
  | .error _ => false
  | .ok none => true
  | .ok (some (directory, name)) =>
    match d.get? (directory ++ [name]) with
    | some .directory => true
    | _ => false

/-- Whether the refusal to create a directory can be passed over, because the directory is there. -/
def isSettled (d : Disk) (path : String) (e : FileError) : Bool := e == .alreadyExists && d.isDirectory path

/-- Creates directories in order, up to the first that is refused. What was created before stays. -/
def createEach (d : Disk) : List String → Disk × Except FileError Unit
  | [] => (d, .ok ())
  | path :: paths =>
    match d.createDirectory path with
    | .ok d => d.createEach paths
    | .error e => if d.isSettled path e then d.createEach paths else (d, .error e)

/-- Goes through paths, each the directory of the one before it, until one is there or can be created,
and then creates those that were missing in between. -/
def createFrom (d : Disk) (missing : List String) : List String → Disk × Except FileError Unit
  | [] => d.createEach missing
  | path :: ancestors =>
    match d.createDirectory path with
    | .ok d => d.createEach missing
    | .error e =>
      if e == .notFound then d.createFrom (path :: missing) ancestors
      else if d.isSettled path e then d.createEach missing
      else (d, .error e)

/-- Creates a directory and its parents, as far as they are missing. -/
def createDirectories (d : Disk) (path : String) : Disk × Except FileError Unit :=
  d.createFrom [] (ancestors path)

/-- The disk with files at paths, their directories included. -/
def addFiles (d : Disk) (files : List (String × String)) : Except FileError Disk :=
  files.foldlM (fun d (path, text) => do
    let d ← match parent? path with
      | none => pure d
      | some directory =>
        match d.createDirectories directory with
        | (d, .ok ()) => pure d
        | (_, .error e) => throw e
    d.write path text) d

def empty (here : String) : Except FileError Disk :=
  match createDirectories {} here with
  | (d, .ok ()) => .ok { d with here := names here }
  | (_, .error e) => .error e

/-- Runs an operation that changes the disk unless it is refused. -/
def update (f : Disk → Except FileError Disk) : StateM Disk (Except FileError Unit) := fun d =>
  match f d with
  | .ok d => (.ok (), d)
  | .error e => (.error e, d)

/-- The file operations on a disk. -/
def host : Host (StateM Disk) where
  read path := fun d => (d.read path, d)
  write path text := update (·.write path text)
  createDirectories path := fun d => (d.createDirectories path).swap

end Disk

end BlockGraph.Command
