import Workboard.Cli.Console
import Workboard.KeyMap

/-! A disk that is described by its contents.

Paths are looked up from one folder on, and nothing is known above it. The key of a file or folder is its
names joined by slashes. -/

namespace Workboard.Cli

structure Disk where
  files : KeyMap String
  folders : KeySet

/-- What is at a place. -/
inductive Disk.Entry where
  | file (text : String)
  | folder
  | nothing

/-- A place on a disk: names from the first folder on, and whether only a folder may be there. -/
structure Disk.Location where
  names : List String
  folderOnly : Bool

namespace Disk

def empty : Disk := ⟨∅, ∅⟩

def key (names : List String) : String := "/".intercalate names

def entry (d : Disk) (names : List String) : Entry :=
  if names.isEmpty then .folder
  else
    match d.files.get? (key names) with
    | some text => .file text
    | none => if d.folders.contains (key names) then .folder else .nothing

/-- The greatest number of bytes in a name. -/
def longestName : Nat := 255

/-- The greatest number of bytes in a path. -/
def longestPath : Nat := 4095

/-- Follows names from a folder. All but the last have to lead to folders, and none may be too long to be
    looked up. -/
def follow (d : Disk) (here : List String) : List String → Except FileError Location
  | [] => .ok ⟨here, true⟩
  | "" :: r => d.follow here r
  | "." :: r => d.follow here r
  | ".." :: r => if here.isEmpty then .error .notFound else d.follow here.dropLast r
  | name :: r =>
    let there := here ++ [name]
    if longestName < name.utf8ByteSize then .error .nameTooLong
    else if r.isEmpty then .ok ⟨there, false⟩
    else
      match d.entry there with
      | .folder => d.follow there r
      -- Slashes behind the last name only ask for a folder.
      | .file _ => if r.all (· = "") then .ok ⟨there, true⟩ else .error .notFolder
      | .nothing => if r.all (· = "") then .ok ⟨there, true⟩ else .error .notFound

/-- The place that a path leads to. -/
def locate (d : Disk) (path : String) : Except FileError Location :=
  if longestPath < path.utf8ByteSize then .error .nameTooLong
  else
    match Path.names path with
    | "" :: _ => .error .notFound
    | names => d.follow [] names

def read (d : Disk) (path : String) : Except FileError String := do
  let l ← d.locate path
  match d.entry l.names with
  | .file text => if l.folderOnly then .error .notFolder else .ok text
  | .folder => .error .isFolder
  | .nothing => .error .notFound

def write (d : Disk) (path text : String) : Except FileError Disk := do
  let l ← d.locate path
  match d.entry l.names with
  | .folder => .error .isFolder
  -- Folders are not made on the way: `locate` has found them all.
  | _ => if l.folderOnly then .error .isFolder else .ok { d with files := d.files.insert (key l.names) text }

def makeFolder (d : Disk) (path : String) : Except FileError Disk := do
  let l ← d.locate path
  match d.entry l.names with
  | .nothing => .ok { d with folders := d.folders.insert (key l.names) }
  | _ => .error .alreadyThere

def isFolder (d : Disk) (path : String) : Bool :=
  match d.locate path with
  | .ok l => match d.entry l.names with
    | .folder => true
    | _ => false
  | .error _ => false

/-- Puts a file into its place, with the folders around it. -/
def place (d : Disk) (path text : String) : Disk :=
  let names := Path.names path
  let folders := (List.range names.length).filterMap fun n => if n = 0 then none else some (key (names.take n))
  ⟨d.files.insert (key names) text, folders.foldl KeySet.insert d.folders⟩

end Disk

/-- The result of a computation with a disk, and the disk behind it. -/
def Console.run : Console α → Disk → α × Disk
  | done a, d => (a, d)
  | read path next, d => (next (d.read path)).run d
  | write path text next, d =>
    match d.write path text with
    | .ok d => (next (.ok ())).run d
    | .error e => (next (.error e)).run d
  | makeFolder path next, d =>
    match d.makeFolder path with
    | .ok d => (next (.ok ())).run d
    | .error e => (next (.error e)).run d
  | isFolder path next, d => (next (d.isFolder path)).run d

end Workboard.Cli
