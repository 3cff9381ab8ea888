import PipelineEngine.Machine

/-!
# Simulated files

Directories and files as a list of places.  A place is the list of names that lead to it
from the root, the last one first.

`FileTree.walk` follows a path: every part but the last must be a directory, and `..`
leads to the directory above.
-/

namespace PipelineEngine.Simulation

/-- What is at a place. -/
inductive FileEntry where
  | directory
  | file (contents : List UInt8)
deriving Repr, Inhabited, DecidableEq

/-- The names that lead to a place from the root, the last one first. -/
abbrev Place := List String

/-- Directories and files.  The root is a directory that is always there. -/
structure FileTree where
  entries : List (Place × FileEntry)
deriving Repr, Inhabited, DecidableEq

/-- Why a directory cannot be made. -/
inductive DirectoryFault where
  | notDirectory
  | fileExists
deriving Repr, DecidableEq

def DirectoryFault.message : DirectoryFault → String
  | .notDirectory => "Not a directory (os error 20)"
  | .fileExists => "File exists (os error 17)"

namespace FileTree

/-- The root and nothing else. -/
def empty : FileTree := ⟨[]⟩

/-- What is at a place. -/
def entry? (t : FileTree) : Place → Option FileEntry
  | [] => some .directory
  | place => t.entries.lookup place

/-- Puts an entry at a place. -/
def put (t : FileTree) (place : Place) (e : FileEntry) : FileTree :=
  ⟨(place, e) :: t.entries.filter (·.1 ≠ place)⟩

/-- The absolute path of a place. -/
def pathOf (place : Place) : String := Path.ofParts place.reverse

/-- The place that one part of a path leads to, which may be empty. -/
def stepTo (place : Place) (part : String) : Place :=
  if part = "" || part = "." then place
  else if part = ".." then place.tail
  else part :: place

/-- The place that parts of a path lead to.  A file in the way cannot be looked into. -/
def walk (t : FileTree) : Place → List String → Lookup Place
  | place, [] => .found place
  | place, part :: rest =>
    match t.entry? place with
    | none => .missing
    | some (.file _) => .unreadable
    | some .directory =>
      if (t.entry? (stepTo place part)).isSome then t.walk (stepTo place part) rest else .missing

/-- The place of an absolute path. -/
def find (t : FileTree) (path : String) : Lookup Place :=
  if path = "" then .missing else t.walk [] (Path.parts path)

/-- Makes the directories along parts of a path that are not there. -/
def makeAlong (t : FileTree) : Place → List String → Except DirectoryFault (FileTree × Place)
  | place, [] =>
    match t.entry? place with
    | some (.file _) => .error .fileExists
    | _ => .ok (t, place)
  | place, part :: rest =>
    match t.entry? place with
    | some (.file _) => .error .notDirectory
    | _ =>
      let next := stepTo place part
      match t.entry? next with
      | none => (t.put next .directory).makeAlong next rest
      | some _ => t.makeAlong next rest

/-- Makes a directory and those that it lies in. -/
def makeDirectory (t : FileTree) (path : String) : Except DirectoryFault (FileTree × Place) :=
  t.makeAlong [] (Path.parts path)

/-- The tree with a directory, unless there is a file in the way. -/
def withDirectory (t : FileTree) (path : String) : FileTree :=
  match t.makeDirectory path with
  | .ok (t, _) => t
  | .error _ => t

/-- Writes a file and makes the directories that it lies in; nothing when there is
something in the way. -/
def write (t : FileTree) (path : String) (contents : List UInt8) : FileTree :=
  let parts := Path.parts path
  match t.makeAlong [] parts.dropLast with
  | .ok (t, place) => t.put (parts.getLastD "" :: place) (.file contents)
  | .error _ => t

/-- The contents of the file of an absolute path. -/
def contents (t : FileTree) (path : String) : Lookup (List UInt8) :=
  match t.find path with
  | .missing => .missing
  | .unreadable => .unreadable
  | .found place =>
    match t.entry? place with
    | some (.file contents) => .found contents
    | _ => .unreadable

/-- The names of the directories in a place. -/
def directoriesIn (t : FileTree) (place : Place) : List String :=
  t.entries.filterMap fun (other, e) =>
    match other with
    | name :: above => if above = place && e = .directory then some name else none
    | [] => none

/-- The names of the directories in the directory of an absolute path. -/
def directories (t : FileTree) (path : String) : Lookup (List String) :=
  match t.find path with
  | .missing => .missing
  | .unreadable => .unreadable
  | .found place =>
    if t.entry? place = some .directory then .found (t.directoriesIn place) else .unreadable

end FileTree

end PipelineEngine.Simulation
