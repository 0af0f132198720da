import RenderGraph.Storage
/-!
# Files in memory

A `Disk` holds files by path below one directory. Its directories are those that hold a file, and
the one everything is below. A path is followed from there part by part; the part `.` stays where it
is and `..` goes up.
-/

namespace RenderGraph

/-- Where a file is: the names of the directories around it, then its own. -/
abbrev Location := List String

structure Disk where
  /-- The files by location; a file that is not text has no content. -/
  files : Table Location (Option String)

namespace Disk

/-- Whether there is a directory at a location. -/
def isDirectory (d : Disk) (l : Location) : Bool :=
  l.isEmpty || d.files.keys.any fun k => l.isPrefixOf k && l.length < k.length

/-- The parts of a path that lead somewhere. -/
def parts (path : String) : List String := (Text.split '/' path).filter fun p => p ≠ "" && p ≠ "."

/-- Follows parts of a path from a location; all but the last lead to directories. -/
def follow (d : Disk) : Location → List String → Except FileFault Location
  | here, [] => .ok here
  | here, part :: rest =>
    if d.isDirectory here then d.follow (if part = ".." then here.dropLast else here ++ [part]) rest
    else if d.files.contains here then .error .notDirectory
    else .error .notFound

/-- Whether a path can only lead to a directory. -/
def asksForDirectory (path : String) : Bool := path.endsWith "/" || path.endsWith "/."

/-- The location that a path leads to. Paths from the root of all files lead nowhere. -/
def locate (d : Disk) (path : String) : Except FileFault Location :=
  if path.startsWith "/" then .error .notFound
  else
    match d.follow [] (parts path) with
    | .ok l => if asksForDirectory path && d.files.contains l then .error .notDirectory else .ok l
    | .error fault => .error fault

def read (d : Disk) (path : String) : Except FileFault String := do
  let l ← d.locate path
  match d.files.get? l with
  | some (some text) => return text
  | some none => throw .notText
  | none => if d.isDirectory l then throw .isDirectory else throw .notFound

/-- The disk after a text was written to a file. -/
def write (d : Disk) (path text : String) : Except FileFault Disk := do
  let l ← d.locate path
  if d.isDirectory l || asksForDirectory path then throw .isDirectory
  if !d.isDirectory l.dropLast then throw .notFound
  return ⟨d.files.insert l (some text)⟩

/-- Whether a path leads to a file. -/
def isFile (d : Disk) (path : String) : Bool :=
  match d.locate path with
  | .ok l => d.files.contains l
  | .error _ => false

/-- Whether a path leads to a file or a directory. -/
def isThere (d : Disk) (path : String) : Bool :=
  match d.locate path with
  | .ok l => d.files.contains l || d.isDirectory l
  | .error _ => false

/-- The disk with files of these paths and contents. -/
def ofFiles (files : List (String × Option String)) : Disk :=
  ⟨.ofList (files.map fun f => (parts f.1, f.2))⟩

end Disk

/-- Programs that work on a disk in memory. -/
abbrev OnDisk := StateM Disk

instance : Files OnDisk where
  read path := do return (← get).read path
  write path text := do
    match (← get).write path text with
    | .ok d => set d; return .ok ()
    | .error fault => return .error fault
  isFile path := do return (← get).isFile path
  isThere path := do return (← get).isThere path

end RenderGraph
