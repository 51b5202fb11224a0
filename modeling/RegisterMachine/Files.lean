import RegisterMachine.Assembly.Scan

/-!
# Files by name

The tools work on files that they find by name. Here a set of files is a value, so that what a
tool does to them is a function. There are no directories apart from those that the names of the
files speak of, and a name is looked up step by step from the top: each step has to be taken in
a directory.

## Main definitions

* `Files`, `Path` — files, and where they are.
* `Path.ofName`, `Path.toName` — paths and names.
* `Files.Problem` — why a name cannot be used.
* `Files.locate` — the path of a name.
* `Files.read`, `Files.target`, `Files.put` — reading and writing.
-/

namespace RegisterMachine

/-- The place of a file: the directories from the top down, and the name in the last of them. -/
abbrev Path := List Bytes

namespace Path

/-- The root of the host. -/
def root : Path := [ascii "/"]

/-- The step to the directory above. -/
def above : Bytes := ascii ".."

/-- Whether a path leads to the top or to a directory above it. -/
def isUpward (p : Path) : Bool := p.all (· == above)

/-- Whether a path stays below the top. -/
def isInside (p : Path) : Bool := p.head? != some above && p.head? != root.head?

/-- The directory above a path. Nothing is above the root. -/
def parent (p : Path) : Path :=
  if p == root then root else if p.isUpward then p ++ [above] else p.dropLast

/-- One step of a name from a directory. -/
def step (here : Path) (s : Bytes) : Path :=
  if s.isEmpty || s == ascii "." then here
  else if s == above then here.parent
  else here ++ [s]

/-- The path that a name spells, whether or not there is anything. -/
def ofName (name : Bytes) : Path :=
  (fields (byte '/') name).foldl step (if name.head? == some (byte '/') then root else [])

/-- A name for a path. -/
def toName (p : Path) : Bytes := (ascii "/").intercalate p

end Path

/-- Files with their content, in the order in which they came into being. -/
structure Files where
  /-- The files. -/
  entries : List (Path × Bytes) := []
  deriving DecidableEq, Repr

namespace Files

/-- Why a name cannot be used. -/
inductive Problem where
  | notFound
  | notADirectory
  | isADirectory
  | nameTooLong
  deriving DecidableEq, Repr

/-- The wording of a problem. -/
def Problem.message : Problem → Bytes
  | notFound => ascii "No such file or directory"
  | notADirectory => ascii "Not a directory"
  | isADirectory => ascii "Is a directory"
  | nameTooLong => ascii "File name too long"

/-- What stands at a path. -/
inductive Kind where
  | file (content : Bytes)
  | directory
  | nothing
  deriving DecidableEq, Repr

/-- What stands at a path. The top, what is above it and the root of the host are always
directories. -/
def kind (fs : Files) (p : Path) : Kind :=
  match fs.entries.lookup p with
  | some content => .file content
  | none =>
    if p.isUpward || p == Path.root || fs.entries.any (fun e => p.isPrefixOf e.1) then .directory
    else .nothing

/-- The most bytes that a name may have in a directory. -/
def longestName : Nat := 255

/-- The most bytes that a name may have with all its steps. -/
def longestPath : Nat := 4095

/-- Takes the steps of a name from a path on. Every step is taken in a directory. -/
def walk (fs : Files) (here : Path) : List Bytes → Except Problem Path
  | [] => .ok here
  | step :: steps =>
    match fs.kind here with
    | .file _ => .error .notADirectory
    | .nothing => .error .notFound
    | .directory =>
      if longestName < step.length then .error .nameTooLong
      else walk fs (Path.step here step) steps

/-- The path of a name. -/
def locate (fs : Files) (name : Bytes) : Except Problem Path :=
  if name.isEmpty then .error .notFound
  else if longestPath < name.length then .error .nameTooLong
  else fs.walk (if name.head? == some (byte '/') then Path.root else []) (fields (byte '/') name)

/-- The content of a file. A directory can be read, but there is nothing in it to read. -/
def read (fs : Files) (name : Bytes) : Except Problem Bytes := do
  match fs.kind (← fs.locate name) with
  | .file content => .ok content
  | .directory => .ok []
  | .nothing => .error .notFound

/-- The path of a file that is to be written. -/
def target (fs : Files) (name : Bytes) : Except Problem Path := do
  let p ← fs.locate name
  match fs.kind p with
  | .directory => .error .isADirectory
  | .file _ | .nothing => .ok p

/-- The files with the content of one of them replaced, or with a new one at the end. -/
def put (fs : Files) (p : Path) (content : Bytes) : Files :=
  if fs.entries.any (fun e => e.1 == p) then
    { entries := fs.entries.map fun e => if e.1 == p then (p, content) else e }
  else { entries := fs.entries ++ [(p, content)] }

end Files

end RegisterMachine
