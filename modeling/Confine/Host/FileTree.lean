import Confine.Path

/-!
A tree of directories and text files, and how paths lead through it. A path that ends with a slash
can only lead to a directory.
-/

namespace Confine

/-- Why a path leads to no file that can be read or written. -/
inductive FileFault where
  | notFound
  | notADirectory
  | isADirectory
  | nameTooLong
  /-- the path holds the character that ends names -/
  | badName
  deriving DecidableEq, Repr, Inhabited

/-- The fault in words. -/
def FileFault.message : FileFault → String
  | notFound => "No such file or directory (os error 2)"
  | notADirectory => "Not a directory (os error 20)"
  | isADirectory => "Is a directory (os error 21)"
  | nameTooLong => "File name too long (os error 36)"
  | badName => "file name contained an unexpected NUL byte"

/-- What stands at a place of the tree. -/
inductive FileEntry where
  | file (contents : String)
  | directory
  deriving DecidableEq, Repr, Inhabited

/-- The entries of a tree with their places: the names from the root on. The root is a directory
and not listed. -/
structure FileTree where
  entries : List (List String × FileEntry)
  deriving DecidableEq, Repr, Inhabited

namespace FileTree

def empty : FileTree := ⟨[]⟩

/-- What stands at a place. -/
def entry? (t : FileTree) (place : List String) : Option FileEntry :=
  if place.isEmpty then some .directory else t.entries.lookup place

/-- Puts an entry at a place, instead of what stands there. -/
def put (t : FileTree) (place : List String) (e : FileEntry) : FileTree :=
  if t.entries.any (·.1 == place) then
    ⟨t.entries.map fun old => if old.1 == place then (place, e) else old⟩
  else ⟨t.entries ++ [(place, e)]⟩

/-- The longest name, in bytes. -/
def maxNameBytes : Nat := 255

/-- The number of bytes that a path stays below. -/
def maxPathBytes : Nat := 4096

/-- Where a name leads from a directory. -/
def enter (t : FileTree) (place : List String) (name : String) :
    Except FileFault (List String) :=
  if name = "." then .ok place
  else if name = ".." then .ok place.dropLast
  else if maxNameBytes < name.utf8ByteSize then .error .nameTooLong
  else match t.entry? (place ++ [name]) with
    | some .directory => .ok (place ++ [name])
    | some (.file _) => .error .notADirectory
    | none => .error .notFound

/-- Where names lead from a directory. -/
def enterAll (t : FileTree) (place : List String) : List String → Except FileFault (List String)
  | [] => .ok place
  | name :: rest =>
    match t.enter place name with
    | .ok place => enterAll t place rest
    | .error fault => .error fault

/-- A path in its parts. -/
structure Route where
  /-- the directory where it starts -/
  start : List String
  /-- the names of directories -/
  through : List String
  /-- the name at its end; there is none for the root -/
  last : Option String
  /-- it ends with a slash -/
  endsOpen : Bool
  deriving DecidableEq, Repr

/-- The parts of a path that is given in a working directory. -/
def route (workDir : List String) (path : String) : Except FileFault Route :=
  let s := path.toList
  if s.contains '\x00' then .error .badName
  else if s.isEmpty then .error .notFound
  else if maxPathBytes ≤ path.utf8ByteSize then .error .nameTooLong
  else
    let names := ((Path.piecesFrom [] s).filter fun p => !p.isEmpty).map String.ofList
    .ok ⟨if s.head? = some '/' then [] else workDir, names.dropLast, names.getLast?,
      s.getLast? = some '/'⟩

/-- The name leads to a directory, whatever stands in the tree. -/
def isDots (name : String) : Bool := name == "." || name == ".."

/-- The text of a file. -/
def read (t : FileTree) (workDir : List String) (path : String) : Except FileFault String := do
  let r ← route workDir path
  let dir ← t.enterAll r.start r.through
  match r.last with
  | none => .error .isADirectory
  | some name =>
    if isDots name then .error .isADirectory
    else if maxNameBytes < name.utf8ByteSize then .error .nameTooLong
    else match t.entry? (dir ++ [name]) with
      | some (.file text) => if r.endsOpen then .error .notADirectory else .ok text
      | some .directory => .error .isADirectory
      | none => .error .notFound

/-- Writes a file: a new one, or in place of an old one. -/
def write (t : FileTree) (workDir : List String) (path text : String) :
    Except FileFault FileTree := do
  let r ← route workDir path
  let dir ← t.enterAll r.start r.through
  match r.last with
  | none => .error .isADirectory
  | some name =>
    if isDots name || r.endsOpen then .error .isADirectory
    else if maxNameBytes < name.utf8ByteSize then .error .nameTooLong
    else match t.entry? (dir ++ [name]) with
      | some .directory => .error .isADirectory
      | _ => .ok (t.put (dir ++ [name]) (.file text))

/-- Makes a directory and those it stands in. -/
def makeDirectory (t : FileTree) (place : List String) : FileTree :=
  (List.range place.length).foldl (fun t n =>
    let p := place.take (n + 1)
    if (t.entry? p).isSome then t else t.put p .directory) t

/-- The files beneath a place, with their places from there on. -/
def filesBeneath (t : FileTree) (place : List String) : List (List String × String) :=
  t.entries.filterMap fun
    | (p, .file text) => if place.isPrefixOf p then some (p.drop place.length, text) else none
    | (_, .directory) => none

end FileTree

end Confine
