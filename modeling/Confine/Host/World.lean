import Confine.Host.Basic
import Confine.Host.FileTree

/-!
A host that is nothing but a value: its files, its environment and its clock. Looking at the clock
takes a little time, and waiting takes none but what the clock shows.
-/

namespace Confine

/-- A whole host. -/
structure World where
  files : FileTree
  /-- the working directory, as a place in the tree -/
  workDir : List String
  env : List (String × String)
  /-- the nanoseconds that have passed -/
  clock : Nat
  deriving Repr, Inhabited

namespace World

/-- A host with an empty working directory. -/
def fresh : World := ⟨FileTree.empty.makeDirectory ["work"], ["work"], [], 0⟩

/-- How long a look at the clock takes, in nanoseconds. -/
def tick : Nat := 200

/-- The moment when the clock starts, in nanoseconds since 1970 began. -/
def epoch : Nat := 1700000000000000000

/-- A place beneath the working directory, from a relative path of plain names. -/
def placeOf (w : World) (path : String) : List String :=
  w.workDir ++ ((Path.piecesFrom [] path.toList).filter fun p => !p.isEmpty).map String.ofList

/-- The host with a file, and the directories that it stands in. -/
def withFile (w : World) (path contents : String) : World :=
  let place := w.placeOf path
  { w with files := (w.files.makeDirectory place.dropLast).put place (.file contents) }

/-- The host with a directory. -/
def withDirectory (w : World) (path : String) : World :=
  { w with files := w.files.makeDirectory (w.placeOf path) }

/-- The files beneath the working directory, by relative path. -/
def ownFiles (w : World) : List (String × String) :=
  (w.files.filesBeneath w.workDir).map fun f => ("/".intercalate f.1, f.2)

/-- The time goes on, at least by one tick. -/
def advance (w : World) : World := { w with clock := w.clock + tick }

/-- The date and the time. -/
def now (w : World) : Time.Timestamp := .ofNanos (epoch + w.clock)

/-- How a variable is written: its name, an equals sign and its value. -/
def writtenVariable (v : String × String) : List Char := v.1.toList ++ '=' :: v.2.toList

/-- The value of an environment variable: what follows the name and an equals sign in the first
variable that is written so. -/
def env? (w : World) (name : String) : Option String :=
  if name.isEmpty then none
  else w.env.findSome? fun v =>
    ((name.toList ++ ['=']).isPrefixOf? (writtenVariable v)).map String.ofList

/-- Answers a question. -/
def answer (w : World) : (r : HostRequest) → r.Answer × World
  | .clock => (w.now, w.advance)
  | .getEnv name => (w.env? name, w)
  | .writeFile path contents =>
    match w.files.write w.workDir path contents with
    | .ok files => (.ok (), { w with files := files })
    | .error fault => (.error fault.message, w)
  | .workingDirectory => (some ("/" ++ "/".intercalate w.workDir), w)

/-- The host whose actions change the world. -/
def host : Host (StateM World) where
  elapsed := fun w => (w.clock, w.advance)
  idleUntil t := fun w => ((), { w with clock := max w.clock t })
  answer r := fun w => w.answer r
  readFile path := fun w => ((w.files.read w.workDir path).mapError FileFault.message, w)
  today := fun w => (w.now, w)
  randomBytes := fun w => ((List.range 16).map fun i => UInt8.ofNat (w.clock >>> (8 * i)), w)

end World

end Confine
