/-!
File paths. A path is shown as it was given; two paths are the same, and one lies beneath another,
by their components.
-/

namespace Confine

/-- A file path, as it was given. -/
structure Path where
  text : String
  deriving DecidableEq, Repr, Inhabited

namespace Path

/-- One component of a path. -/
inductive Component where
  /-- the slash that an absolute path starts with -/
  | root
  /-- a dot, which is a component only at the start of a relative path -/
  | here
  /-- two dots -/
  | up
  | name (s : List Char)
  deriving DecidableEq, Repr

/-- The pieces of a text between its slashes, after the characters `rev` (latest first) of the
first piece. -/
def piecesFrom (rev : List Char) : List Char → List (List Char)
  | [] => [rev.reverse]
  | c :: rest => if c = '/' then rev.reverse :: piecesFrom [] rest else piecesFrom (c :: rev) rest

/-- The component that a piece stands for: none if it is empty. -/
def Component.ofPiece? : List Char → Option Component
  | [] => none
  | ['.'] => some .here
  | ['.', '.'] => some .up
  | s => some (.name s)

/-- The components of a path: repeated slashes, slashes at the end and dots after the start do not
count. -/
def components (p : Path) : List Component :=
  let s := p.text.toList
  let raw := (piecesFrom [] s).filterMap Component.ofPiece?
  if s.head? = some '/' then .root :: raw.filter (· ≠ .here)
  else match raw with
    | .here :: rest => .here :: rest.filter (· ≠ .here)
    | _ => raw.filter (· ≠ .here)

/-- Two paths are the same if their components are. -/
def same (p q : Path) : Bool := p.components = q.components

/-- The path `p` is `dir` or lies beneath it. -/
def isBeneath (p dir : Path) : Bool := dir.components.isPrefixOf p.components

@[simp] theorem same_refl (p : Path) : p.same p := by simp [same]

theorem same_comm (p q : Path) : p.same q = q.same p := by simp [same, eq_comm]

theorem isBeneath_iff {p dir : Path} : p.isBeneath dir ↔ dir.components <+: p.components := by
  simp [isBeneath]

@[simp] theorem isBeneath_refl (p : Path) : p.isBeneath p := by simp [isBeneath]

theorem isBeneath_trans {p q r : Path} (hpq : p.isBeneath q) (hqr : q.isBeneath r) :
    p.isBeneath r :=
  isBeneath_iff.2 ((isBeneath_iff.1 hqr).trans (isBeneath_iff.1 hpq))

/-- Some component of the path leads to a parent directory. -/
def climbs (p : Path) : Bool := p.components.contains .up

/-- The name of the file that the path leads to. -/
def fileName? (p : Path) : Option (List Char) :=
  match p.components.getLast? with
  | some (.name s) => some s
  | _ => none

/-- What follows the last dot of the file name; a dot at its start does not count. -/
def extension? (p : Path) : Option (List Char) := do
  let name ← p.fileName?
  let rev := name.reverse
  let ext := rev.takeWhile (· ≠ '.')
  match rev.drop ext.length with
  | _ :: _ :: _ => some ext.reverse
  | _ => none

end Path

end Confine
