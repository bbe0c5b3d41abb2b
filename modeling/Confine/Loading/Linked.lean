import Confine.Program.ClassFile

/-!
Classes as they run: the code of a method in an array, with the place of every label, and the
ranges of handlers as places in the code.
-/

namespace Confine

/-- A handler for the places from `start` up to `stop`. -/
structure LinkedHandler where
  start : Nat
  stop : Nat
  target : Nat
  kind : Option String
  deriving DecidableEq, Repr, Inhabited

/-- A method as it runs. -/
structure LinkedMethod where
  method : Method
  code : Array Instruction
  /-- the labels with their places -/
  labels : List (Label × Nat)
  handlers : List LinkedHandler
  deriving DecidableEq, Repr, Inhabited

namespace LinkedMethod

/-- The labels of code that starts at a place, with their places; they come latest first. -/
def placesFrom (found : List (Label × Nat)) (place : Nat) : List Instruction → List (Label × Nat)
  | [] => found
  | .label l :: rest => placesFrom ((l, place) :: found) (place + 1) rest
  | _ :: rest => placesFrom found (place + 1) rest

/-- The place of a label. -/
def place? (m : LinkedMethod) (l : Label) : Option Nat := m.labels.lookup l

/-- A method as it runs. A handler that names an unknown label would range from the start. -/
def ofMethod (m : Method) : LinkedMethod :=
  let labels := placesFrom [] 0 m.code
  let place (l : Label) := (labels.lookup l).getD 0
  ⟨m, m.code.toArray, labels,
    m.handlers.map fun h => ⟨place h.start, place h.stop, place h.target, h.kind⟩⟩

/-- The handler that an exception of a kind comes to from a place: the first that covers the place
and takes the kind. -/
def handler? (m : LinkedMethod) (place : Nat) (kind : String) : Option LinkedHandler :=
  m.handlers.find? fun h =>
    h.start ≤ place && place < h.stop && (match h.kind with
      | some k => k == kind
      | none => true)

end LinkedMethod

/-- A class as it runs. -/
structure LinkedClass where
  name : String
  sourceFile : Option String
  methods : List LinkedMethod
  deriving DecidableEq, Repr, Inhabited

namespace LinkedClass

/-- A class as it runs. -/
def ofClassFile (c : ClassFile) : LinkedClass :=
  ⟨c.name, c.sourceFile, c.methods.map LinkedMethod.ofMethod⟩

/-- The first method of a name. -/
def method? (c : LinkedClass) (name : String) : Option LinkedMethod :=
  c.methods.find? (·.method.name == name)

end LinkedClass

end Confine
