import Confine.Confinement.Registry
import Confine.Loading.Linked
import Confine.Loading.Policy
import Confine.Program.Compiled
import Confine.Program.Verifier
import Confine.Tracing.Tracer

/-!
Loading units. A unit has the classes of one program, checked and instrumented, and stands on top of
the units that it may take other classes from. Which classes have been loaded is kept apart from
the unit, which never changes.
-/

namespace Confine

/-- Why a unit cannot be built, or a class not be loaded. -/
inductive LoadFault where
  | notFound (className : String)
  | blocked (className : String)
  | undecodable (className : String)
  | nameMismatch (expected found : String)
  | verify (fault : VerifyFault)
  | policy (fault : PolicyFault)
  | tracer (fault : TracerFault)
  deriving DecidableEq, Repr, Inhabited

/-- The fault in words. -/
def LoadFault.message : LoadFault → String
  | notFound c => "class " ++ c ++ " not found"
  | blocked c => "class " ++ c ++ " is not loadable from confined code"
  | undecodable c => "failed to decode class " ++ c
  | nameMismatch expected found => "class " ++ expected ++ " contains class " ++ found
  | verify fault => fault.message
  | policy fault => "invalid loader configuration: " ++ fault.message
  | tracer fault => fault.message

/-- A class of a unit: as it runs, and the text of its class file, which is what the unit hands
out. -/
structure DefinedClass where
  linked : LinkedClass
  file : String
  deriving DecidableEq, Repr, Inhabited

/-- One layer of a unit: the classes of one program. -/
structure Layer where
  id : UnitId
  /-- the digest of the source of the program -/
  digest : String
  policy : LoadingPolicy
  instrumentation : List Instrumentation
  /-- the classes, in the order of their names -/
  classes : List (String × DefinedClass)
  deriving Repr, Inhabited

namespace Layer

/-- The class of a name, as it runs. -/
def class? (l : Layer) (name : String) : Option LinkedClass :=
  (getNamed? name l.classes).map (·.linked)

/-- The text of a class file. -/
def file? (l : Layer) (name : String) : Option String := (getNamed? name l.classes).map (·.file)

/-- The names of the classes. -/
def definedClasses (l : Layer) : List String := l.classes.map (·.1)

end Layer

/-- A loading unit: its own layer and those it stands on, the nearest first. -/
structure LoadingUnit where
  own : Layer
  parents : List Layer
  deriving Repr, Inhabited

namespace LoadingUnit

/-- All layers, the nearest first. -/
def layers (u : LoadingUnit) : List Layer := u.own :: u.parents

def id (u : LoadingUnit) : UnitId := u.own.id

/-! ### Building -/

/-- What a unit is built from. -/
structure Plan where
  program : Compiled
  parent : Option LoadingUnit
  policy : LoadingPolicy
  tracers : Roster Tracer
  origin : Origin
  deriving Inhabited

namespace Plan

/-- The plan for a program with nothing else said. -/
def ofProgram (p : Compiled) : Plan := ⟨p, none, .default, .empty, .untrusted⟩

/-- The plan for a library: its code is trusted. -/
def library (p : Compiled) : Plan := { ofProgram p with origin := .trusted }

end Plan

/-- Checks and instruments one class of a program. -/
def define (origin : Origin) (is : List Instrumentation) (name : String) (bytes : ByteArray) :
    Except LoadFault (DefinedClass × List Instrumentation) := do
  let c ← match ClassFile.decodeBytes? bytes with
    | some c => .ok c
    | none => .error (.undecodable name)
  if c.name != name then .error (.nameMismatch name c.name)
  else
    (Verifier.check .submitted c).mapError .verify
    let (c, is) ← (Instrumentation.instrumentAll origin c is).mapError .tracer
    (Verifier.check .instrumented c).mapError .verify
    .ok (⟨LinkedClass.ofClassFile c, c.encode⟩, is)

/-- Checks and instruments classes one by one, behind those in `done` (latest first). -/
def defineAll (origin : Origin) (is : List Instrumentation)
    (done : List (String × DefinedClass)) : List (String × ByteArray) →
    Except LoadFault (List (String × DefinedClass) × List Instrumentation)
  | [] => .ok (done.reverse, is)
  | (name, bytes) :: rest =>
    match define origin is name bytes with
    | .error fault => .error fault
    | .ok (c, is) => defineAll origin is ((name, c) :: done) rest

/-- Builds a unit with a number. -/
def build (p : Plan) (id : UnitId) : Except LoadFault LoadingUnit := do
  p.policy.validate.mapError .policy
  let (classes, is) ←
    defineAll p.origin (Instrumentation.ofRoster p.tracers) [] p.program.classes
  .ok ⟨⟨id, p.program.digest, p.policy, is, classes⟩,
    match p.parent with
    | some u => u.layers
    | none => []⟩

/-! ### Looking up classes -/

/-- The class of a name in the nearest layer that defines it, if the layers before it may ask. -/
def findIn (name : String) : List Layer → Option LinkedClass
  | [] => none
  | l :: rest =>
    match l.class? name with
    | some c => some c
    | none => if l.policy.mayDelegate name then findIn name rest else none

/-- The class of a name, without a trace of the question. -/
def findClass (u : LoadingUnit) (name : String) : Option LinkedClass := findIn name u.layers

/-- The text without all its leading copies of `./`. -/
def dropHere : List Char → List Char
  | '.' :: '/' :: rest => dropHere rest
  | s => s

/-- The name of the class that a path names, if it is one of a class file. -/
def classOfPath? (path : String) : Option String :=
  let s := (dropHere path.toList).dropWhile (· == '/')
  let ending := ".class".toList
  if ending.isSuffixOf s then
    let stem := s.take (s.length - ending.length)
    some (String.ofList (stem.map fun c => if c = '/' then '.' else c))
  else none

/-- The text of the class file of a path. Only the unit's own classes have one. -/
def classFile? (u : LoadingUnit) (path : String) : Option String := do
  let name ← classOfPath? path
  u.own.file? name

/-! ### Loading classes -/

/-- Which classes a layer has been asked for, in the order of their names. -/
structure ClassSets where
  /-- its own classes -/
  provided : List String
  /-- its own classes, and those it got from the layers below -/
  loaded : List String
  deriving DecidableEq, Repr, Inhabited

/-- A name goes into a list in increasing order, once. -/
def insertName (name : String) : List String → List String
  | [] => [name]
  | n :: rest =>
    if name == n then n :: rest
    else if name < n then name :: n :: rest
    else n :: insertName name rest

namespace ClassSets

def empty : ClassSets := ⟨[], []⟩

/-- The layer has handed out its own class. -/
def provide (s : ClassSets) (name : String) : ClassSets :=
  ⟨insertName name s.provided, insertName name s.loaded⟩

/-- The layer has got a class from below. -/
def receive (s : ClassSets) (name : String) : ClassSets := ⟨s.provided, insertName name s.loaded⟩

end ClassSets

/-- No layer has been asked for anything. -/
def noneLoaded (u : LoadingUnit) : List ClassSets := u.layers.map fun _ => .empty

/-- Loads a class from layers, each with its sets. -/
def loadIn (name : String) :
    List Layer → List ClassSets → Except LoadFault (LinkedClass × List ClassSets)
  | [], _ => .error (.notFound name)
  | l :: rest, sets =>
    let s := sets.headD .empty
    match l.class? name with
    | some c => .ok (c, s.provide name :: sets.tail)
    | none =>
      if l.policy.mayDelegate name then
        match loadIn name rest sets.tail with
        | .ok (c, below) => .ok (c, s.receive name :: below)
        | .error fault => .error fault
      else .error (.blocked name)

/-- The unit's own policy refuses the class. -/
def refuses (u : LoadingUnit) (name : String) : Bool :=
  (u.own.class? name).isNone && !u.own.policy.mayDelegate name

/-- Loads a class for code with a capability. If the unit's own policy refuses the class, that is
logged; what the units below refuse is not. -/
def loadClass (u : LoadingUnit) (sets : List ClassSets) (name : String) (cap : Option Capability)
    (s : Confinements) : Except LoadFault (LinkedClass × List ClassSets) × Confinements :=
  let s := match cap with
    | some cap => if u.refuses name then s.record cap (.loadClass name) false else s
    | none => s
  (loadIn name u.layers sets, s)

end LoadingUnit

end Confine
