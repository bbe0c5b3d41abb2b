import Confine.Json.Reader

/-!
What confined code may load from outside its own unit, and which exceptions it can never catch.
-/

namespace Confine

open Json (Doc)

/-- Why a policy makes no sense. -/
inductive PolicyFault where
  | bothLists
  | allowsForbidden (className : String)
  deriving DecidableEq, Repr, Inhabited

/-- The fault in words. -/
def PolicyFault.message : PolicyFault → String
  | bothLists => "can't set both a class allow-list and block-list"
  | allowsForbidden p => "attempt to allow access to unsafe classes: " ++ p

/-- The rules for a loading unit. The lists of classes hold the beginnings of their names. -/
structure LoadingPolicy where
  /-- what may be loaded from the parent; an empty list allows all -/
  allowedClasses : List String
  /-- what may not be loaded from the parent -/
  blockedClasses : List String
  /-- the kinds of exceptions that no handler catches -/
  fatalExceptions : List String
  deriving DecidableEq, Repr, Inhabited

namespace LoadingPolicy

/-- By default all classes may be loaded, and running out of stack or memory is fatal. -/
def default : LoadingPolicy := ⟨[], [], ["StackOverflowError", "OutOfMemoryError"]⟩

/-- The beginnings of the names of classes that no policy makes loadable. -/
def forbiddenClasses : List String := ["warden."]

/-- A name begins like some entry of a list. -/
def beginsLike (entries : List String) (name : String) : Bool :=
  entries.any fun p => p.toList.isPrefixOf name.toList

/-- No policy makes the class loadable. -/
def isForbidden (name : String) : Bool := beginsLike forbiddenClasses name

/-- At most one of the lists is used, and it does not allow what is forbidden. -/
def validate (p : LoadingPolicy) : Except PolicyFault Unit :=
  if !p.allowedClasses.isEmpty && !p.blockedClasses.isEmpty then .error .bothLists
  else match p.allowedClasses.find? isForbidden with
    | some name => .error (.allowsForbidden name)
    | none => .ok ()

/-- Confined code may load the class from outside its own unit. -/
def mayDelegate (p : LoadingPolicy) (name : String) : Bool :=
  if isForbidden name then false
  else if !p.allowedClasses.isEmpty then beginsLike p.allowedClasses name
  else !beginsLike p.blockedClasses name

/-- No handler catches exceptions of the kind. -/
def isFatal (p : LoadingPolicy) (kind : String) : Bool := p.fatalExceptions.contains kind

/-! ### JSON -/

def toJson (p : LoadingPolicy) : Json :=
  .obj [("allowed_classes", .ofList .str p.allowedClasses),
    ("blocked_classes", .ofList .str p.blockedClasses),
    ("unsafe_exceptions", .ofList .str p.fatalExceptions)]

/-- Each field has its default. -/
def ofDoc? (d : Doc) : Option LoadingPolicy := do
  match ← d.record? ["allowed_classes", "blocked_classes", "unsafe_exceptions"] with
  | [allowed, blocked, fatal] =>
    some ⟨← allowed.withDefault default.allowedClasses (Doc.list? Doc.str?),
      ← blocked.withDefault default.blockedClasses (Doc.list? Doc.str?),
      ← fatal.withDefault default.fatalExceptions (Doc.list? Doc.str?)⟩
  | _ => none

end LoadingPolicy

end Confine
