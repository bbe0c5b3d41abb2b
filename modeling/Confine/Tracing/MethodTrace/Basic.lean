import Confine.Json.Reader
import Confine.Tracing.LineTrace.Basic

/-!
The method trace: which methods a program enters, with what arguments. Here are its arguments and
its result. In tasks with a line trace, the lines stand among the entries.
-/

namespace Confine.MethodTrace

open Json (Doc)

/-- The name of the tracer. -/
def id : String := "method-trace"

/-- It comes after the line trace, whose lines it records too. -/
def runsAfter : List String := [LineTrace.id]

/-- The arguments of the tracer. -/
structure Arguments where
  /-- how many steps are kept -/
  recordedStepLimit : Nat
  deriving DecidableEq, Repr, Inhabited

namespace Arguments

def default : Arguments := ⟨5000⟩

def toJson (a : Arguments) : Json := .obj [("recorded_step_limit", .nat a.recordedStepLimit)]

/-- Each field has its default. -/
def ofDoc? (d : Doc) : Option Arguments := do
  match ← d.record? ["recorded_step_limit"] with
  | [steps] => some ⟨← steps.withDefault default.recordedStepLimit Doc.count?⟩
  | _ => none

end Arguments

/-- An argument of a call, with the name of its parameter. -/
structure Argument where
  name : String
  value : Json
  deriving Repr, Inhabited

/-- A step of a task. -/
inductive Step where
  | line (source : String) (line : UInt32)
  | enter (method : String) (receiver : Option Json) (arguments : List Argument)
  deriving Repr, Inhabited

namespace Argument

def toJson (a : Argument) : Json := .obj [("name", .str a.name), ("value", a.value)]

def ofDoc? (d : Doc) : Option Argument := do
  match ← d.record? ["name", "value"] with
  | [name, value] => some ⟨← name.required Doc.str?, ← value.required Doc.any?⟩
  | _ => none

end Argument

namespace Step

/-- The step is an object with its type. -/
def toJson : Step → Json
  | line source n =>
    .obj [("type", .str "line"), ("source", .str source), ("line", .nat n.toNat)]
  | enter method receiver arguments =>
    .obj [("type", .str "enter"), ("method", .str method), ("receiver", receiver.getD .null),
      ("arguments", .ofList Argument.toJson arguments)]

/-- The step of a type and the record of its other fields. -/
def ofType? (type : String) (d : Doc) : Option Step :=
  match type with
  | "line" => do
    match ← d.record? ["source", "line"] with
    | [source, n] => some (line (← source.required Doc.str?) (← n.required Doc.uint32?))
    | _ => none
  | "enter" => do
    match ← d.record? ["method", "receiver", "arguments"] with
    | [method, receiver, arguments] =>
      some (enter (← method.required Doc.str?) (← receiver.optional Doc.any?)
        (← arguments.required (Doc.list? Argument.ofDoc?)))
    | _ => none
  | _ => none

/-- Reads a step: an object, one field of which is the type, or an array that starts with the type.
Nothing in it may be no text or nest too deep, not even in fields that do not count. -/
def ofDoc? (d : Doc) : Option Step := do
  let _ ← d.any?
  match d with
  | .arr (type :: rest) => ofType? (← type.str?) (.arr rest)
  | .obj fields =>
    let type ← Doc.slotNamed? fields "type"
    ofType? (← type.required Doc.str?) (.obj (fields.filter (·.1 != some "type")))
  | _ => none

end Step

/-- What the tracer has found. -/
structure Result where
  arguments : Arguments
  steps : List Step
  deriving Repr, Inhabited

namespace Result

def toJson (r : Result) : Json :=
  .obj [("arguments", r.arguments.toJson), ("steps", .ofList Step.toJson r.steps)]

def ofDoc? (d : Doc) : Option Result := do
  match ← d.record? ["arguments", "steps"] with
  | [arguments, steps] =>
    some ⟨← arguments.required Arguments.ofDoc?, ← steps.required (Doc.list? Step.ofDoc?)⟩
  | _ => none

end Result

end Confine.MethodTrace
