import Confine.Json.Reader
import Confine.Tracing.Signal

/-!
The line trace: which source lines a program reaches. Here are its arguments and its result.
-/

namespace Confine.LineTrace

open Json (Doc)

/-- The name of the tracer. -/
def id : String := "line-trace"

/-- What happens when the limit of lines is reached. -/
inductive LimitAction where
  | killSandbox
  /-- throws an exception in the thread, which no handler catches -/
  | throwUncatchable
  deriving DecidableEq, Repr, Inhabited

namespace LimitAction

def toJson : LimitAction → Json
  | killSandbox => .str "kill_sandbox"
  | throwUncatchable => .str "throw_error"

def ofDoc? (d : Doc) : Option LimitAction := do
  match ← d.name? with
  | "kill_sandbox" => some killSandbox
  | "throw_error" => some throwUncatchable
  | _ => none

end LimitAction

/-- The arguments of the tracer. -/
structure Arguments where
  /-- how many steps of a thread are kept -/
  recordedStepLimit : Nat
  /-- how many lines all threads together may run -/
  runLineLimit : Option Nat
  limitAction : LimitAction
  /-- a line that the code splits into successive pieces counts once -/
  coalesce : Bool
  /-- how many lines a thread counts before it looks at the other threads again -/
  maxUnsynchronized : Nat
  deriving DecidableEq, Repr, Inhabited

namespace Arguments

def default : Arguments := ⟨100000, none, .killSandbox, true, 1000⟩

def toJson (a : Arguments) : Json :=
  .obj [("recorded_step_limit", .nat a.recordedStepLimit),
    ("run_line_limit", .ofOption .nat a.runLineLimit),
    ("run_line_limit_action", a.limitAction.toJson), ("coalesce_duplicates", .bool a.coalesce),
    ("max_unsynchronized_lines", .nat a.maxUnsynchronized)]

/-- Each field has its default. -/
def ofDoc? (d : Doc) : Option Arguments := do
  match ← d.record? ["recorded_step_limit", "run_line_limit", "run_line_limit_action",
      "coalesce_duplicates", "max_unsynchronized_lines"] with
  | [steps, limit, action, coalesce, unsynchronized] =>
    some ⟨← steps.withDefault default.recordedStepLimit Doc.count?,
      ← limit.withDefault default.runLineLimit (Doc.option? Doc.count?),
      ← action.withDefault default.limitAction LimitAction.ofDoc?,
      ← coalesce.withDefault default.coalesce Doc.bool?,
      ← unsynchronized.withDefault default.maxUnsynchronized Doc.count?⟩
  | _ => none

end Arguments

/-- A line that was recorded is written as its source, its number and its thread. -/
def stepJson (s : LineEvent) : Json :=
  .obj [("source", .str s.source), ("line", .nat s.line.toNat), ("thread_index", .nat s.thread)]

def step? (d : Doc) : Option LineEvent := do
  match ← d.record? ["source", "line", "thread_index"] with
  | [source, line, thread] =>
    some ⟨← source.required Doc.str?, ← line.required Doc.uint32?, ← thread.required Doc.count?⟩
  | _ => none

/-- What the tracer has found. -/
structure Result where
  arguments : Arguments
  /-- the steps of each thread in order, the threads in the order of their numbers -/
  steps : List LineEvent
  linesRun : Nat
  deriving DecidableEq, Repr, Inhabited

namespace Result

def toJson (r : Result) : Json :=
  .obj [("arguments", r.arguments.toJson), ("steps", .ofList stepJson r.steps),
    ("lines_run", .nat r.linesRun)]

def ofDoc? (d : Doc) : Option Result := do
  match ← d.record? ["arguments", "steps", "lines_run"] with
  | [arguments, steps, lines] =>
    some ⟨← arguments.required Arguments.ofDoc?, ← steps.required (Doc.list? step?),
      ← lines.required Doc.count?⟩
  | _ => none

end Result

end Confine.LineTrace
