import Confine.Output.Capture
import Confine.Permission.Basic
import Confine.Tracing.Tracer
import Confine.Uuid

/-!
The result of a run.
-/

namespace Confine

open Json (Doc)
open Time (Timestamp)

/-- The error that ended a run. -/
structure TaskError where
  kind : String
  message : String
  deriving DecidableEq, Repr, Inhabited

namespace TaskError

def toJson (e : TaskError) : Json := .obj [("kind", .str e.kind), ("message", .str e.message)]

def ofDoc? (d : Doc) : Option TaskError := do
  match ← d.record? ["kind", "message"] with
  | [k, m] => some ⟨← k.required Doc.str?, ← m.required Doc.str?⟩
  | _ => none

end TaskError

/-- What a run came to. -/
structure ExecutionResult where
  taskId : Uuid
  /-- it returned, and nothing was denied -/
  completed : Bool
  timedOut : Bool
  failed : Bool
  killed : Bool
  killReason : Option String
  error : Option TaskError
  permissionDenied : Bool
  /-- what it returned, if it returned -/
  returned : Option Json
  outputLines : List OutputLine
  truncatedLines : Nat
  permissionLog : List Decision
  started : Timestamp
  stopped : Timestamp
  executionMillis : Nat
  /-- the results of the tracers, in the order of their names -/
  tracerResults : List (String × Json)
  deriving Repr, Inhabited

namespace ExecutionResult

/-- Lines as a text, with a line feed between them. -/
def joinLines (lines : List OutputLine) : String := "\n".intercalate (lines.map (·.text))

/-- The lines of one stream. -/
def linesOn (r : ExecutionResult) (c : Console) : List OutputLine :=
  r.outputLines.filter (·.console = c)

def stdout (r : ExecutionResult) : String := joinLines (r.linesOn .stdout)

def stderr (r : ExecutionResult) : String := joinLines (r.linesOn .stderr)

/-- The lines of both streams in the order in which they were started. Lines of one time keep their
order. -/
def merged (r : ExecutionResult) : List OutputLine :=
  r.outputLines.mergeSort fun a b => a.time.le b.time

/-- The text of both streams. -/
def output (r : ExecutionResult) : String := joinLines r.merged

/-- The result of a tracer. -/
def tracerResult? (r : ExecutionResult) (id : String) : Option Json := r.tracerResults.lookup id

/-- The result of the line trace, if it is one. -/
def lineTrace? (r : ExecutionResult) : Option LineTrace.Result := do
  let v ← r.tracerResult? LineTrace.id
  LineTrace.Result.ofDoc? v.toDoc

/-- The result of the method trace, if it is one. -/
def methodTrace? (r : ExecutionResult) : Option MethodTrace.Result := do
  let v ← r.tracerResult? MethodTrace.id
  MethodTrace.Result.ofDoc? v.toDoc

/-! ### JSON -/

def toJson (r : ExecutionResult) : Json :=
  .obj [("task_id", .str r.taskId.text), ("completed", .bool r.completed),
    ("timed_out", .bool r.timedOut), ("failed", .bool r.failed), ("killed", .bool r.killed),
    ("kill_reason", .ofOption .str r.killReason), ("error", .ofOption TaskError.toJson r.error),
    ("permission_denied", .bool r.permissionDenied), ("returned", r.returned.getD .null),
    ("output_lines", .ofList OutputLine.toJson r.outputLines),
    ("truncated_lines", .nat r.truncatedLines),
    ("permission_log", .ofList Decision.toJson r.permissionLog),
    ("started", .str r.started.text), ("ended", .str r.stopped.text),
    ("execution_millis", .nat r.executionMillis), ("plugin_results", .obj r.tracerResults)]

/-- The names of the fields, in order. -/
def fieldNames : List String :=
  ["task_id", "completed", "timed_out", "failed", "killed", "kill_reason", "error",
    "permission_denied", "returned", "output_lines", "truncated_lines", "permission_log",
    "started", "ended", "execution_millis", "plugin_results"]

/-- The results of tracers: an object. -/
def tracerResultsOfDoc? (d : Doc) : Option (List (String × Json)) := do
  match d with
  | .obj _ =>
    match ← d.anyWithin? 1 with
    | .obj fields => some fields
    | _ => none
  | _ => none

/-- A point in time. -/
def time? (d : Doc) : Option Timestamp := d.str?.bind Timestamp.ofText?

def ofDoc? (d : Doc) : Option ExecutionResult := do
  match ← d.record? fieldNames with
  | [taskId, completed, timedOut, failed, killed, killReason, error, denied, returned, lines,
      truncated, log, started, stopped, millis, results] =>
    some {
      taskId := ← taskId.required fun d => d.str?.bind Uuid.ofText?
      completed := ← completed.required Doc.bool?
      timedOut := ← timedOut.required Doc.bool?
      failed := ← failed.required Doc.bool?
      killed := ← killed.required Doc.bool?
      killReason := ← killReason.optional Doc.str?
      error := ← error.optional TaskError.ofDoc?
      permissionDenied := ← denied.required Doc.bool?
      returned := ← returned.optional (Doc.anyWithin? 1)
      outputLines := ← lines.required (Doc.list? OutputLine.ofDoc?)
      truncatedLines := ← truncated.required Doc.count?
      permissionLog := ← log.required (Doc.list? Decision.ofDoc?)
      started := ← started.required time?
      stopped := ← stopped.required time?
      executionMillis := ← millis.required Doc.count?
      tracerResults := ← results.required tracerResultsOfDoc? }
  | _ => none

end ExecutionResult

end Confine
