import Confine.Sandbox.Result

/-!
The report of a run for people: the output of the program on one stream, and on the other what
happened.
-/

namespace Confine.Command

/-- How a run ended, in a word. -/
def status (r : ExecutionResult) : String :=
  if r.completed then "completed"
  else if r.timedOut then "timed out"
  else if r.killed then "killed"
  else if r.failed then "failed"
  else "denied"

/-- The lines of the report on the stream of the output. -/
def outputReport (r : ExecutionResult) : List String :=
  (if r.output.isEmpty then [] else [r.output]) ++
    if 0 < r.truncatedLines then ["... " ++ toString r.truncatedLines ++ " more lines"] else []

/-- The line for a decision. -/
def decisionLine (d : Decision) : String :=
  "-- " ++ (if d.granted then "granted" else "denied") ++ " " ++ d.permission.text

/-- A source line. -/
def sourceLine (source : String) (line : UInt32) : String := source ++ ":" ++ toString line.toNat

/-- The lines for the result of the line trace. -/
def lineTraceReport (t : LineTrace.Result) : List String :=
  ("-- " ++ toString t.linesRun ++ " lines run") ::
    t.steps.map fun s => "   [" ++ toString s.thread ++ "] " ++ sourceLine s.source s.line

/-- The line for a step of the method trace. -/
def stepLine : MethodTrace.Step → String
  | .line source line => "   " ++ sourceLine source line
  | .enter method _ arguments =>
    "   -> " ++ method ++ "(" ++
      ", ".intercalate (arguments.map fun a => a.name ++ "=" ++ a.value.compact) ++ ")"

/-- The lines of the report on the other stream. -/
def eventReport (r : ExecutionResult) : List String :=
  ["-- " ++ status r ++ " in " ++ toString r.executionMillis ++ " ms"] ++
    (r.killReason.map fun reason => "-- kill reason: " ++ reason).toList ++
    (r.error.map fun e => "-- " ++ e.kind ++ ": " ++ e.message).toList ++
    r.permissionLog.map decisionLine ++
    (match r.lineTrace? with
      | some t => lineTraceReport t
      | none => []) ++
    (match r.methodTrace? with
      | some t => t.steps.map stepLine
      | none => [])

end Confine.Command
