import Confine.Permission.GrantSet

/-!
What a run is given: its limits, its permissions and where it starts.
-/

namespace Confine

open Json (Doc)

/-- The limits and the permissions of a run. -/
structure ExecutionArguments where
  timeoutMillis : Nat
  permissions : GrantSet
  maxExtraThreads : Nat
  /-- output is captured; otherwise it goes to the streams of the host -/
  captureOutput : Bool
  maxOutputLines : Nat
  deriving DecidableEq, Repr, Inhabited

namespace ExecutionArguments

def default : ExecutionArguments := ⟨100, .empty, 0, true, 1024⟩

def toJson (a : ExecutionArguments) : Json :=
  .obj [("timeout_ms", .nat a.timeoutMillis), ("permissions", a.permissions.toJson),
    ("max_extra_threads", .nat a.maxExtraThreads), ("capture_output", .bool a.captureOutput),
    ("max_output_lines", .nat a.maxOutputLines)]

/-- Each field that is left out has its value in `base`. -/
def ofDocWith? (base : ExecutionArguments) (d : Doc) : Option ExecutionArguments := do
  match ← d.record? ["timeout_ms", "permissions", "max_extra_threads", "capture_output",
      "max_output_lines"] with
  | [timeout, permissions, threads, capture, lines] =>
    some ⟨← timeout.withDefault base.timeoutMillis Doc.count?,
      ← permissions.withDefault base.permissions GrantSet.ofDoc?,
      ← threads.withDefault base.maxExtraThreads Doc.count?,
      ← capture.withDefault base.captureOutput Doc.bool?,
      ← lines.withDefault base.maxOutputLines Doc.count?⟩
  | _ => none

/-- Each field has its default. -/
def ofDoc? (d : Doc) : Option ExecutionArguments := ofDocWith? default d

end ExecutionArguments

/-- The method that a run starts in. -/
structure EntryPoint where
  className : String
  methodName : String
  deriving DecidableEq, Repr, Inhabited

namespace EntryPoint

def default : EntryPoint := ⟨"Main", "main"⟩

def toJson (e : EntryPoint) : Json :=
  .obj [("class", .str e.className), ("method", .str e.methodName)]

def ofDoc? (d : Doc) : Option EntryPoint := do
  match ← d.record? ["class", "method"] with
  | [c, m] => some ⟨← c.required Doc.str?, ← m.required Doc.str?⟩
  | _ => none

end EntryPoint

end Confine
