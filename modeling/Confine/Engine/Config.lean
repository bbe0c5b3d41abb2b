import Confine.Host.Basic
import Confine.Json.Parser
import Confine.Loading.Policy
import Confine.Sandbox.Arguments
import Confine.Text.Blank
import Confine.Text.Quoted
import Confine.Tracing.LineTrace.Basic
import Confine.Tracing.MethodTrace.Basic

/-!
The configuration of an engine: it comes from a file, and the environment overrides some of it.
-/

namespace Confine

open Json (Doc)

/-- Which tracers are on, and their arguments. -/
structure TracerConfig where
  lineTrace : Bool
  lineTraceArguments : LineTrace.Arguments
  methodTrace : Bool
  methodTraceArguments : MethodTrace.Arguments
  deriving DecidableEq, Repr, Inhabited

namespace TracerConfig

def default : TracerConfig := ⟨false, .default, false, .default⟩

def toJson (c : TracerConfig) : Json :=
  .obj [("line_trace", .bool c.lineTrace), ("line_trace_arguments", c.lineTraceArguments.toJson),
    ("method_trace", .bool c.methodTrace),
    ("method_trace_arguments", c.methodTraceArguments.toJson)]

/-- Each field has its default. -/
def ofDoc? (d : Doc) : Option TracerConfig := do
  match ← d.record? ["line_trace", "line_trace_arguments", "method_trace",
      "method_trace_arguments"] with
  | [lines, lineArguments, methods, methodArguments] =>
    some ⟨← lines.withDefault default.lineTrace Doc.bool?,
      ← lineArguments.withDefault default.lineTraceArguments LineTrace.Arguments.ofDoc?,
      ← methods.withDefault default.methodTrace Doc.bool?,
      ← methodArguments.withDefault default.methodTraceArguments MethodTrace.Arguments.ofDoc?⟩
  | _ => none

end TracerConfig

/-- What makes no sense in a configuration. -/
inductive ConfigProblem where
  | noTasks
  | noTimeout
  | policy (fault : PolicyFault)
  deriving DecidableEq, Repr, Inhabited

/-- The problem in words. -/
def ConfigProblem.message : ConfigProblem → String
  | noTasks => "max_concurrent_tasks must be at least 1"
  | noTimeout => "default_timeout_ms must be at least 1"
  | policy fault => "invalid loader configuration: " ++ fault.message

/-- Why there is no configuration. -/
inductive ConfigFault where
  /-- the file cannot be read, for a reason in words -/
  | unreadable (path reason : String)
  | notJson
  /-- a variable of the environment has a bad value -/
  | environment (name value : String)
  | invalid (problem : ConfigProblem)
  deriving DecidableEq, Repr, Inhabited

/-- The fault in words. -/
def ConfigFault.message : ConfigFault → String
  | unreadable path reason => "failed to read " ++ path ++ ": " ++ reason
  | notJson => "invalid configuration file"
  | environment name value => "invalid value " ++ Text.quoted value ++ " for " ++ name
  | invalid problem => "invalid configuration: " ++ problem.message

/-- The configuration of an engine. -/
structure EngineConfig where
  /-- how many tasks may run at once -/
  maxConcurrentTasks : Nat
  defaultTimeoutMillis : Nat
  maxOutputLines : Nat
  policy : LoadingPolicy
  tracers : TracerConfig
  deriving DecidableEq, Repr, Inhabited

namespace EngineConfig

def default : EngineConfig :=
  ⟨4, ExecutionArguments.default.timeoutMillis, ExecutionArguments.default.maxOutputLines, .default,
    .default⟩

def toJson (c : EngineConfig) : Json :=
  .obj [("max_concurrent_tasks", .nat c.maxConcurrentTasks),
    ("default_timeout_ms", .nat c.defaultTimeoutMillis),
    ("max_output_lines", .nat c.maxOutputLines), ("loader", c.policy.toJson),
    ("plugins", c.tracers.toJson)]

/-- Each field that is left out has its value in `base`. -/
def ofDocWith? (base : EngineConfig) (d : Doc) : Option EngineConfig := do
  match ← d.record? ["max_concurrent_tasks", "default_timeout_ms", "max_output_lines", "loader",
      "plugins"] with
  | [tasks, timeout, lines, policy, tracers] =>
    some ⟨← tasks.withDefault base.maxConcurrentTasks Doc.count?,
      ← timeout.withDefault base.defaultTimeoutMillis Doc.count?,
      ← lines.withDefault base.maxOutputLines Doc.count?,
      ← policy.withDefault base.policy LoadingPolicy.ofDoc?,
      ← tracers.withDefault base.tracers TracerConfig.ofDoc?⟩
  | _ => none

/-- Each field has its default. -/
def ofDoc? (d : Doc) : Option EngineConfig := ofDocWith? default d

/-- Tasks can run, for some time, under a policy that makes sense. -/
def validate (c : EngineConfig) : Except ConfigFault Unit :=
  if c.maxConcurrentTasks = 0 then .error (.invalid .noTasks)
  else if c.defaultTimeoutMillis = 0 then .error (.invalid .noTimeout)
  else c.policy.validate.mapError fun fault => .invalid (.policy fault)

/-- The variable that overrides the number of tasks. -/
def tasksVariable : String := "WARDEN_MAX_CONCURRENT_TASKS"

/-- The variable that overrides the time limit. -/
def timeoutVariable : String := "WARDEN_DEFAULT_TIMEOUT_MS"

/-- The number that a variable overrides, if it is set. -/
def overridden (name : String) (value : Option String) (old : Nat) : Except ConfigFault Nat :=
  match value with
  | none => .ok old
  | some v =>
    match Text.uint64? (String.ofList (Text.trim v.toList)) with
    | some n => .ok n
    | none => .error (.environment name v)

/-- The configuration under the values of the two variables. -/
def withOverrides (c : EngineConfig) (tasks timeout : Option String) :
    Except ConfigFault EngineConfig := do
  let tasks ← overridden tasksVariable tasks c.maxConcurrentTasks
  let timeout ← overridden timeoutVariable timeout c.defaultTimeoutMillis
  let c := { c with maxConcurrentTasks := tasks, defaultTimeoutMillis := timeout }
  c.validate
  .ok c

/-- The configuration of a text. -/
def ofText (text : String) : Except ConfigFault EngineConfig :=
  match (Json.Doc.ofText? text).bind ofDoc? with
  | none => .error .notJson
  | some c => do
    c.validate
    .ok c

variable {m : Type → Type} [Monad m]

/-- The configuration of a file. -/
def ofFile (host : Host m) (path : String) : m (Except ConfigFault EngineConfig) := do
  match ← host.readFile path with
  | .error reason => pure (.error (.unreadable path reason))
  | .ok text => pure (ofText text)

/-- The configuration of a file, or the default, under the environment. -/
def load (host : Host m) (path : Option String) : m (Except ConfigFault EngineConfig) := do
  let base ← match path with
    | some path => ofFile host path
    | none => pure (.ok default)
  match base with
  | .error fault => pure (.error fault)
  | .ok c => do
    let tasks ← host.getEnv tasksVariable
    let timeout ← host.getEnv timeoutVariable
    pure (c.withOverrides tasks timeout)

end EngineConfig

end Confine
