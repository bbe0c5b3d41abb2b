import Confine.Engine.Config
import Confine.Sandbox.Execute

/-!
Engines. An engine runs programs one after the other, each in a loading unit of its own, with the
tracers and limits of its configuration.
-/

namespace Confine

/-- Why an engine has no result. -/
inductive EngineFault where
  | config (fault : ConfigFault)
  /-- no engine has so many slots -/
  | tooManySlots (slots : Nat)
  | load (fault : LoadFault)
  | sandbox (fault : SandboxFault)
  | closed
  deriving DecidableEq, Repr, Inhabited

/-- The fault in words. -/
def EngineFault.message : EngineFault → String
  | config fault => fault.message
  | tooManySlots n => "no engine has " ++ toString n ++ " slots"
  | load fault => fault.message
  | sandbox fault => fault.message
  | closed => "engine is shut down"

/-- One program to run. -/
structure RunRequest where
  program : Compiled
  entry : EntryPoint
  permissions : GrantSet
  /-- without one, the configuration has a default -/
  timeoutMillis : Option Nat
  maxExtraThreads : Nat
  deriving Inhabited

/-- A request with nothing else said. -/
def RunRequest.ofProgram (p : Compiled) : RunRequest := ⟨p, .default, .empty, none, 0⟩

/-- An engine: its configuration, the library that programs may use, what outlives its runs, the
number of the next loading unit, and whether it takes programs. -/
structure Engine where
  config : EngineConfig
  library : Option LoadingUnit
  sandbox : Sandbox
  nextUnit : Nat
  isOpen : Bool
  deriving Inhabited

namespace Engine

/-- How many slots an engine may have. -/
def maxSlots : Nat := (UInt64.size - 1) / 8

/-- An engine with a configuration. -/
def create (c : EngineConfig) : Except EngineFault Engine := do
  c.validate.mapError .config
  if maxSlots < c.maxConcurrentTasks then .error (.tooManySlots c.maxConcurrentTasks)
  else .ok ⟨c, none, .empty, 1, true⟩

/-- The tracers that the configuration asks for. -/
def tracers (c : EngineConfig) : Except TracerFault (Roster Tracer) :=
  let lines := if c.tracers.lineTrace then [Tracer.lineTrace c.tracers.lineTraceArguments] else []
  let methods :=
    if c.tracers.methodTrace then [Tracer.methodTrace c.tracers.methodTraceArguments] else []
  (Roster.empty : Roster Tracer).addAll (lines ++ methods)

/-- The slots that are free. Between runs all are. -/
def availableSlots (e : Engine) : Nat := e.config.maxConcurrentTasks

/-- A fresh loading unit for a program; its number is used up if it can be built. -/
def load (e : Engine) (p : Compiled) : Except LoadFault (LoadingUnit × Engine) := do
  let tracers ← (tracers e.config).mapError .tracer
  let u ← LoadingUnit.build ⟨p, e.library, e.config.policy, tracers, .untrusted⟩ ⟨e.nextUnit⟩
  .ok (u, { e with nextUnit := e.nextUnit + 1 })

/-- The arguments of a run. -/
def arguments (e : Engine) (r : RunRequest) : ExecutionArguments :=
  ⟨r.timeoutMillis.getD e.config.defaultTimeoutMillis, r.permissions, r.maxExtraThreads, true,
    e.config.maxOutputLines⟩

/-- The engine takes no more programs. -/
def close (e : Engine) : Engine := { e with isOpen := false }

section

variable {m : Type → Type} [Monad m]

/-- Runs a program. -/
@[specialize] def run (host : Host m) (e : Engine) (r : RunRequest) :
    m (Except EngineFault ExecutionResult × Engine) :=
  if !e.isOpen then pure (.error .closed, e)
  else match e.load r.program with
    | .error fault => pure (.error (.load fault), e)
    | .ok (u, e) => do
      let x ← Sandbox.execute host e.sandbox ⟨0⟩ u u.noneLoaded (e.arguments r) r.entry
      pure (x.outcome.mapError .sandbox, { e with sandbox := x.sandbox })

/-- Runs programs; gives their results in the same order. -/
@[specialize] def runAll (host : Host m) (e : Engine) :
    List RunRequest → m (List (Except EngineFault ExecutionResult) × Engine)
  | [] => pure ([], e)
  | r :: rest => do
    let (result, e) ← e.run host r
    let (results, e) ← e.runAll host rest
    pure (result :: results, e)

end

end Engine

end Confine
