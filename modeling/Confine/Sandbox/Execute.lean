import Confine.Sandbox.Result
import Confine.Sandbox.Run

/-!
Execution: a unit is confined, its program or trusted work runs, and the confinement is released,
however the run ends. What goes wrong in the program is part of the result; what goes wrong outside
it is a fault.
-/

namespace Confine

/-- Why there is no result. -/
inductive SandboxFault where
  | forbiddenPermission (p : Permission)
  | classNotFound (className : String)
  | methodNotFound (className methodName : String)
  | invalidEntryPoint (descriptor : String)
  | tracer (fault : TracerFault)
  | confinement (fault : ConfinementFault)
  | panicked (message : String)
  deriving DecidableEq, Repr, Inhabited

/-- The fault in words. -/
def SandboxFault.message : SandboxFault → String
  | forbiddenPermission p => "permission " ++ p.text ++ " can never be granted"
  | classNotFound c => "class " ++ c ++ " not found"
  | methodNotFound c m => "method " ++ c ++ "." ++ m ++ " not found"
  | invalidEntryPoint d => "entry point " ++ d ++ " must be static and take no parameters"
  | tracer fault => fault.message
  | confinement fault => fault.message
  | panicked message => "task thread panicked: " ++ message

/-- What outlives a run: the objects and the confinements. -/
structure Sandbox where
  heap : Heap
  confinements : Confinements
  deriving Inhabited

namespace Sandbox

def empty : Sandbox := ⟨.empty, .empty⟩

/-! ### Before the run -/

/-- The entry point is a static method without parameters. -/
def checkEntry (u : LoadingUnit) (e : EntryPoint) : Except SandboxFault Unit :=
  match u.findClass e.className with
  | none => .error (.classNotFound e.className)
  | some c =>
    match c.method? e.methodName with
    | none => .error (.methodNotFound e.className e.methodName)
    | some m =>
      if m.method.isStatic && m.method.params.isEmpty then .ok ()
      else .error (.invalidEntryPoint (m.method.descriptor e.className))

/-- A run that can begin. -/
structure Prepared where
  token : ConfinementToken
  task : Task
  state : TaskState
  deriving Inhabited

/-- Where the output of a run goes. -/
def sinkFor (a : ExecutionArguments) : OutputSink :=
  if a.captureOutput then .captured (.start a.maxOutputLines) else .passThrough "" ""

/-- Prepares a run: no forbidden permission is granted, the tracers agree, and the unit is
confined. -/
def prepare (sb : Sandbox) (r : RegistryId) (u : LoadingUnit) (sets : List LoadingUnit.ClassSets)
    (a : ExecutionArguments) : Except SandboxFault Prepared :=
  match a.permissions.firstForbidden? with
  | some p => .error (.forbiddenPermission p)
  | none => do
    let recordings ← (Recordings.start a.maxExtraThreads u.own.instrumentation).mapError .tracer
    let (token, confinements) ←
      (sb.confinements.confine r u.id a.permissions).mapError .confinement
    let capability ← (confinements.capability r token).mapError .confinement
    .ok ⟨token, ⟨u, capability, a.maxExtraThreads⟩, {
      heap := sb.heap
      confinements := confinements
      classSets := sets
      sink := sinkFor a
      recordings := recordings
      cancelled := false
      killReason := none
      nextThread := 1
      finished := []
      starting := [] }⟩

/-! ### After the run -/

/-- What is left of a run. -/
structure Execution where
  outcome : Except SandboxFault ExecutionResult
  /-- the answers of the steps of trusted work that have finished -/
  answers : List WorkAnswer
  sandbox : Sandbox
  classSets : List LoadingUnit.ClassSets
  /-- what went through to the two streams of the host -/
  passedThrough : String × String
  deriving Inhabited

/-- An execution that did not begin. -/
def Execution.failed (sb : Sandbox) (sets : List LoadingUnit.ClassSets) (fault : SandboxFault) :
    Execution := ⟨.error fault, [], sb, sets, ("", "")⟩

/-- When a run was made, and its name. -/
structure Record where
  taskId : Uuid
  started : Time.Timestamp
  stopped : Time.Timestamp
  executionMillis : Nat
  deriving Inhabited

/-- What the main thread came to: the value that it returned, or the error that ended it, or
neither if it was cancelled. -/
def conclusion : Option WorkEnd → Except SandboxFault (Option Value × Option TaskError)
  | none => .ok (none, none)
  | some (.panicked message) => .error (.panicked message)
  | some (.finished r) =>
    match r with
    | .ok v => .ok (some v, none)
    | .error (.threw e) => .ok (none, some ⟨e.kind, e.message⟩)
    | .error (.security p) => .ok (none, some ⟨"SecurityException", p.text⟩)
    | .error .cancelled => .ok (none, none)
    | .error (.confinement fault) => .error (.confinement fault)

/-- The lines of the output, how many were dropped, and what went through to the host. -/
def outputOf : OutputSink → (List OutputLine × Nat) × (String × String)
  | .captured c => (c.finish.1, ("", ""))
  | .passThrough out err => (([], 0), (out, err))

/-- The result of a run. -/
def resultOf (rec : Record) (s : TaskState) (outcome : Option WorkEnd) (log : List Decision)
    (output : List OutputLine × Nat) : Except SandboxFault ExecutionResult := do
  let (value, error) ← conclusion outcome
  let killed := s.killReason.isSome
  let timedOut := outcome.isNone && !killed
  let denied := log.any (!·.granted)
  .ok {
    taskId := rec.taskId
    completed := value.isSome && !denied && !killed && !timedOut
    timedOut := timedOut
    failed := error.isSome
    killed := killed
    killReason := s.killReason
    error := error
    permissionDenied := denied
    returned := value.map Value.toJson
    outputLines := output.1
    truncatedLines := output.2
    permissionLog := log
    started := rec.started
    stopped := rec.stopped
    executionMillis := rec.executionMillis
    tracerResults := s.recordings.results }

/-- Ends a run: the output is closed and the confinement released. -/
def conclude (r : RegistryId) (p : Prepared) (rec : Record) (e : RunEnd) : Execution :=
  let s := e.shared.cancel
  let (output, passedThrough) := outputOf s.sink.shutDown
  let released := s.confinements.release r p.token p.task.unit.id
  let confinements := match released with
    | .ok (_, c) => c
    | .error _ => s.confinements
  let outcome := do
    let (log, _) ← released.mapError .confinement
    resultOf rec s e.outcome log output
  ⟨outcome, e.progressed.answers.reverse, ⟨s.heap, confinements⟩, s.classSets, passedThrough⟩

/-! ### The run -/

section

variable {m : Type → Type} [Monad m]

/-- Runs trusted work in a unit. The system is taken to have room for the thread, so it always starts. -/
@[specialize] def executeWork (host : Host m) (sb : Sandbox) (r : RegistryId) (u : LoadingUnit)
    (sets : List LoadingUnit.ClassSets) (a : ExecutionArguments) (work : List WorkStep) :
    m Execution :=
  match sb.prepare r u sets a with
  | .error fault => pure (.failed sb sets fault)
  | .ok p => do
    let bytes ← host.randomBytes
    let started ← host.today
    let from_ ← host.elapsed
    let e ← RunState.run host p.task p.state work (a.timeoutMillis * 1000000)
    let until_ ← host.elapsed
    let stopped ← host.today
    pure (conclude r p ⟨.ofRandom bytes, started, stopped, (until_ - from_) / 1000000⟩ e)

/-- Runs the entry point of a unit. -/
@[specialize] def execute (host : Host m) (sb : Sandbox) (r : RegistryId) (u : LoadingUnit)
    (sets : List LoadingUnit.ClassSets) (a : ExecutionArguments) (e : EntryPoint) :
    m Execution :=
  match checkEntry u e with
  | .error fault => pure (.failed sb sets fault)
  | .ok () => executeWork host sb r u sets a e.work

end

end Sandbox

end Confine
