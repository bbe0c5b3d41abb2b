import Confine.Assembly.Assembler
import Confine.Assembly.Disassembler
import Confine.Command.Arguments
import Confine.Command.Report
import Confine.Engine.Basic

/-!
What the commands do.
-/

namespace Confine.Command

/-- What a command leaves: its exit code, and what it has written on the two streams. -/
structure Finish where
  code : Nat
  stdout : String
  stderr : String
  deriving DecidableEq, Repr, Inhabited

/-- Why a command fails, in words, what was the cause of that, and the exit code. -/
structure Failure where
  message : String
  cause : Option String
  code : Nat
  deriving DecidableEq, Repr, Inhabited

namespace Failure

/-- The exit code of most failures. -/
def usualCode : Nat := 1

/-- The exit code when the engine itself breaks down. -/
def breakdownCode : Nat := 101

/-- A failure without a cause. -/
def of (message : String) : Failure := ⟨message, none, usualCode⟩

/-- A failure for a reason. -/
def because (message reason : String) : Failure := ⟨message, some reason, usualCode⟩

/-- The failure as it is reported. -/
def text (f : Failure) : String :=
  "Error: " ++ f.message ++ "\n" ++
    match f.cause with
    | some c => "\nCaused by:\n    " ++ c ++ "\n"
    | none => ""

/-- The failure of a configuration. What cannot be read has a cause. -/
def ofConfig (fault : ConfigFault) : Failure :=
  match fault with
  | .unreadable _ reason => because fault.message reason
  | _ => of fault.message

/-- The failure of an engine. One with too many slots breaks down. -/
def ofEngine : EngineFault → Failure
  | .config fault => ofConfig fault
  | .tooManySlots n => ⟨(EngineFault.tooManySlots n).message, none, breakdownCode⟩
  | fault => of fault.message

end Failure

namespace Finish

/-- All went well. -/
def ok (stdout : String) : Finish := ⟨0, stdout, ""⟩

/-- A failure is reported. -/
def failed (f : Failure) : Finish := ⟨f.code, "", f.text⟩

/-- The end of a command that may fail. -/
def ofExcept (r : Except Failure Finish) : Finish :=
  match r with
  | .ok f => f
  | .error f => failed f

end Finish

/-- The file name has the ending of a list of class files. -/
def isClassList (path : String) : Bool := Path.extension? ⟨path⟩ = some "json".toList

/-- The classes of a text: assembly, or a list of class files. -/
def classesOf (path text : String) : Except Failure (List ClassFile) :=
  if isClassList path then
    match classList? text with
    | some classes => .ok classes
    | none => .error (.of "not a list of class files")
  else (Assembly.assemble text).mapError fun fault => .of fault.message

/-- The program of a text: its source is the text of its classes. -/
def programOf (path text : String) : Except Failure Compiled := do
  let classes ← classesOf path text
  if classes.isEmpty then .error (.of (path ++ " defines no classes"))
  else .ok (.ofClasses classes ("\n".intercalate (classes.map Assembly.disassemble)))

/-- The assembly text of class files as bytes. -/
def listing (files : List ByteArray) : Except Failure String := do
  let classes ← files.mapM fun bytes =>
    match ClassFile.decodeBytes? bytes with
    | some c => .ok c
    | none => .error (.of "not a class file")
  .ok (String.join (classes.map Assembly.disassemble))

/-- The configuration with the tracers that are asked for. -/
def TraceFlags.apply (t : TraceFlags) (c : EngineConfig) : EngineConfig :=
  let lines := c.tracers.lineTraceArguments
  { c with tracers := { c.tracers with
      lineTrace := c.tracers.lineTrace || t.lineTrace || t.runLineLimit.isSome
      methodTrace := c.tracers.methodTrace || t.methodTrace
      lineTraceArguments := { lines with runLineLimit := t.runLineLimit.or lines.runLineLimit } } }

/-- The name of a class and the name of a method behind its last dot; both may be empty. -/
def splitEntry? (s : String) : Option EntryPoint :=
  let rev := s.toList.reverse
  let last := rev.takeWhile (· ≠ '.')
  match rev.drop last.length with
  | _ :: first => some ⟨String.ofList first.reverse, String.ofList last.reverse⟩
  | [] => none

/-- The permissions that the options grant. -/
def RunOptions.permissions (o : RunOptions) : GrantSet :=
  .ofList (o.allowWrite.map (fun p => .writeFile ⟨p⟩) ++ o.allowEnv.map .readEnv ++
    o.allowProperty.map .readProperty ++ if 0 < o.threads then [.createThread] else [])

/-- Lines on a stream. -/
def linesText (lines : List String) : String := String.join (lines.map (· ++ "\n"))

/-- What is written about a run. -/
def finishRun (json : Bool) (r : ExecutionResult) : Finish :=
  let code := if r.completed then 0 else 1
  if json then ⟨code, r.toJson.indented ++ "\n", ""⟩
  else ⟨code, linesText (outputReport r), linesText (eventReport r)⟩

variable {m : Type → Type} [Monad m]

/-- The text of the input of a command. -/
def readInput (host : Host m) (path : String) : m (Except Failure String) := do
  match ← host.readFile path with
  | .ok text => pure (.ok text)
  | .error reason => pure (.error (.because ("failed to read " ++ path) reason))

/-- Writes the classes of an input as a list of class files. -/
def assemble (host : Host m) (input : String) (output : Option String) : m Finish := do
  match (← readInput host input) >>= classesOf input with
  | .error f => pure (.failed f)
  | .ok classes =>
    let text := classListText classes
    match output with
    | none => pure (.ok (text ++ "\n"))
    | some path => do
      match ← host.writeFile path text with
      | .ok () => pure (.ok "")
      | .error reason => pure (.failed (.because ("failed to write " ++ path) reason))

/-- The assembly text of the classes of an input, as they are or as the tracers instrument them. -/
def disassemble (host : Host m) (c : EngineConfig) (input : String) (instrumented : Bool) :
    m Finish := do
  let text ← readInput host input
  pure (.ofExcept do
    let program ← programOf input (← text)
    let files ←
      if instrumented then do
        let e ← (Engine.create c).mapError Failure.ofEngine
        let (u, _) ← (e.load program).mapError fun fault => .of fault.message
        pure (u.own.classes.map fun d => d.2.file.toUTF8)
      else pure (program.classes.map (·.2))
    let listed ← listing files
    pure (.ok listed))

/-- Runs the program of an input. -/
@[specialize] def run (host : Host m) (c : EngineConfig) (input : String) (o : RunOptions) :
    m Finish := do
  match splitEntry? o.entry with
  | none => pure (.failed (.of ("entry point " ++ o.entry ++ " is not Class.method")))
  | some entry => do
    match (← readInput host input) >>= programOf input with
    | .error f => pure (.failed f)
    | .ok program =>
      match Engine.create c with
      | .error fault => pure (.failed (.ofEngine fault))
      | .ok e => do
        let (result, _) ←
          e.run host ⟨program, entry, o.permissions, o.timeoutMillis, o.threads⟩
        match result with
        | .error fault => pure (.failed (.ofEngine fault))
        | .ok r => pure (finishRun o.json r)

/-- The name and the version of the program. -/
def versionText : String := "warden 0.1.0\n"

/-- What is said about how to use the program. -/
def usage : String := "Usage: warden [OPTIONS] <COMMAND>\n"

/-- Does what a command line says. -/
@[specialize] def execute (host : Host m) (words : List String) : m Finish := do
  match readRequest words with
  | .misuse => pure ⟨2, "", usage⟩
  | .help => pure (.ok usage)
  | .version => pure (.ok versionText)
  | .act path action => do
    match ← EngineConfig.load host path with
    | .error fault => pure (.failed (.ofConfig fault))
    | .ok c =>
      match action with
      | .assemble input output => assemble host input output
      | .disassemble input instrumented trace => disassemble host (trace.apply c) input instrumented
      | .run input o => run host (o.trace.apply c) input o

end Confine.Command
