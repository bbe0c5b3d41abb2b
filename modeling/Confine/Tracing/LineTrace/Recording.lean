import Confine.Tracing.LineTrace.Hooks

/-!
What the line trace records while a task runs. Every thread counts and keeps its own lines; the
limit of lines is checked against its own count and what it last saw of the others.
-/

namespace Confine.LineTrace

/-- The line that a thread reached last. -/
structure LastLine where
  method : UInt64
  sequence : Int64
  line : UInt32
  deriving DecidableEq, Repr, Inhabited

/-- The lines of one thread. -/
structure ThreadLines where
  thread : Nat
  /-- how many lines it has counted -/
  linesRun : Nat
  steps : Array LineEvent
  last : Option LastLine
  /-- how many lines the others had counted when it last looked -/
  othersSeen : Nat
  /-- how many lines it has counted since then -/
  unsynchronized : Nat
  deriving DecidableEq, Repr, Inhabited

/-- A thread that has reached no line. -/
def ThreadLines.start (thread : Nat) : ThreadLines := ⟨thread, 0, #[], none, 0, 0⟩

/-- Who is told about lines that are counted. -/
inductive Subscriber where
  /-- the method trace of the same task -/
  | methodTrace
  /-- somebody who collects lines under a name -/
  | collector (name : String)
  deriving DecidableEq, Repr, Inhabited

/-- What the tracer keeps during a task: its threads in the order in which they reached their first
line, and its subscribers in the order in which they came. -/
structure Recording where
  arguments : Arguments
  threads : List ThreadLines
  subscribers : List Subscriber
  deriving DecidableEq, Repr, Inhabited

namespace Recording

def start (a : Arguments) : Recording := ⟨a, [], []⟩

/-- One subscriber more. -/
def subscribe (r : Recording) (s : Subscriber) : Recording :=
  { r with subscribers := r.subscribers ++ [s] }

/-- The lines of a thread. -/
def thread? (r : Recording) (i : Nat) : Option ThreadLines := r.threads.find? (·.thread == i)

/-- How many lines the other threads have counted. -/
def countedByOthers (r : Recording) (i : Nat) : Nat :=
  (r.threads.filter (·.thread != i)).foldl (fun n t => n + t.linesRun) 0

/-- The hook of a line finds the line of its method that came right before it. -/
def isStutter (t : ThreadLines) (line : LastLine) : Bool :=
  match t.last with
  | some last =>
    last.method == line.method && last.line == line.line && line.sequence == last.sequence + 1
  | none => false

/-- How a limit that is reached interrupts the program. -/
def limitSignal (a : Arguments) (limit : Nat) : HookSignal :=
  match a.limitAction with
  | .killSandbox => .kill "run line limit exceeded"
  | .throwUncatchable =>
    .throw ⟨"LineLimitExceeded", "exceeded " ++ toString limit ++ " lines", true⟩

/-- A thread looks at the others again, if it has counted enough lines since it last did. -/
def reconcile (a : Arguments) (others : Nat) (t : ThreadLines) : ThreadLines :=
  if a.runLineLimit.isSome && a.maxUnsynchronized ≤ t.unsynchronized then
    { t with othersSeen := others, unsynchronized := 0 }
  else t

/-- A thread counts a line, and keeps it if there is room. -/
def count (a : Arguments) (t : ThreadLines) (e : LineEvent) : ThreadLines :=
  { t with
    linesRun := t.linesRun + 1
    unsynchronized := t.unsynchronized + 1
    steps := if t.steps.size < a.recordedStepLimit then t.steps.push e else t.steps }

/-- What a line comes to. -/
inductive Reached where
  | coalesced
  | counted
  /-- the limit, which is named, was reached before -/
  | beyond (limit : Nat)
  deriving DecidableEq, Repr, Inhabited

/-- A thread reaches a line; the other threads have counted `others` lines. -/
def reach (a : Arguments) (others : Nat) (t : ThreadLines) (line : LastLine) (e : LineEvent) :
    Reached × ThreadLines :=
  if a.coalesce && isStutter t line then (.coalesced, { t with last := some line })
  else
    let t := reconcile a others { t with last := some line }
    match a.runLineLimit with
    | some limit =>
      if limit ≤ t.linesRun + t.othersSeen then (.beyond limit, t) else (.counted, count a t e)
    | none => (.counted, count a t e)

/-- Takes a thread out of a list. -/
def takeOut (i : Nat) (before : List ThreadLines) :
    List ThreadLines → List ThreadLines × ThreadLines × List ThreadLines
  | [] => (before, ThreadLines.start i, [])
  | t :: rest => if t.thread == i then (before, t, rest) else takeOut i (t :: before) rest

/-- A thread reaches a line. -/
def onLine (r : Recording) (line : LastLine) (e : LineEvent) : Reached × Recording :=
  let others := if r.arguments.runLineLimit.isSome then r.countedByOthers e.thread else 0
  let arguments := r.arguments
  let subscribers := r.subscribers
  let (before, t, after) := takeOut e.thread [] r.threads
  let (reached, t) := reach arguments others t line e
  (reached, ⟨arguments, before.reverseAux (t :: after), subscribers⟩)

/-- The line that a hook reports, if its operands are those of a line. -/
def line? (call : HookCall) (thread : Nat) : Option (LastLine × LineEvent) :=
  if call.name != hookName then none
  else match call.operands with
    | [.text source, .int method, .int sequence, .int line] =>
      let line := line.toUInt64.toUInt32
      some (⟨method.toUInt64, sequence, line⟩, ⟨source, line, thread⟩)
    | _ => none

/-- The lines so far. -/
def report (r : Recording) : Result :=
  let threads := r.threads.mergeSort fun a b => a.thread ≤ b.thread
  ⟨r.arguments, threads.flatMap fun t => t.steps.toList,
    threads.foldl (fun n t => n + t.linesRun) 0⟩

/-- All counts start again from zero. What has been recorded stays. -/
def reset (r : Recording) : Recording :=
  { r with threads := r.threads.map fun t =>
    { t with linesRun := 0, othersSeen := 0, unsynchronized := 0 } }

end Recording

end Confine.LineTrace
