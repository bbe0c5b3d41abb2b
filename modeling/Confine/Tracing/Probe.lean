import Confine.Program.ClassFile
import Confine.Program.Codec
import Confine.Tracing.Roster
import Confine.Tracing.Signal

/-!
A tracer for experiments: it puts given instructions at the start of every method, records every
call that it gets, and can be told to refuse, to fail, to throw or to kill.
-/

namespace Confine.Probe

open Json (Doc)

/-- The name of the tracer. -/
def id : String := "probe"

/-- The arguments of the tracer. -/
structure Arguments where
  /-- what is put at the start of a method; a call to the tracer if nothing is given -/
  insert : Option (List Instruction)
  /-- the number of the call at which it throws -/
  throwAt : Option Nat
  /-- the number of the call at which it kills the task -/
  killAt : Option Nat
  /-- what it throws is uncatchable -/
  uncatchable : Bool
  /-- it refuses to run -/
  refuse : Bool
  /-- the class that it fails to instrument -/
  failClass : Option String
  deriving DecidableEq, Repr, Inhabited

namespace Arguments

def default : Arguments := ⟨none, none, none, false, false, none⟩

def ofDoc? (d : Doc) : Option Arguments := do
  match ← d.record? ["insert", "throw_at", "kill_at", "uncatchable", "refuse", "fail_class"] with
  | [insert, throwAt, killAt, uncatchable, refuse, failClass] =>
    some ⟨← insert.optional (Doc.list? Instruction.ofDoc?), ← throwAt.optional Doc.count?,
      ← killAt.optional Doc.count?, ← uncatchable.withDefault false Doc.bool?,
      ← refuse.withDefault false Doc.bool?, ← failClass.optional Doc.str?⟩
  | _ => none

end Arguments

/-- The reason that is given for failing on demand. -/
def reason : String := "told to"

/-- What is put at the start of a method. -/
def inserted (a : Arguments) (m : Method) : List Instruction :=
  a.insert.getD [.hook id "enter" [.constant (.text m.name)]]

/-- Instruments a class. Trusted classes stay as they are. -/
def instrument (a : Arguments) (origin : Origin) (c : ClassFile) : Except TracerFault ClassFile :=
  match origin with
  | .trusted => .ok c
  | .untrusted =>
    if a.failClass = some c.name then .error (.notInstrumented id c.name reason)
    else .ok { c with methods := c.methods.map fun m => { m with code := inserted a m ++ m.code } }

/-- A call that was recorded. -/
structure Call where
  name : String
  operands : List Value
  thread : Nat
  /-- how many calls the thread had made, this one with them -/
  nthOnThread : Nat
  deriving DecidableEq, Repr, Inhabited

def Call.toJson (c : Call) : Json :=
  .obj [("name", .str c.name), ("args", .ofList Value.toJson c.operands),
    ("types", .ofList (fun v => .str v.typeName) c.operands), ("thread", .nat c.thread),
    ("nth_on_thread", .nat c.nthOnThread)]

/-- What the tracer keeps during a task. -/
structure Recording where
  arguments : Arguments
  /-- the names of all tracers of the unit -/
  active : List String
  calls : Array Call
  /-- how many calls each thread has made -/
  counts : List (Nat × Nat)
  deriving DecidableEq, Repr, Inhabited

namespace Recording

/-- Starts recording. -/
def start (a : Arguments) (active : List String) : Except String Recording :=
  if a.refuse then .error reason else .ok ⟨a, active, #[], []⟩

/-- How many calls a thread has made, if it has made any. -/
def count? (r : Recording) (thread : Nat) : Option Nat := r.counts.lookup thread

/-- What the tracer does at call number `n`. -/
def signal? (a : Arguments) (n : Nat) : Option HookSignal :=
  if a.killAt = some n then some (.kill ("probe call " ++ toString n))
  else if a.throwAt = some n then
    some (.throw ⟨"ProbeException", "call " ++ toString n, a.uncatchable⟩)
  else none

/-- A call from instrumented code. -/
def onHook (r : Recording) (call : HookCall) (thread : Nat) : Option HookSignal × Recording :=
  let n := (r.count? thread).getD 0 + 1
  let calls := r.calls.push ⟨call.name, call.operands, thread, n⟩
  let counts := (thread, n) :: r.counts.filter (·.1 != thread)
  (signal? r.arguments calls.size, { r with calls := calls, counts := counts })

/-- The calls so far. -/
def report (r : Recording) : Json :=
  .obj [("active", .ofList .str r.active), ("calls", .ofList Call.toJson r.calls.toList)]

end Recording

end Confine.Probe
