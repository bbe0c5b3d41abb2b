import Confine.Tracing.MethodTrace.Hooks

/-!
What the method trace records while a task runs. Tasks with extra threads are refused.
-/

namespace Confine.MethodTrace

/-- What the tracer keeps during a task. -/
structure Recording where
  instrumentation : Instrumentation
  steps : Array Step
  deriving Repr, Inhabited

namespace Recording

/-- Starts recording a task with so many extra threads. -/
def start (i : Instrumentation) (extraThreads : Nat) : Except String Recording :=
  if 0 < extraThreads then .error "method tracing does not support extra threads"
  else .ok ⟨i, #[]⟩

/-- A step more, if there is room. -/
def record (r : Recording) (s : Step) : Recording :=
  if r.steps.size < r.instrumentation.arguments.recordedStepLimit then
    { r with steps := r.steps.push s }
  else r

/-- A line that was counted. -/
def onLine (r : Recording) (e : LineEvent) : Recording := r.record (.line e.source e.line)

/-- The step that a call reports, if it is one of a known site. Values beyond the parameters do not
count. -/
def enter? (i : Instrumentation) (call : HookCall) : Option Step :=
  if call.name != hookName then none
  else match call.operands with
    | .int n :: values => do
      let n ← match n.toInt with
        | .ofNat n => some n
        | .negSucc _ => none
      let site ← i.sites[n]?
      let (receiver, values) := match site.hasReceiver, values with
        | true, receiver :: rest => (some receiver.toJson, rest)
        | _, _ => (none, values)
      let arguments := site.params.zipWith (fun name v => Argument.mk name v.toJson) values
      some (.enter site.descriptor receiver arguments)
    | _ => none

/-- A call from instrumented code. -/
def onHook (r : Recording) (call : HookCall) : Recording :=
  match enter? r.instrumentation call with
  | some s => r.record s
  | none => r

/-- The steps so far. -/
def report (r : Recording) : Result := ⟨r.instrumentation.arguments, r.steps.toList⟩

end Recording

end Confine.MethodTrace
