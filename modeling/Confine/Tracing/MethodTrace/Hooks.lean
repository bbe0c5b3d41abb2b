import Confine.Program.ClassFile
import Confine.Tracing.MethodTrace.Basic

/-!
Where the method trace calls in: at the start of every method with a real instruction. The call
carries the number of its site and the values of receiver and parameters.
-/

namespace Confine.MethodTrace

/-- The name of the call. -/
def hookName : String := "enter"

/-- What a site says about its method. -/
structure Site where
  descriptor : String
  hasReceiver : Bool
  params : List String
  deriving DecidableEq, Repr, Inhabited

/-- The site of a method. -/
def siteOf (className : String) (m : Method) : Site :=
  ⟨m.descriptor className, !m.isStatic, m.params⟩

/-- The call at the start of a method. The slots of the parameters are those of 16 bits. -/
def enterHook (site : Nat) (m : Method) : Instruction :=
  let receiver := if m.isStatic then [] else [HookOperand.slot 0]
  let params := (List.range (m.params.length % UInt16.size)).map fun i =>
    HookOperand.slot (UInt16.ofNat (m.firstParamSlot + i))
  .hook id hookName (.constant (.int (Int64.ofNat site)) :: (receiver ++ params))

/-- A method with its call. -/
def instrumentMethod (site : Nat) (m : Method) : Method :=
  { m with code := enterHook site m :: m.code }

/-- What the tracer knows about a loading unit: its sites in the order of their numbers, and
whether lines are traced too. -/
structure Instrumentation where
  arguments : Arguments
  withLines : Bool
  sites : Array Site
  deriving DecidableEq, Repr, Inhabited

namespace Instrumentation

/-- The tracer in a loading unit with the tracers of the names `active`. -/
def start (a : Arguments) (active : List String) : Instrumentation :=
  ⟨a, active.contains LineTrace.id, #[]⟩

/-- Methods with their calls, in order. -/
def instrumentMethods (i : Instrumentation) (className : String) :
    List Method → List Method × Instrumentation
  | [] => ([], i)
  | m :: rest =>
    if m.hasRealCode then
      let n := i.sites.size
      let (ms, i) := { i with sites := i.sites.push (siteOf className m) }.instrumentMethods
        className rest
      (instrumentMethod n m :: ms, i)
    else
      let (ms, i) := i.instrumentMethods className rest
      (m :: ms, i)

/-- A class with its calls. Only untrusted classes have any. -/
def instrument (i : Instrumentation) (origin : Origin) (c : ClassFile) :
    ClassFile × Instrumentation :=
  match origin with
  | .untrusted =>
    let (ms, i) := i.instrumentMethods c.name c.methods
    ({ c with methods := ms }, i)
  | .trusted => (c, i)

end Instrumentation

end Confine.MethodTrace
