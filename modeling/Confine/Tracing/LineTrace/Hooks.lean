import Confine.Program.ClassFile
import Confine.Tracing.LineTrace.Basic

/-!
Where the line trace calls in. A label is traced if some line number names it. Its call stands
right after the first frame that follows it before the next real instruction, or right after the
label itself if there is no such frame; so the depth of the operand stack is checked first.
-/

namespace Confine.LineTrace

/-- The name of the call. -/
def hookName : String := "line"

/-- The call for a line: the source file, the number of the method, the place of the label among
the labels of the method, and the line. -/
def lineHook (source : String) (method sequence : Nat) (line : UInt32) : Instruction :=
  .hook id hookName
    [.constant (.text source), .constant (.int (Int64.ofNat method)),
      .constant (.int (Int64.ofNat sequence)), .constant (.int (Int64.ofNat line.toNat))]

/-- The lines of a method with the labels they start at, the last one first. -/
def lineStarts (m : Method) : List (Label × UInt32) :=
  (m.code.filterMap fun
    | .lineNumber line start => some (start, line)
    | _ => none).reverse

/-- The place of a label among the labels of a method. -/
def sequence? (labels : List Label) (l : Label) : Option Nat := labels.findIdx? (· == l)

/-- The place and the line of a traced label: the last line number that names it counts. -/
def traced? (labels : List Label) (starts : List (Label × UInt32)) (l : Label) :
    Option (Nat × UInt32) := do
  let line ← starts.lookup l
  let place ← sequence? labels l
  some (place, line)

/-- A frame comes before the next real instruction. -/
def frameFollows : List Instruction → Bool
  | .label _ :: rest | .lineNumber _ _ :: rest => frameFollows rest
  | .frame _ :: _ => true
  | _ => false

/-- The code with the hooks of its labels in place, behind the instructions `done`; the hooks
`deferred` wait for the next frame. Both come latest first. -/
def insertHooks (hook? : Label → Option Instruction) (done deferred : List Instruction) :
    List Instruction → List Instruction
  | [] => done.reverse
  | .label l :: rest =>
    match hook? l with
    | none => insertHooks hook? (.label l :: done) deferred rest
    | some h =>
      if frameFollows rest then insertHooks hook? (.label l :: done) (h :: deferred) rest
      else insertHooks hook? (h :: .label l :: done) deferred rest
  | .frame n :: rest => insertHooks hook? (deferred ++ .frame n :: done) [] rest
  | i :: rest => insertHooks hook? (i :: done) deferred rest

/-- The method has a traced label. -/
def hasTraced (m : Method) : Bool :=
  let labels := m.labels
  (lineStarts m).any fun s => labels.contains s.1

/-- A method with its hooks. -/
def instrumentMethod (source : String) (number : Nat) (m : Method) : Method :=
  let labels := m.labels
  let starts := lineStarts m
  let hook? (l : Label) := (traced? labels starts l).map fun t => lineHook source number t.1 t.2
  { m with code := insertHooks hook? [] [] m.code }

/-- What the tracer knows about a loading unit: the names of the methods that it has given numbers,
in the order of the numbers. -/
structure Instrumentation where
  arguments : Arguments
  methods : List String
  deriving DecidableEq, Repr, Inhabited

namespace Instrumentation

def start (a : Arguments) : Instrumentation := ⟨a, []⟩

/-- The number of a method; a new name takes the next one. -/
def number (i : Instrumentation) (name : String) : Nat × Instrumentation :=
  match i.methods.findIdx? (· == name) with
  | some n => (n, i)
  | none => (i.methods.length, { i with methods := i.methods ++ [name] })

/-- Methods with their hooks, in order. -/
def instrumentMethods (i : Instrumentation) (className source : String) :
    List Method → List Method × Instrumentation
  | [] => ([], i)
  | m :: rest =>
    if hasTraced m then
      let (n, i) := i.number (className ++ "." ++ m.name)
      let (ms, i) := i.instrumentMethods className source rest
      (instrumentMethod source n m :: ms, i)
    else
      let (ms, i) := i.instrumentMethods className source rest
      (m :: ms, i)

/-- A class with its hooks. Only untrusted classes with a source file have any. -/
def instrument (i : Instrumentation) (origin : Origin) (c : ClassFile) :
    ClassFile × Instrumentation :=
  match origin, c.sourceFile with
  | .untrusted, some source =>
    let (ms, i) := i.instrumentMethods c.name source c.methods
    ({ c with methods := ms }, i)
  | _, _ => (c, i)

end Instrumentation

end Confine.LineTrace
