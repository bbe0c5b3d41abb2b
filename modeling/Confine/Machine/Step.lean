import Confine.Machine.Frame
import Confine.Machine.Request
import Confine.Machine.Task

/-!
One instruction. An instruction changes its frame and the state of the task, or it calls, returns,
raises an exception, ends the thread with a fault, or waits; before that it may ask the host.
-/

namespace Confine

/-- An exception on its way to a handler. One that is a value already keeps its number. -/
inductive Raised where
  | fresh (e : Exception)
  | value (id : Nat) (e : Exception)
  deriving DecidableEq, Repr, Inhabited

/-- The exception that was raised. -/
def Raised.exception : Raised → Exception
  | fresh e | value _ e => e

/-- What a thread waits for. -/
inductive Wait where
  | sleep (millis : Nat)
  /-- the end of a thread -/
  | join (index : Nat)
  deriving DecidableEq, Repr, Inhabited

/-- What an instruction comes to. The frame is that of the instruction, with control behind it
unless it has jumped. -/
inductive Outcome where
  | next (s : TaskState) (f : Frame)
  | call (s : TaskState) (f callee : Frame)
  | ret (s : TaskState) (v : Option Value)
  | raise (s : TaskState) (f : Frame) (r : Raised)
  | fault (s : TaskState) (fault : Fault)
  | wait (s : TaskState) (f : Frame) (w : Wait)
  deriving Inhabited

namespace Step

/-- The thread goes on. -/
@[inline] def next (s : TaskState) (f : Frame) : Query Outcome := .done (.next s f)

/-- A method is called. -/
@[inline] def call (s : TaskState) (f callee : Frame) : Query Outcome := .done (.call s f callee)

/-- The method returns. -/
@[inline] def ret (s : TaskState) (v : Option Value) : Query Outcome := .done (.ret s v)

/-- An exception is raised. -/
@[inline] def raise (s : TaskState) (f : Frame) (r : Raised) : Query Outcome :=
  .done (.raise s f r)

/-- The thread ends with a fault. -/
@[inline] def fault (s : TaskState) (e : Fault) : Query Outcome := .done (.fault s e)

/-- The thread waits. -/
@[inline] def wait (s : TaskState) (f : Frame) (w : Wait) : Query Outcome := .done (.wait s f w)

/-- Goes on with the value of a computation, or raises its exception. -/
@[inline] def attempt {α : Type} (s : TaskState) (f : Frame) (r : Except Exception α)
    (k : α → Query Outcome) : Query Outcome :=
  match r with
  | .ok a => k a
  | .error e => raise s f (.fresh e)

/-- Pushes a value and goes on. -/
@[inline] def push (s : TaskState) (f : Frame) (stack : OperandStack) (v : Value) : Query Outcome :=
  attempt s f (stack.push v) fun stack => next s (f.withStack stack)

/-- Goes on if a permission is granted; otherwise the thread ends. -/
@[inline] def require (t : Task) (s : TaskState) (p : Permission) (k : TaskState → Query Outcome) :
    Query Outcome :=
  let (granted, s) := s.check t p
  if granted then k s else fault s (.security p)

/-- Goes on with a class, if it can be loaded. -/
@[inline] def withClass (t : Task) (s : TaskState) (f : Frame) (name : String)
    (k : TaskState → LinkedClass → Query Outcome) : Query Outcome :=
  let (loaded, s) := s.load t name
  attempt s f loaded (k s)

/-! ### Host calls -/

/-- Writes the topmost operand on a stream, and ends the line if that is asked for. -/
def writeText (s : TaskState) (f : Frame) (thread : Nat) (c : Console) (newline : Bool) :
    Query Outcome :=
  attempt s f f.stack.pop fun (v, stack) =>
    let text := if newline then v.shown ++ "\n" else v.shown
    let f := f.withStack stack
    .ask .clock fun now => next (s.write c text thread now) f

/-- The unit's own class files can be read, and nothing else. -/
def readFile (t : Task) (s : TaskState) (f : Frame) : Query Outcome :=
  attempt s f f.stack.popText fun (path, stack) =>
    let p := Permission.readFile ⟨path⟩
    match t.unit.classFile? path with
    | some text => push (s.record t p true) f stack (.text text)
    | none => fault (s.record t p false) (.security p)

/-- A file is written if that is granted. -/
def writeFile (t : Task) (s : TaskState) (f : Frame) : Query Outcome :=
  attempt s f f.stack.pop fun (contents, stack) =>
    attempt s f stack.popText fun (path, stack) =>
      require t s (.writeFile ⟨path⟩) fun s =>
        .ask (.writeFile path contents.shown) fun
          | .ok () => next s (f.withStack stack)
          | .error message => raise s f (.fresh (.of "IOException" message))

/-- A text that may be missing is pushed, or null. -/
def pushText (s : TaskState) (f : Frame) (stack : OperandStack) (text : Option String) :
    Query Outcome :=
  push s f stack (match text with
    | some x => .text x
    | none => .null)

/-- An environment variable is read if that is granted. -/
def getEnv (t : Task) (s : TaskState) (f : Frame) : Query Outcome :=
  attempt s f f.stack.popText fun (name, stack) =>
    require t s (.readEnv name) fun s =>
      .ask (.getEnv name) fun text => pushText s f stack text

/-- The properties of the runtime that do not depend on the host. -/
def fixedProperty? (name : String) : Option String :=
  match name with
  | "os.name" => some "linux"
  | "os.arch" => some "x86_64"
  | "line.separator" => some "\n"
  | "file.separator" => some "/"
  | "runtime.version" => some "0.1.0"
  | _ => none

/-- A property is read if that is granted. -/
def getProperty (t : Task) (s : TaskState) (f : Frame) : Query Outcome :=
  attempt s f f.stack.popText fun (name, stack) =>
    require t s (.readProperty name) fun s =>
      if name = "user.dir" then .ask .workingDirectory fun dir => pushText s f stack dir
      else pushText s f stack (fixedProperty? name)

/-- Ends the host, if that were ever granted. -/
def exit (t : Task) (s : TaskState) (f : Frame) : Query Outcome :=
  attempt s f f.stack.popInt fun (_, stack) =>
    require t s .exit fun s => next s (f.withStack stack)

/-- Starts a thread. -/
def spawn (t : Task) (s : TaskState) (f : Frame) (className methodName : String) : Query Outcome :=
  let (started, s) := s.spawn t className methodName
  match started with
  | .ok index => push s f f.stack (.int (Int64.ofNat index))
  | .error e => fault s e

def illegalArgument (message : String) : Exception := .of "IllegalArgumentException" message

/-- Waits for the end of a thread. -/
def join (s : TaskState) (f : Frame) : Query Outcome :=
  attempt s f f.stack.popInt fun (n, stack) =>
    match n.toInt with
    | .negSucc _ => raise s f (.fresh (illegalArgument "negative thread index"))
    | .ofNat index =>
      if s.joinable index then wait s (f.withStack stack) (.join index)
      else raise s f (.fresh (illegalArgument ("no joinable thread " ++ toString index)))

/-- Waits for some time. -/
def sleep (s : TaskState) (f : Frame) : Query Outcome :=
  attempt s f f.stack.popInt fun (n, stack) =>
    match n.toInt with
    | .negSucc _ => raise s f (.fresh (illegalArgument "negative sleep"))
    | .ofNat millis => wait s (f.withStack stack) (.sleep millis)

/-- Pushes the name of a class that can be loaded. -/
def loadClass (t : Task) (s : TaskState) (f : Frame) : Query Outcome :=
  attempt s f f.stack.popText fun (name, stack) =>
    withClass t s f name fun s c => push s f stack (.text c.name)

/-- A call to the host. -/
def host (t : Task) (thread : Nat) (s : TaskState) (f : Frame) : HostCall → Query Outcome
  | .print => writeText s f thread .stdout false
  | .println => writeText s f thread .stdout true
  | .eprint => writeText s f thread .stderr false
  | .eprintln => writeText s f thread .stderr true
  | .readFile => readFile t s f
  | .writeFile => writeFile t s f
  | .getEnv => getEnv t s f
  | .getProperty => getProperty t s f
  | .exit => exit t s f
  | .setStreams => require t s .setStreams fun s => next s f
  | .spawn c m => spawn t s f c m
  | .join => join s f
  | .sleep => sleep s f
  | .time =>
    .ask .clock fun now => push s f f.stack (.int (Int64.ofInt now.millis))
  | .loadClass => loadClass t s f

/-! ### Other instructions -/

/-- A call into a tracer. -/
def hook (thread : Nat) (s : TaskState) (f : Frame) (tracer name : String)
    (operands : List HookOperand) : Query Outcome :=
  let (signal, recordings) :=
    s.recordings.onHook tracer ⟨name, operands.map f.operand⟩ thread
  let s := { s with recordings := recordings }
  match signal with
  | none => next s f
  | some (.throw e) => raise s f (.fresh e)
  | some (.kill reason) => fault (s.kill reason) .cancelled

/-- Calls a static method: the class is loaded before the arguments are popped. -/
def invokeStatic (t : Task) (s : TaskState) (f : Frame) (className name : String) : Query Outcome :=
  withClass t s f className fun s c =>
    let found := (c.method? name).filter (·.method.isStatic)
    match found with
    | none => raise s f (.fresh (Frame.noSuchMethod ("static " ++ className ++ "." ++ name)))
    | some m =>
      attempt s f (f.stack.popMany m.method.params.length) fun (arguments, stack) =>
        attempt s f (Frame.forCall c name arguments (some true)) fun callee =>
          call s (f.withStack stack) callee

/-- Calls a method of an object: arguments and object are popped before its class is loaded. -/
def invokeVirtual (t : Task) (s : TaskState) (f : Frame) (name : String) (arity : Nat) :
    Query Outcome :=
  attempt s f (f.stack.popMany arity) fun (arguments, stack) =>
    attempt s f stack.popObject fun ((id, className), stack) =>
      withClass t s f className fun s c =>
        attempt s f (Frame.forCall c name (.object id className :: arguments) (some false))
          fun callee => call s (f.withStack stack) callee

/-- Throws the topmost operand. -/
def throw (s : TaskState) (f : Frame) : Query Outcome :=
  attempt s f f.stack.pop fun (v, _) =>
    match v with
    | .exception id e => raise s f (.value id e)
    | .null => raise s f (.fresh (.of "NullPointerException" "throw null"))
    | v => raise s f (.fresh (.typeError ("cannot throw " ++ v.typeName)))

/-- Jumps if the topmost operand is `wanted`. -/
def jumpOn (s : TaskState) (f : Frame) (wanted : Bool) (l : Label) : Query Outcome :=
  attempt s f f.stack.popBool fun (b, stack) =>
    let f := f.withStack stack
    if b = wanted then attempt s f (f.jump l) (next s) else next s f

/-- One instruction, in a frame with control behind it. -/
def instruction (t : Task) (thread : Nat) (s : TaskState) (f : Frame) : Instruction → Query Outcome
  | .label _ | .lineNumber _ _ => next s f
  | .frame depth =>
    if f.stack.size = depth.toNat then next s f
    else raise s f (.fresh (.verifyError ("stack depth " ++ toString f.stack.size ++
      " at frame expecting " ++ toString depth.toNat)))
  | .push c => push s f f.stack (.ofConstant c)
  | .load i => attempt s f (f.load i) fun v => push s f f.stack v
  | .store i =>
    attempt s f f.stack.pop fun (v, stack) =>
      attempt s f ((f.withStack stack).store i v) (next s)
  | .binary op =>
    attempt s f f.stack.pop fun (right, stack) =>
      attempt s f stack.pop fun (left, stack) =>
        attempt s f (op.apply left right) (push s f stack)
  | .neg => attempt s f f.stack.popInt fun (n, stack) => push s f stack (.int (-n))
  | .not => attempt s f f.stack.popBool fun (b, stack) => push s f stack (.bool (!b))
  | .dup =>
    attempt s f f.stack.pop fun (v, stack) =>
      attempt s f (stack.push v) fun stack => push s f stack v
  | .pop => attempt s f f.stack.pop fun (_, stack) => next s (f.withStack stack)
  | .swap =>
    attempt s f f.stack.pop fun (top, stack) =>
      attempt s f stack.pop fun (below, stack) =>
        attempt s f (stack.push top) fun stack => push s f stack below
  | .jump l => attempt s f (f.jump l) (next s)
  | .jumpIf l => jumpOn s f true l
  | .jumpIfNot l => jumpOn s f false l
  | .invokeStatic c m => invokeStatic t s f c m
  | .invokeVirtual m n => invokeVirtual t s f m n.toNat
  | .new c =>
    withClass t s f c fun s c =>
      let (v, heap) := s.heap.newObject c.name
      push { s with heap := heap } f f.stack v
  | .getField field =>
    attempt s f f.stack.popObject fun ((id, _), stack) => push s f stack (s.heap.get id field)
  | .putField field =>
    attempt s f f.stack.pop fun (v, stack) =>
      attempt s f stack.popObject fun ((id, _), stack) =>
        next { s with heap := s.heap.set id field v } (f.withStack stack)
  | .newException kind =>
    attempt s f f.stack.pop fun (v, stack) =>
      let message := if v = .null then "" else v.shown
      let (v, heap) := s.heap.newException (.of kind message)
      push { s with heap := heap } f stack v
  | .throw => throw s f
  | .ret => ret s none
  | .retValue => attempt s f f.stack.pop fun (v, _) => ret s (some v)
  | .host c => host t thread s f c
  | .hook tracer name operands => hook thread s f tracer name operands

/-- The next instruction of a frame. Behind its last instruction a method returns. -/
def frame (t : Task) (thread : Nat) (s : TaskState) (f : Frame) : Query Outcome :=
  match f.method.code[f.next]? with
  | none => ret s none
  | some i => instruction t thread s { f with next := f.next + 1 } i

end Step

end Confine
