import Confine.Assembly.Statement
import Confine.Program.ClassFile
import Confine.Program.Compiled
import Confine.Text.Lines

/-!
Classes from assembly text, statement by statement. Labels are numbered within their method, in
the order in which the text first mentions them.
-/

namespace Confine.Assembly

/-- Why and where a text is no program. Lines count from 1. -/
structure Fault where
  line : Nat
  cause : Cause
  deriving DecidableEq, Repr, Inhabited

/-- The fault in words. -/
def Fault.message (f : Fault) : String := "line " ++ toString f.line ++ ": " ++ f.cause.message

/-! ### Open methods and classes -/

/-- A method that has not ended. Instructions and handlers come latest first, the names of labels
in the order of their numbers. -/
structure OpenMethod where
  name : String
  isStatic : Bool
  params : List String
  maxLocals : UInt16
  code : List Instruction
  handlers : List Handler
  labels : List String
  lastLabel : Option Label
  deriving DecidableEq, Repr, Inhabited

namespace OpenMethod

/-- A method at its start: its locals hold the receiver and the parameters. -/
def start (name : String) (isStatic : Bool) (params : List String) : OpenMethod :=
  ⟨name, isStatic, params, UInt16.ofNat (params.length + if isStatic then 0 else 1), [], [], [],
    none⟩

/-- The label of a name; a new name takes the next number. -/
def label (m : OpenMethod) (name : String) : Label × OpenMethod :=
  match m.labels.findIdx? (· == name) with
  | some i => (⟨UInt32.ofNat i⟩, m)
  | none => (⟨UInt32.ofNat m.labels.length⟩, { m with labels := m.labels ++ [name] })

/-- One instruction more. -/
def push (m : OpenMethod) (i : Instruction) : OpenMethod := { m with code := i :: m.code }

/-- A label stands here. -/
def defineLabel (m : OpenMethod) (name : String) : OpenMethod :=
  let (l, m) := m.label name
  { m.push (.label l) with lastLabel := some l }

/-- An instruction that names one label. -/
def pushNaming (m : OpenMethod) (name : String) (i : Label → Instruction) : OpenMethod :=
  let (l, m) := m.label name
  m.push (i l)

/-- One instruction more, from the text. -/
def addLine (m : OpenMethod) : Line → Except Cause OpenMethod
  | .plain i => .ok (m.push i)
  | .jump l => .ok (m.pushNaming l .jump)
  | .jumpIf l => .ok (m.pushNaming l .jumpIf)
  | .jumpIfNot l => .ok (m.pushNaming l .jumpIfNot)
  | .lineNumber n (some l) => .ok (m.pushNaming l (.lineNumber n))
  | .lineNumber n none =>
    match m.lastLabel with
    | some l => .ok (m.push (.lineNumber n l))
    | none => .error .lineWithoutLabel

/-- One handler more. -/
def addHandler (m : OpenMethod) (start stop target : String) (kind : Option String) :
    OpenMethod :=
  let (start, m) := m.label start
  let (stop, m) := m.label stop
  let (target, m) := m.label target
  { m with handlers := ⟨start, stop, target, kind⟩ :: m.handlers }

/-- The method, once it has ended. -/
def toMethod (m : OpenMethod) : Method :=
  ⟨m.name, m.isStatic, m.params, m.maxLocals, m.code.reverse, m.handlers.reverse⟩

/-- The method that the operands of its directive start. -/
def ofOperands (operands : List Token) : Except Cause OpenMethod :=
  match operands.map Token.text with
  | [] => .error .missingMethodName
  | first :: rest =>
    if first = "static" then
      match rest with
      | [] => .error .missingMethodName
      | name :: params => .ok (start name true params)
    else .ok (start first false rest)

end OpenMethod

/-- A class that has not ended; its methods come latest first. -/
structure OpenClass where
  name : String
  sourceFile : Option String
  methods : List Method
  deriving DecidableEq, Repr, Inhabited

/-- The class, once it has ended. -/
def OpenClass.toClassFile (c : OpenClass) : ClassFile := ⟨c.name, c.sourceFile, c.methods.reverse⟩

/-! ### The assembler -/

/-- Where the next statement stands. -/
inductive Place where
  | outside
  | inClass (c : OpenClass)
  | inMethod (c : OpenClass) (m : OpenMethod)
  deriving DecidableEq, Repr, Inhabited

/-- What has been read: the classes that have ended, latest first, where the next statement
stands, and the line of the latest statement. -/
structure State where
  done : List ClassFile
  place : Place
  line : Nat
  deriving DecidableEq, Repr

namespace State

def initial : State := ⟨[], .outside, 0⟩

/-- The classes so far, latest first, the open one with them. -/
def allClasses (s : State) : List ClassFile :=
  match s.place with
  | .outside => s.done
  | .inClass c | .inMethod c _ => c.toClassFile :: s.done

/-- Changes the open method. -/
def inMethod (s : State) (f : OpenMethod → Except Cause OpenMethod) : Except Cause State :=
  match s.place with
  | .inMethod c m => (f m).map fun m => { s with place := .inMethod c m }
  | _ => .error .instructionOutsideMethod

/-- Takes one statement. -/
def take (s : State) : Statement → Except Cause State
  | .startClass operands =>
    match s.place with
    | .inMethod _ _ => .error .classInsideMethod
    | _ => (operand operands 0).map fun name =>
        { s with done := s.allClasses, place := .inClass ⟨name, none, []⟩ }
  | .source file =>
    match s.place with
    | .outside => .error .sourceOutsideClass
    | .inClass c => .ok { s with place := .inClass { c with sourceFile := some file } }
    | .inMethod c m => .ok { s with place := .inMethod { c with sourceFile := some file } m }
  | .startMethod operands =>
    match s.place with
    | .outside => .error .methodOutsideClass
    | .inMethod _ _ => .error .methodInsideMethod
    | .inClass c => (OpenMethod.ofOperands operands).map fun m => { s with place := .inMethod c m }
  | .locals n => s.inMethod fun m => .ok { m with maxLocals := n }
  | .handler start stop target kind => s.inMethod fun m => .ok (m.addHandler start stop target kind)
  | .finish =>
    match s.place with
    | .inMethod c m =>
      .ok { s with place := .inClass { c with methods := m.toMethod :: c.methods } }
    | _ => .error .endOutsideMethod
  | .label name => s.inMethod fun m => .ok (m.defineLabel name)
  | .line l => s.inMethod fun m => m.addLine l

/-- Takes the line number `n` of the text. -/
def takeLine (s : State) (n : Nat) (line : List Char) : Except Fault State :=
  match Statement.ofLine? line with
  | .error cause => .error ⟨n, cause⟩
  | .ok none => .ok s
  | .ok (some st) =>
    match { s with line := n }.take st with
    | .error cause => .error ⟨n, cause⟩
    | .ok s => .ok s

/-- Takes lines, the first of which has the number `n`. -/
def takeLines (s : State) (n : Nat) : List (List Char) → Except Fault State
  | [] => .ok s
  | line :: rest =>
    match s.takeLine n line with
    | .error fault => .error fault
    | .ok s => s.takeLines (n + 1) rest

/-- The classes, once the text has ended. -/
def finish (s : State) : Except Fault (List ClassFile) :=
  match s.place with
  | .inMethod _ _ => .error ⟨s.line, .missingEnd⟩
  | _ => .ok s.allClasses.reverse

end State

/-- The classes of a text. -/
def assemble (text : String) : Except Fault (List ClassFile) := do
  let s ← State.initial.takeLines 1 (Text.lines text.toList)
  s.finish

/-- The program of a text. -/
def compile (text : String) : Except Fault Compiled := do
  let classes ← assemble text
  .ok (Compiled.ofClasses classes text)

end Confine.Assembly
