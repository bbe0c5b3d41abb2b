import Confine.Text.Quoted

/-!
The instructions of a method. Labels, line numbers and frames mark positions; all others are real
instructions. A frame declares how many operands the stack holds at the labels in front of it.
-/

namespace Confine

/-- A literal operand. -/
inductive Constant where
  | null
  | bool (b : Bool)
  | int (n : Int64)
  | text (s : String)
  deriving DecidableEq, Repr, Inhabited

/-- A constant in diagnostics. -/
def Constant.shown : Constant → String
  | null => "null"
  | bool b => if b then "true" else "false"
  | int n => toString n.toInt
  | text s => Text.quoted s

/-- A target of jumps and handlers, unique within one method. -/
structure Label where
  index : UInt32
  deriving DecidableEq, Repr, Inhabited

/-- The name of a label in messages and in assembly text. -/
def Label.name (l : Label) : String := "L" ++ toString l.index.toNat

/-- Operations on the two topmost operands. -/
inductive BinaryOp where
  | add
  | sub
  | mul
  | div
  | rem
  | lt
  | le
  | gt
  | ge
  | eq
  | ne
  | concat
  deriving DecidableEq, Repr, Inhabited

namespace BinaryOp

/-- The name of an operation, in assembly text, class files and messages. -/
def mnemonic : BinaryOp → String
  | add => "add"
  | sub => "sub"
  | mul => "mul"
  | div => "div"
  | rem => "rem"
  | lt => "lt"
  | le => "le"
  | gt => "gt"
  | ge => "ge"
  | eq => "eq"
  | ne => "ne"
  | concat => "concat"

/-- All operations. -/
def all : List BinaryOp := [add, sub, mul, div, rem, lt, le, gt, ge, eq, ne, concat]

/-- The operation of a name. -/
def ofMnemonic? (s : String) : Option BinaryOp := all.find? (·.mnemonic == s)

end BinaryOp

/-- Calls to the host. Every sensitive operation that a program can attempt is one of these. -/
inductive HostCall where
  | print
  | println
  | eprint
  | eprintln
  /-- path to contents -/
  | readFile
  /-- path and contents -/
  | writeFile
  /-- name to value or null -/
  | getEnv
  /-- name to value or null -/
  | getProperty
  /-- exit code -/
  | exit
  /-- replaces the standard streams of the process -/
  | setStreams
  /-- starts a thread in a static method without parameters; gives the index of the thread -/
  | spawn (className methodName : String)
  /-- thread index -/
  | join
  /-- milliseconds -/
  | sleep
  /-- gives milliseconds since 1970 -/
  | time
  /-- class name to class name -/
  | loadClass
  deriving DecidableEq, Repr, Inhabited

/-- An operand of a call into a tracer. -/
inductive HookOperand where
  | constant (c : Constant)
  | slot (index : UInt16)
  deriving DecidableEq, Repr, Inhabited

/-- An instruction. -/
inductive Instruction where
  | label (l : Label)
  | lineNumber (line : UInt32) (start : Label)
  | frame (depth : UInt16)
  | push (c : Constant)
  | load (slot : UInt16)
  | store (slot : UInt16)
  | binary (op : BinaryOp)
  | neg
  | not
  | dup
  | pop
  | swap
  | jump (target : Label)
  | jumpIf (target : Label)
  | jumpIfNot (target : Label)
  | invokeStatic (className methodName : String)
  | invokeVirtual (methodName : String) (arity : UInt16)
  | new (className : String)
  | getField (field : String)
  | putField (field : String)
  /-- message to an exception of the kind -/
  | newException (kind : String)
  | throw
  | ret
  | retValue
  | host (call : HostCall)
  /-- calls a tracer; only instrumentation may put one into a method -/
  | hook (tracer name : String) (operands : List HookOperand)
  deriving DecidableEq, Repr, Inhabited

namespace Instruction

/-- The instruction only marks a position. -/
def isMark : Instruction → Bool
  | label _ | lineNumber _ _ | frame _ => true
  | _ => false

/-- The label that the instruction may jump to. -/
def jumpTarget? : Instruction → Option Label
  | jump l | jumpIf l | jumpIfNot l => some l
  | _ => none

/-- The label that stands here. -/
def label? : Instruction → Option Label
  | label l => some l
  | _ => none

end Instruction

end Confine
