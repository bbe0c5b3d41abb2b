import Confine.Assembly.Mnemonic
import Confine.Assembly.Token
import Confine.Text.Numeral

/-!
The statements of assembly text, one a line: directives, labels and instructions. Labels go by the
names that the text gives them. A statement that starts a class or a method keeps its operands as
they are, for whether it may stand in its place is asked first.
-/

namespace Confine.Assembly

/-- Why a text is no program. -/
inductive Cause where
  | token (fault : TokenFault)
  | leadingString
  | labelNotAlone
  | unknownDirective (name : String)
  | unknownInstruction (name : String)
  /-- the place of the operand counts from 0 -/
  | missingOperand (place : Nat)
  | notANumber (word : String)
  | notQualified (word : String)
  | badConstant (word : String)
  | missingConstant
  | badLocal (word : String)
  | missingMethodName
  | classInsideMethod
  | sourceOutsideClass
  | methodOutsideClass
  | methodInsideMethod
  | endOutsideMethod
  | instructionOutsideMethod
  | lineWithoutLabel
  | missingEnd
  deriving DecidableEq, Repr, Inhabited

/-- The cause in words. -/
def Cause.message : Cause → String
  | token (.unknownEscape c) => ("unknown escape \\").push c
  | token .unterminatedString => "unterminated string"
  | leadingString => "statement cannot start with a string"
  | labelNotAlone => "a label must be on its own line"
  | unknownDirective d => "unknown directive ." ++ d
  | unknownInstruction i => "unknown instruction " ++ i
  | missingOperand i => "missing operand " ++ toString (i + 1)
  | notANumber w => "expected a number, found " ++ w
  | notQualified w => "expected Class.method, found " ++ w
  | badConstant w => "bad constant " ++ w
  | missingConstant => "missing constant"
  | badLocal w => "bad local " ++ w
  | missingMethodName => "missing method name"
  | classInsideMethod => ".class inside a method"
  | sourceOutsideClass => ".source outside of .class"
  | methodOutsideClass => ".method outside of .class"
  | methodInsideMethod => "missing .end before .method"
  | endOutsideMethod => ".end without .method"
  | instructionOutsideMethod => "instruction outside of .method"
  | lineWithoutLabel => "line number needs a preceding label"
  | missingEnd => "missing .end at end of input"

/-- An instruction with its labels by name. -/
inductive Line where
  | plain (i : Instruction)
  | jump (target : String)
  | jumpIf (target : String)
  | jumpIfNot (target : String)
  /-- without a label, the line starts at the last label that stands in the method so far -/
  | lineNumber (line : UInt32) (start : Option String)
  deriving DecidableEq, Repr, Inhabited

/-- A statement. -/
inductive Statement where
  | startClass (operands : List Token)
  | source (file : String)
  | startMethod (operands : List Token)
  | locals (count : UInt16)
  | handler (start stop target : String) (kind : Option String)
  | finish
  | label (name : String)
  | line (l : Line)
  deriving DecidableEq, Repr, Inhabited

/-! ### Operands -/

/-- The text of the operand in a place. -/
def operand (operands : List Token) (place : Nat) : Except Cause String :=
  match operands[place]? with
  | some t => .ok t.text
  | none => .error (.missingOperand place)

/-- The operand in a place as a number. -/
def number {α : Type} (read : String → Option α) (operands : List Token) (place : Nat) :
    Except Cause α := do
  let word ← operand operands place
  match read word with
  | some n => .ok n
  | none => .error (.notANumber word)

/-- A name behind its last dot, and what stands before that dot. -/
def splitQualified? (s : String) : Option (String × String) :=
  let rev := s.toList.reverse
  let last := rev.takeWhile (· ≠ '.')
  match rev.drop last.length with
  | _ :: first =>
    if last.isEmpty || first.isEmpty then none
    else some (String.ofList first.reverse, String.ofList last.reverse)
  | [] => none

/-- The first operand as the name of a class and of a method in it. -/
def qualified (operands : List Token) : Except Cause (String × String) := do
  let word ← operand operands 0
  match splitQualified? word with
  | some r => .ok r
  | none => .error (.notQualified word)

/-- A token as a constant. -/
def constant : Token → Except Cause Constant
  | .str s => .ok (.text s)
  | .word w =>
    if w = "null" then .ok .null
    else if w = "true" then .ok (.bool true)
    else if w = "false" then .ok (.bool false)
    else match Text.int64? w with
      | some n => .ok (.int n)
      | none => .error (.badConstant w)

/-- A token as an operand of a hook: a word that starts with `@` names a local. -/
def hookOperand (t : Token) : Except Cause HookOperand :=
  match t with
  | .word w =>
    match w.toList with
    | '@' :: digits =>
      match Text.uint16? (String.ofList digits) with
      | some i => .ok (.slot i)
      | none => .error (.badLocal w)
    | _ => (constant t).map .constant
  | .str _ => (constant t).map .constant

/-! ### Statements -/

/-- The instruction of a mnemonic and its operands. -/
def Line.ofTokens (mnemonic : String) (operands : List Token) : Except Cause Line :=
  match mnemonic with
  | "push" =>
    match operands with
    | t :: _ => (constant t).map fun c => .plain (.push c)
    | [] => .error .missingConstant
  | "load" => (number Text.uint16? operands 0).map fun i => .plain (.load i)
  | "store" => (number Text.uint16? operands 0).map fun i => .plain (.store i)
  | "jump" => (operand operands 0).map .jump
  | "jumpif" => (operand operands 0).map .jumpIf
  | "jumpifnot" => (operand operands 0).map .jumpIfNot
  | "invoke" => (qualified operands).map fun r => .plain (.invokeStatic r.1 r.2)
  | "invokevirtual" => do
    let m ← operand operands 0
    let n ← number Text.uint16? operands 1
    .ok (.plain (.invokeVirtual m n))
  | "new" => (operand operands 0).map fun c => .plain (.new c)
  | "getfield" => (operand operands 0).map fun f => .plain (.getField f)
  | "putfield" => (operand operands 0).map fun f => .plain (.putField f)
  | "exception" => (operand operands 0).map fun k => .plain (.newException k)
  | "frame" =>
    if operands.isEmpty then .ok (.plain (.frame 0))
    else (number Text.uint16? operands 0).map fun n => .plain (.frame n)
  | "line" =>
    (number Text.uint32? operands 0).map fun n => .lineNumber n (operands[1]?.map Token.text)
  | "spawn" => (qualified operands).map fun r => .plain (.host (.spawn r.1 r.2))
  | "hook" => do
    let tracer ← operand operands 0
    let name ← operand operands 1
    let rest ← (operands.drop 2).mapM hookOperand
    .ok (.plain (.hook tracer name rest))
  | _ =>
    match Instruction.ofMnemonic? mnemonic with
    | some i => .ok (.plain i)
    | none => .error (.unknownInstruction mnemonic)

/-- The statement of a directive and its operands. -/
def Statement.ofDirective (name : String) (operands : List Token) : Except Cause Statement :=
  match name with
  | "class" => .ok (.startClass operands)
  | "source" => (operand operands 0).map .source
  | "method" => .ok (.startMethod operands)
  | "locals" => (number Text.uint16? operands 0).map .locals
  | "catch" => do
    let start ← operand operands 0
    let stop ← operand operands 1
    let target ← operand operands 2
    .ok (.handler start stop target (operands[3]?.map Token.text))
  | "end" => .ok .finish
  | _ => .error (.unknownDirective name)

/-- The statement of tokens: a word that starts with a dot is a directive, one that ends with a
colon a label, any other an instruction. No tokens are no statement. -/
def Statement.ofTokens? : List Token → Except Cause (Option Statement)
  | [] => .ok none
  | .str _ :: _ => .error .leadingString
  | .word head :: rest =>
    match head.toList with
    | '.' :: directive => (ofDirective (String.ofList directive) rest).map some
    | cs =>
      if cs.getLast? = some ':' then
        if rest.isEmpty then .ok (some (.label (String.ofList cs.dropLast)))
        else .error .labelNotAlone
      else (Line.ofTokens head rest).map fun l => some (.line l)

/-- The statement of a line of text. -/
def Statement.ofLine? (line : List Char) : Except Cause (Option Statement) :=
  match Token.ofLine line with
  | .error fault => .error (.token fault)
  | .ok tokens => ofTokens? tokens

end Confine.Assembly
