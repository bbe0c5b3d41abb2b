import Confine.Assembly.Mnemonic
import Confine.Assembly.Token
import Confine.Program.ClassFile

/-!
Assembly text from classes. Labels are named by their numbers; a blank line stands before each
method, and instructions are indented.
-/

namespace Confine.Assembly

/-- One line of assembly text. -/
structure TokenLine where
  indented : Bool
  tokens : List Token
  deriving DecidableEq, Repr

namespace TokenLine

/-- The tokens with a blank between them. -/
def spaced (tokens : List Token) : List Char := [' '].intercalate (tokens.map Token.render)

/-- The characters of a line. -/
def chars (l : TokenLine) : List Char := (if l.indented then [' ', ' '] else []) ++ spaced l.tokens

end TokenLine

/-- A number as a token. -/
def natToken (n : Nat) : Token := .word (toString n)

/-- A label as a token. -/
def labelToken (l : Label) : Token := .word l.name

/-- A constant as a token. -/
def constantToken : Constant → Token
  | .null => .word "null"
  | .bool b => .word (if b then "true" else "false")
  | .int n => .word (toString n.toInt)
  | .text s => .str s

/-- An operand of a hook as a token. -/
def hookOperandToken : HookOperand → Token
  | .constant c => constantToken c
  | .slot i => .word ("@" ++ toString i.toNat)

/-- The tokens of an instruction. -/
def instructionTokens : Instruction → List Token
  | .label l => [.word (l.name ++ ":")]
  | .lineNumber n start => [.word "line", natToken n.toNat, labelToken start]
  | .frame n => [.word "frame", natToken n.toNat]
  | .push c => [.word "push", constantToken c]
  | .load i => [.word "load", natToken i.toNat]
  | .store i => [.word "store", natToken i.toNat]
  | .binary op => [.word op.mnemonic]
  | .neg => [.word "neg"]
  | .not => [.word "not"]
  | .dup => [.word "dup"]
  | .pop => [.word "pop"]
  | .swap => [.word "swap"]
  | .jump l => [.word "jump", labelToken l]
  | .jumpIf l => [.word "jumpif", labelToken l]
  | .jumpIfNot l => [.word "jumpifnot", labelToken l]
  | .invokeStatic c m => [.word "invoke", .word (c ++ "." ++ m)]
  | .invokeVirtual m n => [.word "invokevirtual", .word m, natToken n.toNat]
  | .new c => [.word "new", .word c]
  | .getField f => [.word "getfield", .word f]
  | .putField f => [.word "putfield", .word f]
  | .newException k => [.word "exception", .word k]
  | .throw => [.word "throw"]
  | .ret => [.word "return"]
  | .retValue => [.word "returnvalue"]
  | .host (.spawn c m) => [.word "spawn", .word (c ++ "." ++ m)]
  | .host call => [.word call.mnemonic]
  | .hook tracer name operands =>
    .word "hook" :: .word tracer :: .word name :: operands.map hookOperandToken

/-- The line of an instruction. -/
def instructionLine (i : Instruction) : TokenLine := ⟨i.label?.isNone, instructionTokens i⟩

/-- The line of a handler. -/
def handlerLine (h : Handler) : TokenLine :=
  ⟨false, [.word ".catch", labelToken h.start, labelToken h.stop, labelToken h.target] ++
    (h.kind.map Token.word).toList⟩

/-- The lines of a method, with the blank line before it. -/
def methodLines (m : Method) : List TokenLine :=
  ⟨false, []⟩ ::
  ⟨false, .word ".method" :: (if m.isStatic then [.word "static"] else []) ++
    .word m.name :: m.params.map Token.word⟩ ::
  ⟨false, [.word ".locals", natToken m.maxLocals.toNat]⟩ ::
  (m.handlers.map handlerLine ++ m.code.map instructionLine ++ [⟨false, [.word ".end"]⟩])

/-- The lines of a class. -/
def classLines (c : ClassFile) : List TokenLine :=
  ⟨false, [.word ".class", .word c.name]⟩ ::
  ((c.sourceFile.map fun s => (⟨false, [.word ".source", .word s]⟩ : TokenLine)).toList ++
    c.methods.flatMap methodLines)

/-- Lines as a text, each with its line feed. -/
def linesText (lines : List TokenLine) : String :=
  lines.foldl (fun out l => (l.chars.foldl String.push out).push '\n') ""

/-- The text of a class. -/
def disassemble (c : ClassFile) : String := linesText (classLines c)

end Confine.Assembly
