import Confine.Json.Parser
import Confine.Json.Printer
import Confine.Json.Reader
import Confine.Program.ClassFile

/-!
Class files as JSON. A choice without content is written as its name, any other as an object with
one field; records are objects with all their fields.
-/

namespace Confine

open Json (Doc)
open Json.Doc (Slot)

/-! ### Operands -/

def Constant.toJson : Constant → Json
  | null => .str "null"
  | bool b => .choice "bool" (.bool b)
  | int n => .choice "int" (.int n.toInt)
  | text s => .choice "str" (.str s)

def Constant.ofDoc? (d : Doc) : Option Constant := do
  let (tag, c) ← d.choice?
  match tag with
  | "null" => Doc.noContent .null c
  | "bool" => (Doc.content Doc.bool? c).map .bool
  | "int" => (Doc.content Doc.int64? c).map .int
  | "str" => (Doc.content Doc.str? c).map .text
  | _ => none

def Label.toJson (l : Label) : Json := .nat l.index.toNat

def Label.ofDoc? (d : Doc) : Option Label := d.uint32?.map Label.mk

def BinaryOp.toJson (op : BinaryOp) : Json := .str op.mnemonic

def BinaryOp.ofDoc? (d : Doc) : Option BinaryOp := do
  let name ← d.name?
  BinaryOp.ofMnemonic? name

/-- The names of a class and a method, as a record. -/
def methodRefJson (className methodName : String) : Json :=
  .obj [("class", .str className), ("method", .str methodName)]

def methodRef? (d : Doc) : Option (String × String) := do
  match ← d.record? ["class", "method"] with
  | [c, m] => some (← c.required Doc.str?, ← m.required Doc.str?)
  | _ => none

def HostCall.toJson : HostCall → Json
  | print => .str "print"
  | println => .str "println"
  | eprint => .str "eprint"
  | eprintln => .str "eprintln"
  | readFile => .str "read_file"
  | writeFile => .str "write_file"
  | getEnv => .str "get_env"
  | getProperty => .str "get_property"
  | exit => .str "exit"
  | setStreams => .str "set_io"
  | spawn c m => .choice "spawn" (methodRefJson c m)
  | join => .str "join"
  | sleep => .str "sleep"
  | time => .str "time"
  | loadClass => .str "load_class"

def HostCall.ofDoc? (d : Doc) : Option HostCall := do
  let (tag, c) ← d.choice?
  match tag with
  | "print" => Doc.noContent .print c
  | "println" => Doc.noContent .println c
  | "eprint" => Doc.noContent .eprint c
  | "eprintln" => Doc.noContent .eprintln c
  | "read_file" => Doc.noContent .readFile c
  | "write_file" => Doc.noContent .writeFile c
  | "get_env" => Doc.noContent .getEnv c
  | "get_property" => Doc.noContent .getProperty c
  | "exit" => Doc.noContent .exit c
  | "set_io" => Doc.noContent .setStreams c
  | "spawn" => (Doc.content methodRef? c).map fun r => .spawn r.1 r.2
  | "join" => Doc.noContent .join c
  | "sleep" => Doc.noContent .sleep c
  | "time" => Doc.noContent .time c
  | "load_class" => Doc.noContent .loadClass c
  | _ => none

def HookOperand.toJson : HookOperand → Json
  | constant c => .choice "const" c.toJson
  | slot i => .choice "local" (.nat i.toNat)

def HookOperand.ofDoc? (d : Doc) : Option HookOperand := do
  let (tag, c) ← d.choice?
  match tag with
  | "const" => (Doc.content Constant.ofDoc? c).map .constant
  | "local" => (Doc.content Doc.uint16? c).map .slot
  | _ => none

/-! ### Instructions -/

def Instruction.toJson : Instruction → Json
  | label l => .choice "label" l.toJson
  | lineNumber line start =>
    .choice "line_number" (.obj [("line", .nat line.toNat), ("start", start.toJson)])
  | frame depth => .choice "frame" (.obj [("stack", .nat depth.toNat)])
  | push c => .choice "push" c.toJson
  | load i => .choice "load" (.nat i.toNat)
  | store i => .choice "store" (.nat i.toNat)
  | binary op => .choice "binary" op.toJson
  | neg => .str "neg"
  | not => .str "not"
  | dup => .str "dup"
  | pop => .str "pop"
  | swap => .str "swap"
  | jump l => .choice "jump" l.toJson
  | jumpIf l => .choice "jump_if" l.toJson
  | jumpIfNot l => .choice "jump_if_not" l.toJson
  | invokeStatic c m => .choice "invoke_static" (methodRefJson c m)
  | invokeVirtual m n =>
    .choice "invoke_virtual" (.obj [("method", .str m), ("args", .nat n.toNat)])
  | new c => .choice "new" (.str c)
  | getField f => .choice "get_field" (.str f)
  | putField f => .choice "put_field" (.str f)
  | newException k => .choice "new_exception" (.str k)
  | throw => .str "throw"
  | ret => .str "return"
  | retValue => .str "return_value"
  | host call => .choice "native" call.toJson
  | hook tracer name operands =>
    .choice "hook" (.obj [("plugin", .str tracer), ("name", .str name),
      ("args", .ofList HookOperand.toJson operands)])

/-- The record of a line number. -/
def lineNumber? (d : Doc) : Option Instruction := do
  match ← d.record? ["line", "start"] with
  | [line, start] =>
    some (.lineNumber (← line.required Doc.uint32?) (← start.required Label.ofDoc?))
  | _ => none

/-- The record of a frame. -/
def frame? (d : Doc) : Option Instruction := do
  match ← d.record? ["stack"] with
  | [depth] => some (.frame (← depth.required Doc.uint16?))
  | _ => none

/-- The record of a call on a receiver. -/
def invokeVirtual? (d : Doc) : Option Instruction := do
  match ← d.record? ["method", "args"] with
  | [m, n] => some (.invokeVirtual (← m.required Doc.str?) (← n.required Doc.uint16?))
  | _ => none

/-- The record of a call into a tracer. -/
def hook? (d : Doc) : Option Instruction := do
  match ← d.record? ["plugin", "name", "args"] with
  | [tracer, name, operands] =>
    some (.hook (← tracer.required Doc.str?) (← name.required Doc.str?)
      (← operands.required (Doc.list? HookOperand.ofDoc?)))
  | _ => none

def Instruction.ofDoc? (d : Doc) : Option Instruction := do
  let (tag, c) ← d.choice?
  match tag with
  | "label" => (Doc.content Label.ofDoc? c).map .label
  | "line_number" => Doc.content lineNumber? c
  | "frame" => Doc.content frame? c
  | "push" => (Doc.content Constant.ofDoc? c).map .push
  | "load" => (Doc.content Doc.uint16? c).map .load
  | "store" => (Doc.content Doc.uint16? c).map .store
  | "binary" => (Doc.content BinaryOp.ofDoc? c).map .binary
  | "neg" => Doc.noContent .neg c
  | "not" => Doc.noContent .not c
  | "dup" => Doc.noContent .dup c
  | "pop" => Doc.noContent .pop c
  | "swap" => Doc.noContent .swap c
  | "jump" => (Doc.content Label.ofDoc? c).map .jump
  | "jump_if" => (Doc.content Label.ofDoc? c).map .jumpIf
  | "jump_if_not" => (Doc.content Label.ofDoc? c).map .jumpIfNot
  | "invoke_static" => (Doc.content methodRef? c).map fun r => .invokeStatic r.1 r.2
  | "invoke_virtual" => Doc.content invokeVirtual? c
  | "new" => (Doc.content Doc.str? c).map .new
  | "get_field" => (Doc.content Doc.str? c).map .getField
  | "put_field" => (Doc.content Doc.str? c).map .putField
  | "new_exception" => (Doc.content Doc.str? c).map .newException
  | "throw" => Doc.noContent .throw c
  | "return" => Doc.noContent .ret c
  | "return_value" => Doc.noContent .retValue c
  | "native" => (Doc.content HostCall.ofDoc? c).map .host
  | "hook" => Doc.content hook? c
  | _ => none

/-! ### Classes -/

def Handler.toJson (h : Handler) : Json :=
  .obj [("start", h.start.toJson), ("end", h.stop.toJson), ("target", h.target.toJson),
    ("kind", .ofOption .str h.kind)]

def Handler.ofDoc? (d : Doc) : Option Handler := do
  match ← d.record? ["start", "end", "target", "kind"] with
  | [start, stop, target, kind] =>
    some ⟨← start.required Label.ofDoc?, ← stop.required Label.ofDoc?,
      ← target.required Label.ofDoc?, ← kind.optional Doc.str?⟩
  | _ => none

def Method.toJson (m : Method) : Json :=
  .obj [("name", .str m.name), ("is_static", .bool m.isStatic),
    ("params", .ofList .str m.params), ("max_locals", .nat m.maxLocals.toNat),
    ("code", .ofList Instruction.toJson m.code), ("handlers", .ofList Handler.toJson m.handlers)]

def Method.ofDoc? (d : Doc) : Option Method := do
  match ← d.record? ["name", "is_static", "params", "max_locals", "code", "handlers"] with
  | [name, isStatic, params, maxLocals, code, handlers] =>
    some ⟨← name.required Doc.str?, ← isStatic.required Doc.bool?,
      ← params.required (Doc.list? Doc.str?), ← maxLocals.required Doc.uint16?,
      ← code.required (Doc.list? Instruction.ofDoc?),
      ← handlers.withDefault [] (Doc.list? Handler.ofDoc?)⟩
  | _ => none

namespace ClassFile

def toJson (c : ClassFile) : Json :=
  .obj [("name", .str c.name), ("source_file", .ofOption .str c.sourceFile),
    ("methods", .ofList Method.toJson c.methods)]

def ofDoc? (d : Doc) : Option ClassFile := do
  match ← d.record? ["name", "source_file", "methods"] with
  | [name, sourceFile, methods] =>
    some ⟨← name.required Doc.str?, ← sourceFile.optional Doc.str?,
      ← methods.required (Doc.list? Method.ofDoc?)⟩
  | _ => none

/-- The text of a class file. -/
def encode (c : ClassFile) : String := c.toJson.compact

/-- The class file that a text writes. -/
def decode? (text : List Text.Glyph) : Option ClassFile := do
  let d ← Doc.ofGlyphs? text
  ofDoc? d

/-- The class file that bytes write. -/
def decodeBytes? (bytes : ByteArray) : Option ClassFile := decode? (Text.Glyph.ofBytes bytes)

end ClassFile

/-- A list of class files as an indented text. -/
def classListText (classes : List ClassFile) : String :=
  (Json.ofList ClassFile.toJson classes).indented

/-- The list of class files that a text writes. -/
def classList? (text : String) : Option (List ClassFile) := do
  let d ← Doc.ofText? text
  Doc.list? ClassFile.ofDoc? d

end Confine
