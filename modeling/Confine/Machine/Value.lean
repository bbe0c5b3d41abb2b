import Confine.Json.Basic
import Confine.Json.Reader
import Confine.Program.Instruction

/-!
The values of running programs.
-/

namespace Confine

open Json (Doc)

/-- Something that was thrown, or may be. An exception that is uncatchable passes every handler. -/
structure Exception where
  kind : String
  message : String
  uncatchable : Bool
  deriving DecidableEq, Repr, Inhabited

namespace Exception

/-- An exception that handlers may catch. -/
def of (kind message : String) : Exception := ⟨kind, message, false⟩

/-- The exception in words. -/
def text (e : Exception) : String :=
  if e.message.isEmpty then e.kind else e.kind ++ ": " ++ e.message

/-- Whether an exception is uncatchable is not written. -/
def toJson (e : Exception) : Json := .obj [("kind", .str e.kind), ("message", .str e.message)]

def ofDoc? (d : Doc) : Option Exception := do
  match ← d.record? ["kind", "message"] with
  | [k, m] => some (of (← k.required Doc.str?) (← m.required Doc.str?))
  | _ => none

end Exception

/-- A value. Objects and exceptions carry a number, by which one is told from another. -/
inductive Value where
  | null
  | bool (b : Bool)
  | int (n : Int64)
  | text (s : String)
  | object (id : Nat) (className : String)
  | exception (id : Nat) (e : Exception)
  deriving DecidableEq, Repr, Inhabited

namespace Value

/-- The name of the type of a value, for messages. -/
def typeName : Value → String
  | null => "null"
  | bool _ => "bool"
  | int _ => "int"
  | text _ => "string"
  | object _ _ => "object"
  | exception _ _ => "exception"

/-- Two values are the same: null, truth values, integers and texts by what they are, objects and
exceptions by their number. -/
def same : Value → Value → Bool
  | null, null => true
  | bool a, bool b => a == b
  | int a, int b => a == b
  | text a, text b => a == b
  | object i _, object j _ => i == j
  | exception i _, exception j _ => i == j
  | _, _ => false

/-- The value as a program prints it. -/
def shown : Value → String
  | null => "null"
  | bool b => if b then "true" else "false"
  | int n => toString n.toInt
  | text s => s
  | object i c => c ++ "@" ++ toString i
  | exception _ e => e.text

/-- The value in results: an object or an exception is the text that it is printed as. -/
def toJson : Value → Json
  | null => .null
  | bool b => .bool b
  | int n => .int n.toInt
  | text s => .str s
  | v => .str v.shown

/-- The value of a constant. -/
def ofConstant : Constant → Value
  | .null => null
  | .bool b => bool b
  | .int n => int n
  | .text s => text s

end Value

end Confine
