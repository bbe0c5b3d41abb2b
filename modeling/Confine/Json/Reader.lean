import Confine.Json.Document

/-!
Typed data from documents. A record is an object, whose unknown fields do not count and whose
known ones stand at most once, or an array of its fields in order. A choice is a text, if it has
no content, or an object with one field.
-/

namespace Confine.Json.Doc

/-- A truth value. -/
def bool? : Doc → Option Bool
  | .bool b => some b
  | _ => none

/-- A text. -/
def str? : Doc → Option String
  | .str s => s
  | _ => none

/-- An integer from `low` to `high`. -/
def int? (low high : Int) : Doc → Option Int
  | .num (.int n) => if low ≤ n ∧ n ≤ high then some n else none
  | _ => none

/-- A natural number below `bound`. -/
def nat? (bound : Nat) : Doc → Option Nat
  | .num (.int (.ofNat n)) => if n < bound then some n else none
  | _ => none

def uint8? (d : Doc) : Option UInt8 := (d.nat? UInt8.size).map UInt8.ofNat
def uint16? (d : Doc) : Option UInt16 := (d.nat? UInt16.size).map UInt16.ofNat
def uint32? (d : Doc) : Option UInt32 := (d.nat? UInt32.size).map UInt32.ofNat
def int64? (d : Doc) : Option Int64 :=
  (d.int? Int64.minValue.toInt Int64.maxValue.toInt).map Int64.ofInt

/-- A natural number of 64 bits. -/
def count? (d : Doc) : Option Nat := d.nat? UInt64.size

/-- How deep a document may nest where it stands for a value of any kind. -/
def maxDepth : Nat := 127

/-- A value of any kind that stands in `outer` arrays and objects. -/
def anyWithin? (outer : Nat) (d : Doc) : Option Json := d.toJson? (maxDepth - outer)

/-- A value of any kind. -/
def any? (d : Doc) : Option Json := d.anyWithin? 0

/-- A list. -/
def list? {α : Type} (read : Doc → Option α) : Doc → Option (List α)
  | .arr items => items.mapM read
  | _ => none

/-- A value that may be absent: `null` is absent. -/
def option? {α : Type} (read : Doc → Option α) : Doc → Option (Option α)
  | .null => some none
  | d => (read d).map some

/-! ### Records -/

/-- What a document says about one field of a record. -/
inductive Slot where
  | given (d : Doc)
  /-- an object without the field -/
  | omitted
  /-- an array that ends before the field -/
  | exhausted
  deriving Repr, Inhabited

namespace Slot

/-- A field that must be there. -/
def required {α : Type} (read : Doc → Option α) : Slot → Option α
  | .given d => read d
  | _ => none

/-- A field that an object may leave out, or set to `null`. -/
def optional {α : Type} (read : Doc → Option α) : Slot → Option (Option α)
  | .given d => option? read d
  | .omitted => some none
  | .exhausted => none

/-- A field with a default value. -/
def withDefault {α : Type} (default : α) (read : Doc → Option α) : Slot → Option α
  | .given d => read d
  | _ => some default

end Slot

/-- The fields of an object that have the name `key`. -/
def fieldsNamed (key : String) (fields : List (Option String × Doc)) : List Doc :=
  fields.filterMap fun f => if f.1 = some key then some f.2 else none

/-- The field of an object with a name of the record; `none` if it stands there twice. -/
def slotNamed? (fields : List (Option String × Doc)) (key : String) : Option Slot :=
  match fieldsNamed key fields with
  | [] => some .omitted
  | [d] => some (.given d)
  | _ => none

/-- The slots of items for a record of `n` fields. -/
def slotsOfItems (n : Nat) (items : List Doc) : List Slot :=
  items.map .given ++ List.replicate (n - items.length) .exhausted

/-- The slots of a record, in the order of its fields. -/
def record? (names : List String) : Doc → Option (List Slot)
  | .arr items =>
    if items.length ≤ names.length then some (slotsOfItems names.length items) else none
  | .obj fields => if fields.all (·.1.isSome) then names.mapM (slotNamed? fields) else none
  | _ => none

/-! ### Choices -/

/-- The tag of a choice, and its content if it is written as an object. -/
def choice? : Doc → Option (String × Option Doc)
  | .str (some s) => some (s, none)
  | .obj [(some k, d)] => some (k, some d)
  | _ => none

/-- A choice without content that is written with one may only have `null`. -/
def noContent {α : Type} (a : α) : Option Doc → Option α
  | none => some a
  | some .null => some a
  | some _ => none

/-- The content of a choice. -/
def content {α : Type} (read : Doc → Option α) : Option Doc → Option α
  | none => none
  | some d => read d

/-- A choice among names without content. -/
def name? (d : Doc) : Option String := do
  let (tag, content) ← d.choice?
  noContent tag content

end Confine.Json.Doc
