import Confine.Number.Double

/-!
JSON values, as this library produces them.
-/

namespace Confine

/-- A JSON value. The fields of an object keep their order. -/
inductive Json where
  | null
  | bool (b : Bool)
  | int (n : Int)
  /-- a floating-point number -/
  | real (x : Double)
  | str (s : String)
  | arr (items : List Json)
  | obj (fields : List (String × Json))
  deriving Repr, Inhabited

namespace Json

/-- A number that is never negative. -/
def nat (n : Nat) : Json := .int n

/-- A value that may be absent, with `null` for an absent one. -/
def ofOption {α : Type} (encode : α → Json) : Option α → Json
  | none => .null
  | some a => encode a

/-- A list of values. -/
def ofList {α : Type} (encode : α → Json) (l : List α) : Json := .arr (l.map encode)

/-- An object with one field, which is how a choice with a content is written. -/
def choice (tag : String) (content : Json) : Json := .obj [(tag, content)]

end Json

end Confine
