import Confine.Json.Basic
import Confine.Json.Numeral

/-!
A JSON document as it stands in a text, before anybody says what it should mean: numbers that may
be too great, and strings that may turn out to be no text. Whether such a thing matters depends on
where it stands, so a reader of typed data decides.
-/

namespace Confine.Json

/-- A document. A string is absent if it holds bytes that are no characters or half of a pair of
surrogates; so is the name of a field. -/
inductive Doc where
  | null
  | bool (b : Bool)
  | num (n : Numeral)
  | str (s : Option String)
  | arr (items : List Doc)
  | obj (fields : List (Option String × Doc))
  deriving Repr, Inhabited

mutual

/-- The document of a value. -/
def toDoc : Json → Doc
  | .null => .null
  | .bool b => .bool b
  | .int n => .num (.int n)
  | .real x => .num (.real (some x))
  | .str s => .str (some s)
  | .arr items => .arr (toDocs items)
  | .obj fields => .obj (toDocFields fields)

def toDocs : List Json → List Doc
  | [] => []
  | v :: rest => toDoc v :: toDocs rest

def toDocFields : List (String × Json) → List (Option String × Doc)
  | [] => []
  | (k, v) :: rest => (some k, toDoc v) :: toDocFields rest

end


/-- The fields of an object in the order of their names. -/
def insertField (k : String) (v : Json) : List (String × Json) → List (String × Json)
  | [] => [(k, v)]
  | f :: rest =>
    if k == f.1 then (k, v) :: rest
    else if k < f.1 then (k, v) :: f :: rest
    else f :: insertField k v rest

namespace Doc

mutual

/-- The document as a value, if all its strings are texts, no number is too great and it nests no
deeper than `depth`. The fields of an object come in the order of their names. -/
def toJson? (depth : Nat) : Doc → Option Json
  | .null => some .null
  | .bool b => some (.bool b)
  | .num (.int n) => some (.int n)
  | .num (.real x) => x.map .real
  | .str s => s.map .str
  | .arr items =>
    match depth with
    | 0 => none
    | depth + 1 => (toJsons? depth items).map .arr
  | .obj fields =>
    match depth with
    | 0 => none
    | depth + 1 => (toJsonFields? depth fields).map .obj

def toJsons? (depth : Nat) : List Doc → Option (List Json)
  | [] => some []
  | d :: rest => do
    let v ← toJson? depth d
    let vs ← toJsons? depth rest
    some (v :: vs)

def toJsonFields? (depth : Nat) : List (Option String × Doc) → Option (List (String × Json))
  | [] => some []
  | (k, d) :: rest => do
    let k ← k
    let v ← toJson? depth d
    let vs ← toJsonFields? depth rest
    some (if vs.any (·.1 == k) then vs else insertField k v vs)

end

end Doc

end Confine.Json
