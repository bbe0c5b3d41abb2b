import Confine.Json.Lexer

/-!
Documents from tokens. The parser keeps the arrays and objects that are open and what may come
next; it takes the tokens one by one.
-/

namespace Confine.Json

/-- An array or object that is open, its items latest first. -/
inductive Frame where
  | arr (rev : List Doc)
  | obj (rev : List (Option String × Doc)) (key : Option String)
  deriving Repr, Inhabited

/-- What may come next. -/
inductive Expect where
  /-- a value -/
  | value (open_ : List Frame)
  /-- an item of the innermost array, or its end -/
  | firstItem (open_ : List Frame)
  /-- the name of a field of the innermost object, or its end -/
  | firstField (open_ : List Frame)
  /-- the name of a field of the innermost object -/
  | field (open_ : List Frame)
  /-- a colon, behind the name of a field -/
  | colon (open_ : List Frame)
  /-- a comma, or the end of the innermost array or object -/
  | more (open_ : List Frame)
  /-- nothing: the document is complete -/
  | done (d : Doc)
  deriving Repr, Inhabited

/-- A value is complete: it goes into the innermost open array or object. -/
def complete (d : Doc) : List Frame → Expect
  | [] => .done d
  | .arr rev :: rest => .more (.arr (d :: rev) :: rest)
  | .obj rev key :: rest => .more (.obj ((key, d) :: rev) none :: rest)

/-- The innermost array or object ends. -/
def closeFrame : Token → List Frame → Option Expect
  | .rightBracket, .arr rev :: rest => some (complete (.arr rev.reverse) rest)
  | .rightBrace, .obj rev _ :: rest => some (complete (.obj rev.reverse) rest)
  | _, _ => none

/-- A value begins. -/
def beginValue (t : Token) (frames : List Frame) : Option Expect :=
  match t with
  | .null => some (complete .null frames)
  | .bool b => some (complete (.bool b) frames)
  | .num n => some (complete (.num n) frames)
  | .str s => some (complete (.str s) frames)
  | .leftBracket => some (.firstItem (.arr [] :: frames))
  | .leftBrace => some (.firstField (.obj [] none :: frames))
  | _ => none

/-- A name of a field of the innermost object. -/
def beginField (t : Token) (frames : List Frame) : Option Expect :=
  match t, frames with
  | .str s, .obj rev _ :: rest => some (.colon (.obj rev s :: rest))
  | _, _ => none

/-- Takes one token. -/
def takeToken (e : Expect) (t : Token) : Option Expect :=
  match e with
  | .value frames => beginValue t frames
  | .firstItem frames => if t = .rightBracket then closeFrame t frames else beginValue t frames
  | .firstField frames => if t = .rightBrace then closeFrame t frames else beginField t frames
  | .field frames => beginField t frames
  | .colon frames => if t = .colon then some (.value frames) else none
  | .more frames =>
    if t = .comma then
      match frames with
      | .arr _ :: _ => some (.value frames)
      | .obj _ _ :: _ => some (.field frames)
      | [] => none
    else closeFrame t frames
  | .done _ => none

/-- Takes all tokens. -/
def takeTokens (e : Expect) : List Token → Option Doc
  | [] =>
    match e with
    | .done d => some d
    | _ => none
  | t :: rest =>
    match takeToken e t with
    | some e => takeTokens e rest
    | none => none

/-- The document that glyphs write. -/
def Doc.ofGlyphs? (gs : List Text.Glyph) : Option Doc := do
  let ts ← tokens? gs
  takeTokens (.value []) ts

/-- The document that a text writes. -/
def Doc.ofText? (s : String) : Option Doc := Doc.ofGlyphs? (Text.Glyph.ofText s)

end Confine.Json
