import Confine.Text.Blank

/-!
The tokens of a line of assembly text: words between blanks, and strings in double quotes with
backslash escapes. A semicolon outside a string starts a comment. Behind the closing quote of a
string the next token may follow at once.
-/

namespace Confine.Assembly

/-- A token. -/
inductive Token where
  | word (s : String)
  | str (s : String)
  deriving DecidableEq, Repr, Inhabited

/-- Why a line has no tokens. -/
inductive TokenFault where
  | unknownEscape (c : Char)
  | unterminatedString
  deriving DecidableEq, Repr, Inhabited

namespace Token

/-- The text of a token, be it a word or a string. -/
def text : Token → String
  | word s | str s => s

/-! ### Reading -/

/-- What the tokenizer has begun; characters come latest first. -/
inductive Mode where
  | between
  | word (rev : List Char)
  | str (rev : List Char)
  /-- in a string, behind a backslash -/
  | escape (rev : List Char)
  deriving DecidableEq, Repr

/-- The character that an escape stands for. -/
def escaped? (c : Char) : Option Char :=
  if c = 'n' then some '\n'
  else if c = 'r' then some '\r'
  else if c = 't' then some '\t'
  else if c = '"' || c = '\\' then some c
  else none

/-- The tokens of a line that is read in a mode, behind the tokens `done` (latest first). -/
def readFrom (mode : Mode) (done : List Token) : List Char → Except TokenFault (List Token)
  | [] =>
    match mode with
    | .between => .ok done.reverse
    | .word rev => .ok (word (String.ofList rev.reverse) :: done).reverse
    | .str _ | .escape _ => .error .unterminatedString
  | c :: rest =>
    match mode with
    | .between =>
      if Text.isBlank c then readFrom .between done rest
      else if c = ';' then .ok done.reverse
      else if c = '"' then readFrom (.str []) done rest
      else readFrom (.word [c]) done rest
    | .word rev =>
      if Text.isBlank c then readFrom .between (word (String.ofList rev.reverse) :: done) rest
      else if c = ';' then .ok (word (String.ofList rev.reverse) :: done).reverse
      else readFrom (.word (c :: rev)) done rest
    | .str rev =>
      if c = '"' then readFrom .between (str (String.ofList rev.reverse) :: done) rest
      else if c = '\\' then readFrom (.escape rev) done rest
      else readFrom (.str (c :: rev)) done rest
    | .escape rev =>
      match escaped? c with
      | some e => readFrom (.str (e :: rev)) done rest
      | none => .error (.unknownEscape c)

/-- The tokens of a line. -/
def ofLine (line : List Char) : Except TokenFault (List Token) := readFrom .between [] line

/-! ### Writing -/

/-- How one character of a string is written. -/
def escapeChar (c : Char) : List Char :=
  if c = '\n' then ['\\', 'n']
  else if c = '\r' then ['\\', 'r']
  else if c = '\t' then ['\\', 't']
  else if c = '"' then ['\\', '"']
  else if c = '\\' then ['\\', '\\']
  else [c]

/-- Writes a token: a word as it is, a string in quotes. -/
def render : Token → List Char
  | word s => s.toList
  | str s => '"' :: (s.toList.flatMap escapeChar ++ ['"'])

end Token

end Confine.Assembly
