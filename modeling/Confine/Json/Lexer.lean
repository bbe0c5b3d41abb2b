import Confine.Json.Document
import Confine.Text.Utf8

/-!
The tokens of a JSON text. The lexer goes through the glyphs once; what it has begun and not yet
ended is its mode.
-/

namespace Confine.Json

open Confine.Text (Glyph)

/-- A token of a JSON text. -/
inductive Token where
  | leftBracket
  | rightBracket
  | leftBrace
  | rightBrace
  | colon
  | comma
  | null
  | bool (b : Bool)
  | num (n : Numeral)
  | str (s : Option String)
  deriving DecidableEq, Repr, Inhabited

/-- A string that is being read: its characters so far, the first half of a pair of surrogates
that waits for its second, and whether all of it is text. -/
structure Partial where
  text : String
  high : Option Nat
  intact : Bool
  deriving Repr, Inhabited

namespace Partial

def empty : Partial := ⟨"", none, true⟩

/-- One character more. A waiting half of a pair stays alone. -/
def push (p : Partial) (c : Char) : Partial := ⟨p.text.push c, none, p.intact && p.high.isNone⟩

/-- A place that holds no character. -/
def spoil (p : Partial) : Partial := ⟨p.text, none, false⟩

/-- The code unit of a numeric escape: a character, or half of a pair of surrogates. -/
def pushUnit (p : Partial) (n : Nat) : Partial :=
  if 0xD800 ≤ n ∧ n ≤ 0xDBFF then ⟨p.text, some n, p.intact && p.high.isNone⟩
  else if 0xDC00 ≤ n ∧ n ≤ 0xDFFF then
    match p.high with
    | some h => ⟨p.text.push (Char.ofNat (0x10000 + (h - 0xD800) * 0x400 + (n - 0xDC00))), none,
        p.intact⟩
    | none => p.spoil
  else p.push (Char.ofNat n)

/-- The string, once its closing quote is read. -/
def close (p : Partial) : Option String :=
  if p.intact && p.high.isNone then some p.text else none

end Partial

/-- What the lexer has begun. -/
inductive Mode where
  | between
  | string (p : Partial)
  /-- behind a backslash -/
  | escape (p : Partial)
  /-- in a numeric escape, with `left` digits to come -/
  | unit (p : Partial) (left value : Nat)
  /-- in a number or a word, latest character first -/
  | bare (rev : List Char)
  deriving Repr, Inhabited

/-- The token of a bare run of characters. -/
def Token.ofBare? (s : List Char) : Option Token :=
  if s = ['n', 'u', 'l', 'l'] then some .null
  else if s = ['t', 'r', 'u', 'e'] then some (.bool true)
  else if s = ['f', 'a', 'l', 's', 'e'] then some (.bool false)
  else (Numeral.ofChars? s).map .num

/-- A character of a number or a word. -/
def isBare (c : Char) : Bool :=
  Text.isDigit c || ('a' ≤ c && c ≤ 'z') || c = 'E' || c = '+' || c = '-' || c = '.'

/-- Reads a character outside strings, numbers and words. The tokens read so far come latest
first. -/
def lexBetween (done : List Token) (c : Char) : Option (Mode × List Token) :=
  if c = ' ' || c = '\n' || c = '\t' || c = '\r' then some (.between, done)
  else if c = '"' then some (.string .empty, done)
  else if c = '[' then some (.between, .leftBracket :: done)
  else if c = ']' then some (.between, .rightBracket :: done)
  else if c = '\x7b' then some (.between, .leftBrace :: done)
  else if c = '\x7d' then some (.between, .rightBrace :: done)
  else if c = ':' then some (.between, .colon :: done)
  else if c = ',' then some (.between, .comma :: done)
  else if isBare c then some (.bare [c], done)
  else none

/-- The character of an escape of one letter. -/
def escaped? (c : Char) : Option Char :=
  if c = '"' || c = '\\' || c = '/' then some c
  else if c = 'b' then some '\x08'
  else if c = 'f' then some '\x0c'
  else if c = 'n' then some '\n'
  else if c = 'r' then some '\r'
  else if c = 't' then some '\t'
  else none

/-- Reads one glyph. -/
def lexGlyph (mode : Mode) (done : List Token) (g : Glyph) : Option (Mode × List Token) :=
  match mode, g with
  | .between, .char c => lexBetween done c
  | .string p, .char c =>
    if c = '"' then some (.between, .str p.close :: done)
    else if c = '\\' then some (.escape p, done)
    else if c.toNat < 0x20 then none
    else some (.string (p.push c), done)
  | .string p, .broken => some (.string p.spoil, done)
  | .escape p, .char c =>
    if c = 'u' then some (.unit p 4 0, done)
    else (escaped? c).map fun c => (.string (p.push c), done)
  | .unit p left value, .char c => do
    let d ← Text.hexValue? c
    let value := 16 * value + d
    if left ≤ 1 then some (.string (p.pushUnit value), done)
    else some (.unit p (left - 1) value, done)
  | .bare rev, .char c =>
    if isBare c then some (.bare (c :: rev), done)
    else do
      let t ← Token.ofBare? rev.reverse
      lexBetween (t :: done) c
  | _, .broken => none

/-- Ends the text: only a number or a word may be open. -/
def lexEnd (mode : Mode) (done : List Token) : Option (List Token) :=
  match mode with
  | .between => some done.reverse
  | .bare rev => (Token.ofBare? rev.reverse).map fun t => (t :: done).reverse
  | _ => none

/-- Reads glyphs in a mode, behind the tokens `done` (latest first). -/
def lexFrom (mode : Mode) (done : List Token) : List Glyph → Option (List Token)
  | [] => lexEnd mode done
  | g :: rest =>
    match lexGlyph mode done g with
    | some (mode, done) => lexFrom mode done rest
    | none => none

/-- The tokens of a text. -/
def tokens? (gs : List Glyph) : Option (List Token) := lexFrom .between [] gs

end Confine.Json
