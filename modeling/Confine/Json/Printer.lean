import Confine.Json.Basic
import Confine.Number.Shortest
import Confine.Text.Numeral

/-!
The text of a JSON value: compact, without any blank, and indented, with every item and field on a
line of its own. Of the characters of a string only quotes, backslashes and control characters are
escaped.
-/

namespace Confine.Json

/-- How one character of a string is written. -/
def escapeChar (c : Char) : List Char :=
  if c = '"' then ['\\', '"']
  else if c = '\\' then ['\\', '\\']
  else if c = '\x08' then ['\\', 'b']
  else if c = '\x09' then ['\\', 't']
  else if c = '\x0a' then ['\\', 'n']
  else if c = '\x0c' then ['\\', 'f']
  else if c = '\x0d' then ['\\', 'r']
  else if c.toNat < 0x20 then
    ['\\', 'u', '0', '0', Text.hexDigit (c.toNat / 16), Text.hexDigit (c.toNat % 16)]
  else [c]

/-- Writes the characters of a string behind `out`. -/
def writeChars (out : String) (s : List Char) : String :=
  s.foldl (fun out c => (escapeChar c).foldl String.push out) out

/-- Writes a string in quotes behind `out`. -/
def writeString (out : String) (s : String) : String :=
  (writeChars (out.push '"') s.toList).push '"'

mutual

/-- Writes a value behind `out`. -/
def write (out : String) : Json → String
  | null => out ++ "null"
  | bool b => out ++ (if b then "true" else "false")
  | int n => out ++ toString n
  | real x => out ++ x.text
  | str s => writeString out s
  | arr items => (writeItems (out.push '[') true items).push ']'
  | obj fields => (writeFields (out.push '\x7b') true fields).push '\x7d'

/-- Writes the items of an array behind `out`, with a comma in front of all but the first. -/
def writeItems (out : String) (first : Bool) : List Json → String
  | [] => out
  | v :: rest => writeItems (write (if first then out else out.push ',') v) false rest

/-- Writes the fields of an object behind `out`, with a comma in front of all but the first. -/
def writeFields (out : String) (first : Bool) : List (String × Json) → String
  | [] => out
  | (k, v) :: rest =>
    writeFields (write ((writeString (if first then out else out.push ',') k).push ':') v)
      false rest

end

/-- The compact text of a value. -/
def compact (v : Json) : String := write "" v

/-- Starts a line that is indented by `depth` steps of two blanks. -/
def newLine (out : String) (depth : Nat) : String :=
  (List.replicate (2 * depth) ' ').foldl String.push (out.push '\n')

mutual

/-- Writes a value behind `out`, with its items and fields indented by one step more than
`depth`. -/
def writeIndented (depth : Nat) (out : String) : Json → String
  | arr [] => out ++ "[]"
  | arr (v :: rest) =>
    (newLine (writeIndentedItems depth
      (writeIndented (depth + 1) (newLine (out.push '[') (depth + 1)) v) rest) depth).push ']'
  | obj [] => (out.push '\x7b').push '\x7d'
  | obj ((k, v) :: rest) =>
    (newLine (writeIndentedFields depth
      (writeIndented (depth + 1)
        (writeString (newLine (out.push '\x7b') (depth + 1)) k ++ ": ") v) rest) depth).push '\x7d'
  | v => write out v

/-- Writes the items of an array behind its first one. -/
def writeIndentedItems (depth : Nat) (out : String) : List Json → String
  | [] => out
  | v :: rest =>
    writeIndentedItems depth
      (writeIndented (depth + 1) (newLine (out.push ',') (depth + 1)) v) rest

/-- Writes the fields of an object behind its first one. -/
def writeIndentedFields (depth : Nat) (out : String) : List (String × Json) → String
  | [] => out
  | (k, v) :: rest =>
    writeIndentedFields depth
      (writeIndented (depth + 1)
        (writeString (newLine (out.push ',') (depth + 1)) k ++ ": ") v) rest

end

/-- The indented text of a value. -/
def indented (v : Json) : String := writeIndented 0 "" v

end Confine.Json
