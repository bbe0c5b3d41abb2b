import Confine.Text.Blank
import Confine.Text.Numeral
import Confine.Time.Calendar

/-!
Points in time, and their text in the profile of ISO 8601 that RFC 3339 describes. Reading is
relaxed: blanks may stand before each number, sign and separator, and a blank may stand for the
letter between date and time.
-/

namespace Confine.Time

/-- A point in time: whole seconds since 1970 began in UTC, and the nanoseconds after them. In a
leap second, which follows second 59, there are a thousand million nanoseconds or more. -/
structure Timestamp where
  seconds : Int
  nanos : Nat
  deriving DecidableEq, Repr, Inhabited

namespace Timestamp

/-- The point that is `n` nanoseconds after 1970 began. -/
def ofNanos (n : Nat) : Timestamp := ⟨((n / 1000000000 : Nat) : Int), n % 1000000000⟩

/-- The milliseconds since 1970 began. -/
def millis (t : Timestamp) : Int := t.seconds * 1000 + (t.nanos / 1000000 : Nat)

/-- Not later. -/
def le (s t : Timestamp) : Bool :=
  decide (s.seconds < t.seconds) || (decide (s.seconds = t.seconds) && decide (s.nanos ≤ t.nanos))

/-- A number as `width` digits or more. -/
def padded (width n : Nat) : List Char :=
  let d := Nat.toDigits 10 n
  List.replicate (width - d.length) '0' ++ d

/-- The year as four digits; a year beyond these carries its sign. -/
def yearText (y : Int) : List Char :=
  if 0 ≤ y ∧ y ≤ 9999 then padded 4 y.toNat
  else (if y < 0 then '-' else '+') :: padded 4 y.natAbs

/-- The fraction of a second in three, six or nine digits, whichever loses nothing. -/
def fractionText (n : Nat) : List Char :=
  if n = 0 then []
  else if n % 1000000 = 0 then '.' :: padded 3 (n / 1000000)
  else if n % 1000 = 0 then '.' :: padded 6 (n / 1000)
  else '.' :: padded 9 n

/-- The written form, in UTC. -/
def text (t : Timestamp) : String :=
  let days := t.seconds.fdiv 86400
  let inDay := (t.seconds - days * 86400).toNat
  let date := dateOfDays days
  let leap := t.nanos / 1000000000
  String.ofList (yearText date.1 ++ '-' :: padded 2 date.2.1 ++ '-' :: padded 2 date.2.2 ++
    'T' :: padded 2 (inDay / 3600) ++ ':' :: padded 2 (inDay / 60 % 60) ++
    ':' :: padded 2 (inDay % 60 + leap) ++ fractionText (t.nanos % 1000000000) ++ ['Z'])

/-! ### Reading -/

/-- Takes one character that satisfies the test. -/
def take? (ok : Char → Bool) : List Char → Option (Char × List Char)
  | c :: rest => if ok c then some (c, rest) else none
  | [] => none

/-- Takes an unsigned number of one to `width` digits, after blanks. -/
def number? (width : Nat) (s : List Char) : Option (Nat × List Char) :=
  let s := Text.trimLeft s
  let d := (s.takeWhile Text.isDigit).take width
  if d.isEmpty then none else some (Text.ofDigits d, s.drop d.length)

/-- Takes a year: four digits at most, or any number of digits after a sign. -/
def year? (s : List Char) : Option (Int × List Char) :=
  let s := Text.trimLeft s
  match s with
  | '-' :: rest =>
    let d := rest.takeWhile Text.isDigit
    if d.isEmpty then none else some (-(Text.ofDigits d : Int), rest.drop d.length)
  | '+' :: rest =>
    let d := rest.takeWhile Text.isDigit
    if d.isEmpty then none else some ((Text.ofDigits d : Int), rest.drop d.length)
  | _ => (number? 4 s).map fun r => ((r.1 : Int), r.2)

/-- Takes the character `c`, after blanks. -/
def mark? (c : Char) (s : List Char) : Option (List Char) :=
  (take? (· == c) (Text.trimLeft s)).map (·.2)

/-- Takes a fraction of a second, if a point stands next: nine digits count. -/
def fraction? (s : List Char) : Option (Nat × List Char) :=
  match s with
  | '.' :: rest =>
    let d := rest.takeWhile Text.isDigit
    if d.isEmpty then none
    else
      let used := d.take 9
      some (Text.ofDigits (used ++ List.replicate (9 - used.length) '0'), rest.drop d.length)
  | _ => some (0, s)

/-- Takes two digits. -/
def twoDigits? (s : List Char) : Option (Nat × List Char) :=
  match s with
  | a :: b :: rest =>
    if Text.isDigit a && Text.isDigit b then some (Text.ofDigits [a, b], rest) else none
  | _ => none

/-- Takes the distance from UTC in seconds: a `Z`, the letters `UTC`, or a sign with hours and
minutes, between which colons and blanks may stand. -/
def offset? (s : List Char) : Option (Int × List Char) :=
  if (s.take 3).map Char.toUpper = ['U', 'T', 'C'] then some (0, s.drop 3)
  else match s with
    | [] => none
    | c :: rest =>
      if c = 'Z' || c = 'z' then some (0, rest)
      else do
        let sign : Int ←
          if c = '+' then some 1
          else if c = '-' || c = '\u2212' then some (-1)
          else none
        let (h, rest) ← twoDigits? rest
        let rest := rest.dropWhile fun c => c == ':' || Text.isBlank c
        let (m, rest) ← twoDigits? rest
        if m < 60 && h < 24 then some (sign * (h * 3600 + m * 60 : Nat), rest) else none

/-- The years of the dates that can be read. -/
def leastYear : Int := -262143

def greatestYear : Int := 262142

/-- The point lies in one of the years, in UTC. -/
def inYears (t : Timestamp) : Bool :=
  let day := t.seconds.fdiv 86400
  daysOfDate leastYear 1 1 ≤ day && day ≤ daysOfDate greatestYear 12 31

/-- Reads a point in time. Its date lies in the years that can be read, both where its distance
from UTC counts and in UTC. -/
def ofText? (s : String) : Option Timestamp := do
  let (y, s) ← year? s.toList
  let s ← mark? '-' s
  let (m, s) ← number? 2 s
  let s ← mark? '-' s
  let (d, s) ← number? 2 s
  let (_, s) ← take? (fun c => c == 'T' || c == 't' || c == ' ') s
  let (hour, s) ← number? 2 s
  let s ← mark? ':' s
  let (minute, s) ← number? 2 s
  let s ← mark? ':' s
  let (second, s) ← number? 2 s
  let (nanos, s) ← fraction? s
  let (offset, s) ← offset? (Text.trimLeft s)
  if !(Text.trimLeft s).isEmpty then none
  else if y < leastYear || greatestYear < y then none
  else if m < 1 || 12 < m || d < 1 || daysInMonth y m < d then none
  else if 23 < hour || 59 < minute || 60 < second then none
  else
    let leap := if second = 60 then 1 else 0
    let inDay : Nat := hour * 3600 + minute * 60 + (second - leap)
    let t : Timestamp := ⟨daysOfDate y m d * 86400 + inDay - offset, nanos + leap * 1000000000⟩
    if t.inYears then some t else none

end Timestamp

end Confine.Time
