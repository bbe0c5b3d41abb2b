import Confine.Number.Double
import Confine.Text.Numeral

/-!
Numbers in JSON texts. An integer that 64 bits can hold, signed or not, is kept as it is; anything
else is a floating-point number.
-/

namespace Confine.Json

/-- A number in a document. -/
inductive Numeral where
  /-- an integer of 64 bits -/
  | int (n : Int)
  /-- any other number, and negative zero; `none` if it is too great -/
  | real (x : Option Double)
  deriving DecidableEq, Repr, Inhabited

namespace Numeral

/-- Reads digits behind a number as long as 64 bits can hold it; gives the digits that are left. -/
def leadingDigits (n : Nat) : List Char → Nat × List Char
  | [] => (n, [])
  | c :: rest =>
    let longer := 10 * n + Text.digitValue c
    if longer < UInt64.size then leadingDigits longer rest else (n, c :: rest)

/-- The number of a sign, the digits before and behind the point, and an exponent. Digits behind
those that 64 bits can hold do not count but for their place. -/
def ofParts (negative : Bool) (whole fraction : List Char) (exponent : Int) : Numeral :=
  let (n, uncounted) := leadingDigits 0 whole
  let (n, ignored) := leadingDigits n fraction
  let behind : Int := fraction.length - ignored.length
  .real (Double.ofDecimal? negative n (uncounted.length - behind + exponent))

/-- The number of a sign and digits. -/
def ofWhole (negative : Bool) (whole : List Char) : Numeral :=
  match leadingDigits 0 whole with
  | (n, []) =>
    if !negative then .int n
    else if n = 0 || UInt64.size / 2 < n then ofParts negative whole [] 0
    else .int (-n)
  | _ => ofParts negative whole [] 0

/-- The number of the digits of an exponent, or one that is as good if they are too many. -/
def exponent? (s : List Char) : Option Int :=
  let (negative, digits) := match s with
    | '+' :: d => (false, d)
    | '-' :: d => (true, d)
    | d => (false, d)
  if digits.isEmpty || !digits.all Text.isDigit then none
  else
    let n : Int := (leadingDigits 0 digits).1
    some (if negative then -n else n)

/-- Reads what follows the digits before the point. -/
def ofTail? (negative : Bool) (whole fraction : List Char) : List Char → Option Numeral
  | [] =>
    some (if fraction.isEmpty then ofWhole negative whole else ofParts negative whole fraction 0)
  | e :: rest =>
    if e = 'e' || e = 'E' then (exponent? rest).map (ofParts negative whole fraction) else none

/-- A number: digits without a needless zero, an optional fraction and an optional exponent. -/
def ofChars? (s : List Char) : Option Numeral :=
  let negative := s.head? = some '-'
  let body := if negative then s.drop 1 else s
  let whole := body.takeWhile Text.isDigit
  let needless := 1 < whole.length && whole.head? = some '0'
  if whole.isEmpty || needless then none
  else match body.drop whole.length with
    | '.' :: rest =>
      let fraction := rest.takeWhile Text.isDigit
      if fraction.isEmpty then none
      else ofTail? negative whole fraction (rest.drop fraction.length)
    | rest => ofTail? negative whole [] rest

end Numeral

end Confine.Json
