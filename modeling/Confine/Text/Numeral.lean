/-!
Decimal numerals as people write them into a program: ASCII digits, with a sign in front that an
unsigned number may only write as a plus. A numeral outside the range of its type is no numeral.
-/

namespace Confine.Text

/-- An ASCII digit. -/
def isDigit (c : Char) : Bool := '0' ≤ c && c ≤ '9'

/-- The value of a digit. -/
def digitValue (c : Char) : Nat := c.toNat - '0'.toNat

/-- The number that a text of digits denotes in base ten. -/
def ofDigits (s : List Char) : Nat := s.foldl (fun n c => 10 * n + digitValue c) 0

/-- The value of a text of one or more digits. -/
def digits? (s : List Char) : Option Nat :=
  if s.isEmpty || !s.all isDigit then none else some (ofDigits s)

/-- The value of an unsigned numeral below `bound`: digits, with an optional plus. -/
def unsigned? (bound : Nat) (s : List Char) : Option Nat :=
  let body := match s with
    | '+' :: rest => rest
    | _ => s
  (digits? body).filter (· < bound)

/-- The value of a signed numeral from `-half` to `half - 1`: digits, with an optional sign. -/
def signed? (half : Nat) (s : List Char) : Option Int :=
  match s with
  | '-' :: rest => ((digits? rest).filter (· ≤ half)).map fun n => -(n : Int)
  | _ => (unsigned? half s).map fun n => (n : Int)

/-- The value of a 16-bit unsigned numeral. -/
def uint16? (s : String) : Option UInt16 := (unsigned? UInt16.size s.toList).map UInt16.ofNat

/-- The value of a 32-bit unsigned numeral. -/
def uint32? (s : String) : Option UInt32 := (unsigned? UInt32.size s.toList).map UInt32.ofNat

/-- The value of a 64-bit unsigned numeral. -/
def uint64? (s : String) : Option Nat := unsigned? UInt64.size s.toList

/-- The value of a 64-bit signed numeral. -/
def int64? (s : String) : Option Int64 := (signed? (UInt64.size / 2) s.toList).map Int64.ofInt

/-- The hexadecimal digit of a number below 16, in lower case. -/
def hexDigit (n : Nat) : Char :=
  if n < 10 then Char.ofNat ('0'.toNat + n) else Char.ofNat ('a'.toNat + (n - 10))

/-- The value of a hexadecimal digit of either case. -/
def hexValue? (c : Char) : Option Nat :=
  if isDigit c then some (digitValue c)
  else if 'a' ≤ c && c ≤ 'f' then some (c.toNat - 'a'.toNat + 10)
  else if 'A' ≤ c && c ≤ 'F' then some (c.toNat - 'A'.toNat + 10)
  else none

/-- The hexadecimal digits of a number, without leading zeros. -/
def hexDigits (n : Nat) : List Char := Nat.toDigits 16 n

/-- A byte as two hexadecimal digits. -/
def hexByte (b : UInt8) : List Char := [hexDigit (b.toNat / 16), hexDigit (b.toNat % 16)]

end Confine.Text
