import Confine.Text.Numeral

/-!
Universally unique identifiers: 128 bits, written as 32 hexadecimal digits in groups of 8, 4, 4, 4
and 12. Reading also takes the digits without hyphens, in braces, or behind the name of the URN.
-/

namespace Confine

/-- An identifier of 128 bits, in two halves. -/
structure Uuid where
  high : UInt64
  low : UInt64
  deriving DecidableEq, Repr, Inhabited

namespace Uuid

/-- The 16 digits of a half, the highest first. -/
def digitsOf (half : UInt64) : List Char :=
  (List.range 16).map fun i => Text.hexDigit ((half.toNat >>> (4 * (15 - i))) % 16)

/-- The 32 digits of an identifier, the highest first. -/
def digits (u : Uuid) : List Char := digitsOf u.high ++ digitsOf u.low

/-- The half of 16 digits. -/
def halfOf (ds : List Nat) : UInt64 := ds.foldl (fun n d => 16 * n + UInt64.ofNat d) 0

/-- The written form. -/
def text (u : Uuid) : String :=
  let d := u.digits
  String.ofList (d.take 8 ++ '-' :: ((d.drop 8).take 4) ++ '-' :: ((d.drop 12).take 4) ++
    '-' :: ((d.drop 16).take 4) ++ '-' :: d.drop 20)

/-- The identifier of 32 hexadecimal digits. -/
def ofDigits? (s : List Char) : Option Uuid := do
  if s.length ≠ 32 then none
  else
    let ds ← s.mapM Text.hexValue?
    some ⟨halfOf (ds.take 16), halfOf (ds.drop 16)⟩

/-- The identifier of digits with hyphens behind the 8th, 12th, 16th and 20th. -/
def ofHyphenated? (s : List Char) : Option Uuid :=
  if s.length = 36 ∧ s[8]? = some '-' ∧ s[13]? = some '-' ∧ s[18]? = some '-' ∧ s[23]? = some '-'
  then ofDigits? (s.take 8 ++ (s.drop 9).take 4 ++ (s.drop 14).take 4 ++ (s.drop 19).take 4 ++
    s.drop 24)
  else none

/-- Reads an identifier. -/
def ofText? (s : String) : Option Uuid :=
  let cs := s.toList
  if cs.length = 32 then ofDigits? cs
  else if cs.length = 36 then ofHyphenated? cs
  else if cs.length = 38 ∧ cs.head? = some '\x7b' ∧ cs.getLast? = some '\x7d' then
    ofHyphenated? ((cs.drop 1).take 36)
  else if cs.take 9 = "urn:uuid:".toList then ofHyphenated? (cs.drop 9)
  else none

/-- The identifier of 16 random bytes: version 4, variant 1. -/
def ofRandom (bytes : List UInt8) : Uuid :=
  let half (l : List UInt8) : UInt64 := l.foldl (fun n b => 256 * n + b.toUInt64) 0
  ⟨(half (bytes.take 8) &&& 0xFFFFFFFFFFFF0FFF) ||| 0x4000,
    (half (bytes.drop 8) &&& 0x3FFFFFFFFFFFFFFF) ||| 0x8000000000000000⟩

end Uuid

end Confine
