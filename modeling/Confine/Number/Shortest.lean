import Confine.Number.Double

/-!
The text of a floating-point number: the fewest digits that read back to it, and of these the
nearest. A magnitude stands for all numbers that round to it, which are those between the points
half-way to its two neighbours; the points themselves belong to it if its significand is even.
-/

namespace Confine

namespace Magnitude

/-- The number `n * 10 ^ p` as a quotient. -/
def decimal (n : Nat) : Int → Nat × Nat
  | .ofNat k => (n * Nat.pow 10 k, 1)
  | .negSucc k => (n, Nat.pow 10 (k + 1))

/-- The magnitude below is only half as far away as the one above. -/
def isNarrowBelow (x : Magnitude) : Bool :=
  x.significand == 1 <<< 52 && decide (leastExponent < x.exponent)

/-- The number `n * 10 ^ p` rounds to the magnitude. -/
def readsBack (x : Magnitude) (n : Nat) (p : Int) : Bool :=
  let (a, b) := decimal n p
  let (quarter, d) := inUnits 1 1 (2 - x.exponent)
  let low := (4 * x.significand - (if x.isNarrowBelow then 1 else 2)) * quarter
  let high := (4 * x.significand + 2) * quarter
  if x.significand % 2 = 0 then low * b ≤ a * d && a * d ≤ high * b
  else low * b < a * d && a * d < high * b

/-- The multiple of `10 ^ p` next to the magnitude that rounds to it, as a factor; the nearer if
both do. -/
def onGrid? (x : Magnitude) (p : Int) : Option Nat :=
  let (n, d) := inUnits x.significand 1 (-x.exponent)
  let (a, b) := decimal 1 p
  let (n, d) := (n * b, d * a)
  let below := n / d
  match x.readsBack below p, x.readsBack (below + 1) p with
  | true, true => some (roundQuotient n d)
  | true, false => some below
  | false, true => some (below + 1)
  | false, false => none

/-- The first of `count` grids, from that of `10 ^ p` to finer ones, with a multiple that rounds to
the magnitude. -/
def firstGrid? (x : Magnitude) (p : Int) : Nat → Option (Nat × Int)
  | 0 => none
  | count + 1 =>
    match x.onGrid? p with
    | some n => some (n, p)
    | none => x.firstGrid? (p - 1) count

/-- A power of ten above the magnitude: a thousand bits are 301.03 digits. -/
def topGrid (x : Magnitude) : Int :=
  ((x.significand.log2 + 1 + x.exponent) * 30103).fdiv 100000 + 1

/-- The shortest decimal that rounds to the magnitude, as a factor and a power of ten. Seventeen
digits are always enough. -/
def shortest (x : Magnitude) : Nat × Int :=
  match x.firstGrid? x.topGrid 20 with
  | some r => r
  | none =>
    match x.exponent with
    | .ofNat k => (x.significand <<< k, 0)
    | .negSucc k => (x.significand * Nat.pow 5 (k + 1), x.exponent)

/-- Digits with a decimal point or, far from it, with an exponent. There is always a point or an
exponent. -/
def layOut (digits : List Char) (p : Int) : List Char :=
  let point := digits.length + p
  if 0 ≤ p ∧ point ≤ 16 then digits ++ List.replicate p.toNat '0' ++ ['.', '0']
  else if 0 < point ∧ point ≤ 16 then
    digits.take point.toNat ++ '.' :: digits.drop point.toNat
  else if -5 < point ∧ point ≤ 0 then
    '0' :: '.' :: List.replicate (-point).toNat '0' ++ digits
  else
    let exponent := 'e' :: (toString (point - 1)).toList
    match digits with
    | first :: second :: rest => first :: '.' :: second :: rest ++ exponent
    | _ => digits ++ exponent

def text (x : Magnitude) : List Char :=
  if x.isZero then ['0', '.', '0']
  else
    let (n, p) := x.shortest
    layOut (Nat.toDigits 10 n) p

end Magnitude

/-- The text of a number. -/
def Double.text (x : Double) : String :=
  String.ofList (if x.negative then '-' :: x.magnitude.text else x.magnitude.text)

end Confine
