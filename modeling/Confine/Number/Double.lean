/-!
Finite floating-point numbers of 64 bits. A magnitude is a multiple of a power of two; every
operation computes its exact result as a quotient of naturals and rounds that once, to the nearest
magnitude and half-way between two to the one with the even significand (`roundQuotient_near`,
`roundQuotient_even`).

A number that is written in base ten is read from its leading digits and a power of ten, each
rounded first, and their product or quotient rounded again: the result is within a few units of
the last place, and not always the nearest magnitude.
-/

namespace Confine

/-- The number `significand * 2 ^ exponent`. After rounding, the significand has at most 53 bits,
and fewer than 53 only with the least exponent. -/
structure Magnitude where
  significand : Nat
  exponent : Int
  deriving DecidableEq, Repr, Inhabited

/-- A number with a sign, which a zero has too. -/
structure Double where
  negative : Bool
  magnitude : Magnitude
  deriving DecidableEq, Repr, Inhabited

namespace Magnitude

/-- The least exponent. -/
def leastExponent : Int := -1074

/-- The greatest exponent of a magnitude that 64 bits can hold. -/
def greatestExponent : Int := 971

def zero : Magnitude := ⟨0, leastExponent⟩

def isZero (x : Magnitude) : Bool := x.significand == 0

/-- Sixty-four bits can hold the magnitude. -/
def isFinite (x : Magnitude) : Bool := x.exponent ≤ greatestExponent

/-- The quotient of two naturals, rounded to the nearest natural and half-way to the even one. -/
def roundQuotient (num den : Nat) : Nat :=
  let q := num / den
  let twice := 2 * (num % den)
  if twice < den then q else if den < twice then q + 1 else q + q % 2

/-- Rounding moves a quotient by half a unit at most. -/
theorem roundQuotient_near (num : Nat) {den : Nat} (h : 0 < den) :
    2 * num ≤ 2 * (den * roundQuotient num den) + den ∧
      2 * (den * roundQuotient num den) ≤ 2 * num + den := by
  have hlt := Nat.mod_lt num h
  have hsplit := Nat.div_add_mod num den
  have hstep : den * (num / den + 1) = den * (num / den) + den := Nat.mul_add_one ..
  simp only [roundQuotient]
  split
  · omega
  · split
    · omega
    · rcases Nat.mod_two_eq_zero_or_one (num / den) with h | h <;> simp only [h, Nat.add_zero] <;>
        omega

/-- Half-way between two naturals the even one is taken. -/
theorem roundQuotient_even {num den : Nat} (h : 2 * (num % den) = den) :
    roundQuotient num den % 2 = 0 := by
  simp only [roundQuotient, h, Nat.lt_irrefl, if_false]
  omega

/-- The quotient of two naturals as a quotient of multiples of `2 ^ e`. -/
def inUnits (num den : Nat) : Int → Nat × Nat
  | .ofNat k => (num, den <<< k)
  | .negSucc k => (num <<< (k + 1), den)

/-- The magnitude nearest to a quotient of naturals. -/
def ofQuotient (num den : Nat) : Magnitude :=
  if num = 0 then zero
  else
    let low := max ((num.log2 : Int) - den.log2 - 53) leastExponent
    let (n, d) := inUnits num den low
    let e := if d <<< 53 ≤ n then low + 1 else low
    let (n, d) := inUnits num den e
    let m := roundQuotient n d
    if m = 1 <<< 53 then ⟨1 <<< 52, e + 1⟩ else ⟨m, e⟩

def ofNat (n : Nat) : Magnitude := ofQuotient n 1

def mul (x y : Magnitude) : Magnitude :=
  let (n, d) := inUnits (x.significand * y.significand) 1 (-(x.exponent + y.exponent))
  ofQuotient n d

def div (x y : Magnitude) : Magnitude :=
  let (n, d) := inUnits x.significand y.significand (y.exponent - x.exponent)
  ofQuotient n d

/-! ### Powers of ten -/

/-- The greatest power of ten that 64 bits can hold. -/
def greatestTen : Nat := 308

def tenPow (k : Nat) : Magnitude := ofNat (Nat.pow 10 k)

/-- Divides by a power of ten, in steps that 64 bits can hold. -/
def divTenPow (x : Magnitude) (k : Nat) : Magnitude :=
  if k ≤ greatestTen then x.div (tenPow k)
  else if x.isZero then x
  else (x.div (tenPow greatestTen)).divTenPow (k - greatestTen)
termination_by k
decreasing_by simp only [greatestTen] at *; omega

/-- Multiplies by a power of ten, if 64 bits can hold the result. -/
def mulTenPow? (x : Magnitude) (k : Nat) : Option Magnitude :=
  if x.isZero then some x
  else if greatestTen < k then none
  else
    let y := x.mul (tenPow k)
    if y.isFinite then some y else none

end Magnitude

/-- The number `significand * 10 ^ exponent` with a sign; `none` if 64 bits cannot hold it. -/
def Double.ofDecimal? (negative : Bool) (significand : Nat) (exponent : Int) : Option Double :=
  let x := Magnitude.ofNat significand
  match exponent with
  | .ofNat k => (x.mulTenPow? k).map (⟨negative, ·⟩)
  | .negSucc k => some ⟨negative, x.divTenPow (k + 1)⟩

end Confine
