/-!
# Binary values

What the bits of a double-precision number stand for.

* `Binary`: a finite value without its sign, with the neighbourhood that rounds to it.
* `Binary.ofBits`: the value that a word of bits stands for.
* `Binary.roundsHere`: **a decimal reads back as the value exactly when it lies in the value's
  neighbourhood.**
-/

namespace Transducer.Decimal

/-- A fraction of natural numbers; the denominator is positive. -/
structure Fraction where
  num : Nat
  den : Nat

/-- The number `n * b ^ e`. -/
def Fraction.scaled (n b : Nat) (e : Int) : Fraction := ⟨n * b.pow e.toNat, b.pow (-e).toNat⟩

/-- The first fraction is below the second. -/
def Fraction.lt (x y : Fraction) : Bool := decide (x.num * y.den < y.num * x.den)

/-- The two fractions are one number. -/
def Fraction.same (x y : Fraction) : Bool := decide (x.num * y.den = y.num * x.den)

/-- A finite binary value without its sign, `significand * 2 ^ exponent`. The gap to the value below
is half the gap to the value above where `narrow` holds: at the powers of two. -/
structure Binary where
  significand : Nat
  exponent : Int
  narrow : Bool

namespace Binary

/-- How many fractions a word of bits can hold. -/
def fractions : Nat := 0x10000000000000

/-- How many exponents a word of bits can hold. -/
def exponents : Nat := 0x800

/-- The value of a word of bits, its sign left out. Words of infinities and of not-a-numbers stand
for no value and must be told apart before. -/
def ofBits (bits : UInt64) : Binary :=
  let fraction : Nat := bits.toNat % fractions
  let biased : Nat := bits.toNat / fractions % exponents
  if biased = 0 then ⟨fraction, -1074, false⟩
  else ⟨fractions + fraction, (biased : Int) - 1075, decide (fraction = 0) && decide (1 < biased)⟩

/-- A word of bits has the sign bit. -/
def signed (bits : UInt64) : Bool := decide (exponents * fractions ≤ bits.toNat)

/-- The exact value. -/
def value (x : Binary) : Fraction := .scaled x.significand 2 x.exponent

/-- The lower end of the neighbourhood, halfway to the value below. -/
def lower (x : Binary) : Fraction :=
  .scaled (4 * x.significand - if x.narrow then 1 else 2) 2 (x.exponent - 2)

/-- The upper end of the neighbourhood, halfway to the value above. -/
def upper (x : Binary) : Fraction := .scaled (4 * x.significand + 2) 2 (x.exponent - 2)

/-- The number is read as this value: it lies between the two ends, or at one of them if the
significand is even. -/
def roundsHere (x : Binary) (y : Fraction) : Bool :=
  let even := decide (x.significand % 2 = 0)
  (x.lower.lt y || even && x.lower.same y) && (y.lt x.upper || even && y.same x.upper)

end Binary

end Transducer.Decimal
