import Transducer.Decimal.Shortest

/-!
# Writing a number

The text of a number: its shortest decimal, written by the decisions of one record.

* `Style`: which decimals are written positionally, and the words for the special values.
* `Style.write`: the text of a number.
* `plain`: the style of values in reports.
-/

namespace Transducer.Decimal

/-- The decisions of a format. -/
structure Style where
  /-- The least exponent of the leading digit that is written positionally. -/
  lowest : Int
  /-- The exponent of the leading digit from which on a number is written with an exponent. -/
  limit : Int
  /-- What follows the digits of a whole number in positional form. -/
  whole : List Char
  /-- The mark before the exponent. -/
  mark : Char
  /-- The word for a value that is not a number. -/
  undefined : List Char
  /-- The word for the infinite value, without its sign. -/
  infinite : List Char

namespace Style

/-- All digits before the point, some before it, or all behind it. -/
def positional (s : Style) (d : Scientific) : List Char :=
  if d.exponent < 0 then '0' :: '.' :: (List.replicate (-d.exponent - 1).toNat '0' ++ d.digits)
  else
    let places := (d.exponent + 1).toNat
    if d.digits.length ≤ places then
      d.digits ++ List.replicate (places - d.digits.length) '0' ++ s.whole
    else d.digits.take places ++ '.' :: d.digits.drop places

/-- One digit before the point, and the exponent behind its mark. -/
def exponential (s : Style) (d : Scientific) : List Char :=
  let fraction := if d.digits.length ≤ 1 then [] else '.' :: d.digits.drop 1
  d.digits.take 1 ++ fraction ++ s.mark :: integer d.exponent

/-- The text of a decimal. -/
def decimal (s : Style) (d : Scientific) : List Char :=
  if s.lowest ≤ d.exponent ∧ d.exponent < s.limit then s.positional d else s.exponential d

/-- The text of a number; a negative one, zero included, has its sign in front. -/
def write (s : Style) (x : Float) : List Char :=
  if x.isNaN then s.undefined
  else
    let bits := x.toBits
    let b := Binary.ofBits bits
    let size :=
      if x.isInf then s.infinite
      else if b.significand = 0 then '0' :: s.whole
      else s.decimal (shortest b)
    if Binary.signed bits then '-' :: size else size

end Style

/-- Numbers from a ten-thousandth up to ten to the sixteenth are written positionally, with at least
one digit behind the point; the others have an exponent. -/
def plain : Style where
  lowest := -4
  limit := 16
  whole := ['.', '0']
  mark := 'e'
  undefined := ['N', 'a', 'N']
  infinite := ['i', 'n', 'f']

end Transducer.Decimal
