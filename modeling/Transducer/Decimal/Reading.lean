import Transducer.Decimal.Numeral

/-!
# Reading a number

The numbers that a decimal text stands for.

* `read?`: the number nearest to the decimal; the words for the special values are read in any case.
-/

namespace Transducer.Decimal

/-- The value of an exponent: an optional sign and at least one digit. -/
def readExponent? : List Char → Option Int
  | '-' :: ds => if ds.isEmpty || !ds.all isDigit then none else some (-(ofDigits ds : Int))
  | '+' :: ds => if ds.isEmpty || !ds.all isDigit then none else some (ofDigits ds)
  | ds => if ds.isEmpty || !ds.all isDigit then none else some (ofDigits ds)

/-- The number of a text without sign: a special word, or digits with at most one point among them,
at least one digit in all, and an optional exponent. -/
def readUnsigned? (s : List Char) : Option Float :=
  let word := s.map Char.toLower
  if word = ['n', 'a', 'n'] then some (0.0 / 0.0)
  else if word = ['i', 'n', 'f'] ∨ word = "infinity".toList then some (1.0 / 0.0)
  else
    let isMark (c : Char) : Bool := c == 'e' || c == 'E'
    let body := s.takeWhile fun c => !isMark c
    let whole := body.takeWhile (· != '.')
    let part := (body.dropWhile (· != '.')).drop 1
    let digits := whole ++ part
    let exponent? : Option Int := match s.dropWhile fun c => !isMark c with
      | [] => some 0
      | _ :: ds => readExponent? ds
    if digits.isEmpty || !digits.all isDigit then none
    else exponent?.map fun written =>
      let e : Int := written - part.length
      Float.ofScientific (ofDigits digits) (decide (e < 0)) e.natAbs

/-- The number that a text stands for. -/
def read? : List Char → Option Float
  | '-' :: s => (readUnsigned? s).map (- ·)
  | '+' :: s => readUnsigned? s
  | s => readUnsigned? s

end Transducer.Decimal
