import Transducer.Decimal.Binary
import Transducer.Decimal.Numeral

/-!
# Shortest decimals

The decimal with the fewest digits that reads back as a given binary value.

* `Scientific`: a decimal as digits and the exponent of the first of them.
* `onGrid?`: the closer of the value's two neighbours on a decimal grid, if it reads back; of two
  that are equally close, the upper one.
* `shortest`: the answer on the coarsest grid that has one.
-/

namespace Transducer.Decimal

/-- The decimal `d.ddd * 10 ^ exponent`, where the digits are not empty, the first is not zero, and
neither is the last unless it is the first. -/
structure Scientific where
  digits : List Char
  exponent : Int

/-- The digits without the zeros at their end. -/
def trimZeros (ds : List Char) : List Char := (ds.reverse.dropWhile (· == '0')).reverse

/-- The decimal `n * 10 ^ unit`. -/
def Scientific.ofGrid (n : Nat) (unit : Int) : Scientific :=
  let ds := natural n
  ⟨trimZeros ds, unit + ds.length - 1⟩

/-- The least `k` with the value below `10 ^ k`, for a value that is not zero: the number of digits
before the point, or minus the number of zeros behind it. -/
def magnitude (x : Fraction) : Int :=
  if x.den ≤ x.num then (natural (x.num / x.den)).length
  else 1 - ((List.range 400).find? fun j => decide (x.den ≤ x.num * Nat.pow 10 j)).getD 400

/-- The closer of the two neighbours of the value among the multiples of `10 ^ unit`, of those that
read back as it; the upper one if both are equally close. -/
def onGrid? (x : Binary) (unit : Int) : Option Nat :=
  let v := x.value
  let num := v.num * Nat.pow 10 (-unit).toNat
  let den := v.den * Nat.pow 10 unit.toNat
  let below := num / den
  let reads (n : Nat) : Bool := x.roundsHere (.scaled n 10 unit)
  match reads below, reads (below + 1) with
  | true, true => some (if (2 * below + 1) * den ≤ 2 * num then below + 1 else below)
  | true, false => some below
  | false, true => some (below + 1)
  | false, false => none

/-- The decimal with the fewest digits that reads back as a value that is not zero. Seventeen digits
are enough; a value that would need more is given exactly. -/
def shortest (x : Binary) : Scientific :=
  let k := magnitude x.value
  let found := (List.range 17).findSome? fun i =>
    let unit := k - (i + 1 : Nat)
    (onGrid? x unit).map fun n => Scientific.ofGrid n unit
  found.getD <|
    if 0 ≤ x.exponent then .ofGrid (x.significand * Nat.pow 2 x.exponent.toNat) 0
    else .ofGrid (x.significand * Nat.pow 5 (-x.exponent).toNat) x.exponent

end Transducer.Decimal
