import Transducer.Decimal.Notation
import Transducer.Decimal.Reading
import Transducer.Json.Basic

/-!
# Values as JSON

The types whose values are written to JSON and read back. Reading is strict: it takes exactly the
kind of value that writing gives.

* `Codec`: such a type.
* Instances for truth values, machine integers, characters, texts, lists, pairs and numbers with a
  point.
* `fields?`: the values of the fields of a record, given as an object or as an array.
-/

namespace Transducer.Json

/-- A type whose values are written to JSON and read back. -/
class Codec (α : Type) where
  encode : α → Json
  decode? : Json → Option α

export Codec (encode decode?)

instance : Codec Json := ⟨id, some⟩

instance : Codec Bool where
  encode := .bool
  decode? j := match j with
    | .bool b => some b
    | _ => none

instance : Codec String where
  encode := ofString
  decode? := text?

/-- The number of an integer that is not below the first bound and not above the second one. -/
def intWithin? (lo hi : Int) : Json → Option Int
  | .int n => if lo ≤ n ∧ n ≤ hi then some n else none
  | _ => none

/-- Integers of sixty-four bits with a sign. -/
instance : Codec Int64 where
  encode n := .int n.toInt
  decode? j := (intWithin? (-0x8000000000000000) 0x7fffffffffffffff j).map Int64.ofInt

instance : Codec UInt8 where
  encode n := .int n.toNat
  decode? j := (intWithin? 0 255 j).map fun n => UInt8.ofNat n.toNat

/-- A natural number as a word of sixty-four bits. -/
instance : Codec Nat where
  encode n := .int n
  decode? j := (intWithin? 0 0xffffffffffffffff j).map Int.toNat

/-- A character is written as the text of that character alone. -/
instance : Codec Char where
  encode c := ofString (String.ofList [c])
  decode? j := match j.text?.map String.toList with
    | some [c] => some c
    | _ => none

/-- A number with a point is written as the text of its literal, which has words for the special
values. -/
instance : Codec Float where
  encode x := ofString (String.ofList (Decimal.plain.write x))
  decode? j := j.text?.bind fun s => Decimal.read? s.toList

instance {α : Type} [Codec α] : Codec (List α) where
  encode xs := .arr (xs.map encode)
  decode? j := j.items?.bind fun items => items.mapM decode?

/-- A pair is written as the array of its two parts. -/
instance {α β : Type} [Codec α] [Codec β] : Codec (α × β) where
  encode p := .arr [encode p.1, encode p.2]
  decode? j := match j with
    | .arr [a, b] => do return (← decode? a, ← decode? b)
    | _ => none

/-- The value of the one member of a name; `none` if there is no such member, or more than one. -/
def theField? (members : List (Option String × Json)) (name : String) : Option Json :=
  match members.filter fun m => m.1 == some name with
  | [m] => some m.2
  | _ => none

/-- The values of the fields of a record, in the order of their names. An object has a member for
every name, in any order, and may have others; all its names are texts. An array has the values and
nothing else. -/
def fields? (names : List String) : Json → Option (List Json)
  | .obj members =>
    if members.all fun m => m.1.isSome then names.mapM (theField? members) else none
  | .arr items => if items.length = names.length then some items else none
  | _ => none

end Transducer.Json
