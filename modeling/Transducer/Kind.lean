import Transducer.Predicate
import Transducer.Text.Blank

/-!
# Kinds of tokens

Which tokens are of which kind, for each type of tokens; a kind that is not named for a type has none
of its tokens. Letters and digits are those of ASCII.

* `Kind.ofName?`: the kind of a name.
* Instances of `Kinded` for numbers, characters, texts, truth values and lists.
-/

namespace Transducer

/-- The kind of a name. -/
def Kind.ofName? (name : String) : Option Kind :=
  [("even", .even), ("negative", .negative), ("alpha", .alphabetic), ("alnum", .alphanumeric),
    ("digit", .digit), ("upper", .uppercase), ("space", .blank), ("empty", .empty),
    ("nan", .undefined)].lookup name

/-- The test for the kind of a name; nothing is of a kind without name. -/
def Predicate.ofKindName {τ : Type} (name : String) : Predicate τ :=
  ((Kind.ofName? name).map .kind).getD (.constant false)

instance : Kinded Int64 where
  isOf k n := match k with
    | .even => decide (n.toInt % 2 = 0)
    | .negative => decide (n.toInt < 0)
    | _ => false

instance : Kinded UInt8 where
  isOf k n := match k with
    | .even => decide (n.toNat % 2 = 0)
    | _ => false

instance : Kinded Char where
  isOf k c := match k with
    | .alphabetic => c.isAlpha
    | .alphanumeric => c.isAlphanum
    | .digit => c.isDigit
    | .uppercase => c.isUpper
    | .blank => Text.isBlank c
    | _ => false

instance : Kinded String where
  isOf k s := match k with
    | .empty => s.toList.isEmpty
    | _ => false

instance : Kinded Bool := ⟨fun _ _ => false⟩

instance : Kinded Float where
  isOf k x := match k with
    | .undefined => x.isNaN
    | .negative => x.lt 0.0
    | _ => false

instance {α : Type} : Kinded (List α) where
  isOf k xs := match k with
    | .empty => xs.isEmpty
    | _ => false

end Transducer
