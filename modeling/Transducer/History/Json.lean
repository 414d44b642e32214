import Transducer.History
import Transducer.Json.Codec
import Transducer.Json.Text

/-!
# Histories as JSON

A transition is the record of its three fields, and a history the record of its one.

* Instances of `Codec` for transitions and histories.
* `History.toJson`: the compact text of a history.
* `Json.parse?`: the value that a text stands for, of any type that is written to JSON.
-/

namespace Transducer

open Json (Codec encode decode?)

variable {σ : Type} [Codec σ]

instance : Codec (Transition σ) where
  encode t := .ofMembers
    [("from", encode t.source), ("to", encode t.target), ("position", encode t.position)]
  decode? j := match Json.fields? ["from", "to", "position"] j with
    | some [source, target, position] =>
      do return ⟨← decode? source, ← decode? target, ← decode? position⟩
    | _ => none

instance : Codec (History σ) where
  encode h := .ofMembers [("transitions", encode h.transitions)]
  decode? j := match Json.fields? ["transitions"] j with
    | some [transitions] => (decode? transitions).map .mk
    | _ => none

/-- The compact text of a history. -/
def History.toJson (h : History σ) : String := String.ofList (encode h).write

/-- The value that a text stands for. -/
def Json.parse? {α : Type} [Codec α] (s : String) : Option α := (Json.read? s.toList).bind decode?

end Transducer
