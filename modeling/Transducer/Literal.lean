import Transducer.Decimal.Notation
import Transducer.Text.Bracketed
import Transducer.Text.Quoted

/-!
# Literals

How a value is shown in messages and reports.

* `Literal`: the types whose values can be shown.
* Instances for truth values, numbers, characters, texts, lists and pairs.
-/

namespace Transducer

/-- A type whose values can be shown. -/
class Literal (α : Type) where
  /-- The text that shows a value. -/
  literal : α → String

export Literal (literal)

instance : Literal Bool := ⟨fun b => if b then "true" else "false"⟩

instance : Literal Nat := ⟨fun n => String.ofList (Decimal.natural n)⟩

instance : Literal Int := ⟨fun n => String.ofList (Decimal.integer n)⟩

instance : Literal Int64 := ⟨fun n => literal n.toInt⟩

instance : Literal UInt8 := ⟨fun n => literal n.toNat⟩

instance : Literal Float := ⟨fun x => String.ofList (Decimal.plain.write x)⟩

instance : Literal Char := ⟨fun c => String.ofList (Text.quote '\'' [c])⟩

instance : Literal String := ⟨fun s => String.ofList (Text.quote '"' s.toList)⟩

instance {α : Type} [Literal α] : Literal (List α) := ⟨fun xs => Text.listing (xs.map literal)⟩

instance {α β : Type} [Literal α] [Literal β] : Literal (α × β) :=
  ⟨fun p => Text.call "" [literal p.1, literal p.2]⟩

instance {α : Type} [Literal α] : Literal (Option α) :=
  ⟨fun o => match o with
    | none => "None"
    | some a => Text.call "Some" [literal a]⟩

instance {ε α : Type} [Literal ε] [Literal α] : Literal (Except ε α) :=
  ⟨fun r => match r with
    | .ok a => Text.call "Ok" [literal a]
    | .error e => Text.call "Err" [literal e]⟩

end Transducer
