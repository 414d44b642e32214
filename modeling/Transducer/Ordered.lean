/-!
# Orders of tokens and states

* `Ordered`: the types with a comparison; nothing is asked of it, so that numbers that are equal to
  nothing, themselves included, have their place.
* Instances for truth values, numbers, characters, texts, lists and pairs.
-/

namespace Transducer

/-- A type whose values can be compared. -/
class Ordered (α : Type) where
  /-- The first value comes before the second one. -/
  lt : α → α → Bool
  /-- The first value comes before the second one, or is equal to it. -/
  le : α → α → Bool

namespace Ordered

/-- Whether the first list comes before the second one: at the first place where they differ, or by
being its beginning. -/
def listLt {α : Type} [Ordered α] [BEq α] : List α → List α → Bool
  | _, [] => false
  | [], _ :: _ => true
  | a :: as, b :: bs => if a == b then listLt as bs else lt a b

/-- The order of a type whose comparison is total. -/
@[reducible] def ofLt {α : Type} (lt : α → α → Bool) : Ordered α := ⟨lt, fun a b => !lt b a⟩

instance : Ordered Bool := ofLt fun a b => !a && b

instance : Ordered Nat := ofLt fun a b => decide (a < b)

instance : Ordered Int := ofLt fun a b => decide (a < b)

instance : Ordered Int64 := ofLt fun a b => lt a.toInt b.toInt

instance : Ordered UInt8 := ofLt fun a b => lt a.toNat b.toNat

instance : Ordered Char := ofLt fun a b => lt a.toNat b.toNat

/-- A comparison with a value that is not a number does not hold. -/
instance : Ordered Float := ⟨fun a b => a.lt b, fun a b => a.le b⟩

instance {α : Type} [Ordered α] [BEq α] : Ordered (List α) := ofLt listLt

instance : Ordered String := ofLt fun a b => listLt a.toList b.toList

instance {α β : Type} [Ordered α] [BEq α] [Ordered β] : Ordered (α × β) :=
  ofLt fun p q => if p.1 == q.1 then lt p.2 q.2 else lt p.1 q.1

end Ordered

end Transducer
