import Transducer.Label
import Transducer.Predicate

/-!
# Kinds of patterns

Patterns given by their bounds, by their members or by a predicate, and numbered so that two of them
are different patterns even if they say the same.

* `Range`: what a pattern says.
* `Numbered`: a pattern with the number that tells it from the others.
* `Label.probes`: what is asked while a label is put to a token.
-/

namespace Transducer

/-- What a pattern says of the tokens it covers. -/
inductive Range (τ : Type) where
  /-- They lie between two tokens, both included. -/
  | closed (first last : τ)
  /-- They lie between two tokens, the second one excluded. -/
  | halfOpen (first bound : τ)
  /-- They are among the listed ones. -/
  | members (tokens : List τ)
  /-- A predicate holds of them. -/
  | satisfying (p : Predicate τ)
deriving DecidableEq

namespace Range

variable {τ : Type} [BEq τ] [Ordered τ] [Kinded τ]

/-- The token is covered. -/
def contains : Range τ → τ → Bool
  | closed a b, t => Ordered.le a t && Ordered.le t b
  | halfOpen a b, t => Ordered.le a t && Ordered.lt t b
  | members ts, t => ts.any (· == t)
  | satisfying p, t => p.holds t

/-- What is asked while the token is looked for. -/
def probes : Range τ → τ → List (Probe τ)
  | satisfying p, t => p.probes t
  | _, _ => []

end Range

/-- A pattern with the number that tells it from the others. -/
structure Numbered (τ : Type) where
  number : Nat
  range : Range τ
deriving DecidableEq

section

variable {τ : Type} [BEq τ] [Ordered τ] [Kinded τ]

instance : Pattern (Numbered τ) τ := ⟨fun p t => p.range.contains t⟩

/-- What is asked while the label is put to a token. -/
def Label.probes : Label (Numbered τ) τ → τ → List (Probe τ)
  | .pattern p, t => p.range.probes t
  | _, _ => []

end

end Transducer
