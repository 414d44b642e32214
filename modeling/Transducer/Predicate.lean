import Transducer.Ordered

/-!
# Predicates over tokens

Tests over tokens, built from comparisons, kinds of tokens and connectives. A test can be asked
under a name; judging a token then also tells which names were asked, in order.

* `Kind`, `Kinded`: the named kinds that tokens of a type have.
* `Predicate`: a test.
* `Predicate.judge`: the verdict on a token, and the names that were asked for it.
* `Predicate.holds`, `Predicate.probes`: the two parts of the judgement.
-/

namespace Transducer

/-- A named kind of tokens. -/
inductive Kind where
  | even
  | negative
  | alphabetic
  | alphanumeric
  | digit
  | uppercase
  | blank
  | empty
  | undefined
deriving DecidableEq

/-- A type whose tokens have kinds. -/
class Kinded (τ : Type) where
  /-- The token is of the kind. -/
  isOf : Kind → τ → Bool

/-- A test over tokens. -/
inductive Predicate (τ : Type) where
  | constant (verdict : Bool)
  | not (p : Predicate τ)
  /-- The second test is asked only if the first one holds. -/
  | and (p q : Predicate τ)
  /-- The second test is asked only if the first one does not hold. -/
  | or (p q : Predicate τ)
  | equals (value : τ)
  | lessThan (bound : τ)
  | greaterThan (bound : τ)
  | kind (k : Kind)
  /-- The test, asked under a name. -/
  | probe (name : String) (p : Predicate τ)
deriving DecidableEq

/-- A name that was asked, with the token it was asked for. -/
abbrev Probe (τ : Type) := String × τ

/-- What a test says of a token: its verdict, and what was asked on the way. -/
structure Judgement (τ : Type) where
  verdict : Bool
  probes : List (Probe τ)

namespace Predicate

variable {τ : Type}

/-- All of the tests hold; they are asked in order, up to the first that does not. -/
def allOf (ps : List (Predicate τ)) : Predicate τ := ps.foldr .and (.constant true)

/-- Some of the tests holds; they are asked in order, up to the first that does. -/
def someOf (ps : List (Predicate τ)) : Predicate τ := ps.foldr .or (.constant false)

variable [BEq τ] [Ordered τ] [Kinded τ]

/-- What the test says of a token. A name is noted before the test that it names is asked. -/
def judge : Predicate τ → τ → Judgement τ
  | constant b, _ => ⟨b, []⟩
  | not p, t =>
    let j := p.judge t
    ⟨!j.verdict, j.probes⟩
  | and p q, t =>
    let j := p.judge t
    if j.verdict then
      let k := q.judge t
      ⟨k.verdict, j.probes ++ k.probes⟩
    else j
  | or p q, t =>
    let j := p.judge t
    if j.verdict then j
    else
      let k := q.judge t
      ⟨k.verdict, j.probes ++ k.probes⟩
  | equals v, t => ⟨t == v, []⟩
  | lessThan v, t => ⟨Ordered.lt t v, []⟩
  | greaterThan v, t => ⟨Ordered.lt v t, []⟩
  | kind k, t => ⟨Kinded.isOf k t, []⟩
  | probe name p, t =>
    let j := p.judge t
    ⟨j.verdict, (name, t) :: j.probes⟩

/-- The test holds of a token. -/
def holds (p : Predicate τ) (t : τ) : Bool := (p.judge t).verdict

/-- What is asked while the test is put to a token. -/
def probes (p : Predicate τ) (t : τ) : List (Probe τ) := (p.judge t).probes

end Predicate

end Transducer
