import Transducer.Literal

/-!
# Labels

What a rule says about the tokens it is for.

* `Pattern`: a type of tests over tokens. A pattern is the value that names it, so two patterns are
  the same if they are the same value, and then cover the same tokens.
* `Label`: every token, one token, or the tokens that a pattern covers.
* `Label.admits`: the label is for the token.
* `Label.copy`: the copy of a label, which has the same pattern.
* `PartialEquivBEq (Label π τ)`: equality of labels is symmetric and transitive if that of the tokens
  is.
* `Label.admits_congr`: **equal labels are for the same tokens.**
-/

namespace Transducer

/-- A type of tests over tokens. -/
class Pattern (π τ : Type) where
  /-- The pattern covers the token. -/
  covers : π → τ → Bool

/-- A type without patterns tests nothing. -/
instance {τ : Type} : Pattern Empty τ := ⟨fun p => nomatch p⟩

/-- The tokens that a rule is for. -/
inductive Label (π τ : Type) where
  /-- Every token. -/
  | any
  /-- The tokens equal to a value. -/
  | exact (value : τ)
  /-- The tokens that a pattern covers. -/
  | pattern (pattern : π)

namespace Label

variable {π τ : Type}

/-- The label is for every token by what it says. -/
def isAny : Label π τ → Bool
  | .any => true
  | _ => false

/-- The label is for the token. -/
def admits [BEq τ] [Pattern π τ] : Label π τ → τ → Bool
  | .any, _ => true
  | .exact value, t => value == t
  | .pattern p, t => Pattern.covers p t

/-- Two labels are equal if both are for every token, for equal values, or have the same pattern. -/
def same [BEq τ] [DecidableEq π] : Label π τ → Label π τ → Bool
  | .any, .any => true
  | .exact a, .exact b => a == b
  | .pattern p, .pattern q => decide (p = q)
  | _, _ => false

instance [BEq τ] [DecidableEq π] : BEq (Label π τ) := ⟨same⟩

/-- The copy of a label, from how tokens are copied. There is no second pattern: the copy has the
same. -/
def copy (copyToken : τ → τ) : Label π τ → Label π τ
  | .any => .any
  | .exact value => .exact (copyToken value)
  | .pattern p => .pattern p

/-- A pattern is not shown. -/
instance [Literal τ] : Literal (Label π τ) :=
  ⟨fun l => match l with
    | .any => "Any"
    | .exact value => Text.call "Exact" [literal value]
    | .pattern _ => "Pattern(..)"⟩

section

variable [BEq τ] [DecidableEq π]

@[simp] theorem any_beq_any : ((.any : Label π τ) == .any) = true := rfl

@[simp] theorem exact_beq_exact (a b : τ) : ((.exact a : Label π τ) == .exact b) = (a == b) := rfl

@[simp] theorem pattern_beq_pattern (p q : π) :
    ((.pattern p : Label π τ) == .pattern q) = decide (p = q) := rfl

instance [PartialEquivBEq τ] : PartialEquivBEq (Label π τ) where
  symm {l m} h := by
    match l, m, h with
    | .any, .any, _ => rfl
    | .exact _, .exact _, h => exact BEq.symm (α := τ) h
    | .pattern _, .pattern _, h => exact decide_eq_true (of_decide_eq_true h).symm
  trans {l m n} h h' := by
    match l, m, n, h, h' with
    | .any, .any, .any, _, _ => rfl
    | .exact _, .exact _, .exact _, h, h' => exact BEq.trans (α := τ) h h'
    | .pattern _, .pattern _, .pattern _, h, h' =>
      exact decide_eq_true ((of_decide_eq_true h).trans (of_decide_eq_true h'))

theorem beq_self_eq_false_iff {l : Label π τ} :
    (l == l) = false ↔ ∃ v, l = .exact v ∧ (v == v) = false := by
  cases l <;> simp

/-- **Equal labels are for the same tokens.** -/
theorem admits_congr [PartialEquivBEq τ] [Pattern π τ] {l m : Label π τ} (h : (l == m) = true)
    (t : τ) : l.admits t = m.admits t := by
  match l, m, h with
  | .any, .any, _ => rfl
  | .exact _, .exact _, h => exact BEq.congr_left h
  | .pattern _, .pattern _, h => rw [of_decide_eq_true h]

end

end Label

end Transducer
