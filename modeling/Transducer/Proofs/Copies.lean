import Mathlib.Logic.Function.Iterate
import Transducer.Label

/-!
# Copies of labels

Nothing that is done with labels tells one from its copies, nor from a label that it is equal to. No
token need be equal to itself for this: a label for a token that is not is equal to no label, and
neither are its copies.

* `CopiesFaithfully`: what is asked of the copies of tokens.
* `Label.Alike`: two labels are for the same tokens and are equal to the same labels.
* `Label.alike_of_beq`: **equal labels are alike**, and so are two labels for tokens that are not
  equal to themselves (`Label.alike_of_undefined`).
* `Label.alike_copy`, `Label.alike_iterate_copy`: **a label is like its copy, and like any copy of
  copies.**
* `Label.equality_sound`: **the laws of equality, and what equal labels and copies share.**
-/

namespace Transducer

variable {π τ : Type}

/-- A token that is equal to itself is equal to its copy, and the copy of one that is not equal to
itself is not either. -/
structure CopiesFaithfully [BEq τ] (copyToken : τ → τ) : Prop where
  beq_copy : ∀ a, (a == a) = true → (copyToken a == a) = true
  beq_self : ∀ a, (copyToken a == copyToken a) = true → (a == a) = true

theorem beq_eq_false_of_self {α : Type} [BEq α] [PartialEquivBEq α] {a : α} (h : (a == a) = false)
    (b : α) : (a == b) = false ∧ (b == a) = false := by
  have hab : (a == b) = false := by
    rw [← Bool.not_eq_true]
    intro hab
    rw [BEq.trans hab (BEq.symm hab)] at h
    cases h
  exact ⟨hab, by rw [BEq.comm, hab]⟩

namespace Label

variable [BEq τ] [DecidableEq π] [Pattern π τ]

/-- The labels are for the same tokens, and equal to the same labels. -/
structure Alike (l m : Label π τ) : Prop where
  admits_eq : ∀ t, l.admits t = m.admits t
  beq_left : ∀ n, (l == n) = (m == n)
  beq_right : ∀ n, (n == l) = (n == m)

section

variable {l m n : Label π τ}

theorem Alike.refl (l : Label π τ) : l.Alike l := ⟨fun _ => rfl, fun _ => rfl, fun _ => rfl⟩

theorem Alike.trans (h : l.Alike m) (h' : m.Alike n) : l.Alike n where
  admits_eq t := (h.admits_eq t).trans (h'.admits_eq t)
  beq_left k := (h.beq_left k).trans (h'.beq_left k)
  beq_right k := (h.beq_right k).trans (h'.beq_right k)

variable [PartialEquivBEq τ]

theorem alike_of_beq (h : (l == m) = true) : l.Alike m where
  admits_eq := admits_congr h
  beq_left _ := BEq.congr_left h
  beq_right _ := BEq.congr_right h

/-- Labels for tokens that are not equal to themselves are for no token and equal to no label. -/
theorem alike_of_undefined {v w : τ} (hv : (v == v) = false) (hw : (w == w) = false) :
    (exact v : Label π τ).Alike (exact w) where
  admits_eq t := by
    rw [admits, admits, (beq_eq_false_of_self hv t).1, (beq_eq_false_of_self hw t).1]
  beq_left k := by
    rw [(beq_eq_false_of_self (a := exact v) hv k).1, (beq_eq_false_of_self (a := exact w) hw k).1]
  beq_right k := by
    rw [(beq_eq_false_of_self (a := exact v) hv k).2, (beq_eq_false_of_self (a := exact w) hw k).2]

/-! ## Copies -/

variable {copyToken : τ → τ}

theorem alike_copy (h : CopiesFaithfully copyToken) (l : Label π τ) :
    (l.copy copyToken).Alike l := by
  cases l with
  | any => exact .refl _
  | pattern p => exact .refl _
  | exact v =>
    cases hv : v == v with
    | true => exact alike_of_beq (h.beq_copy v hv)
    | false =>
      refine alike_of_undefined ?_ hv
      rw [← Bool.not_eq_true] at hv ⊢
      exact mt (h.beq_self v) hv

theorem alike_iterate_copy (h : CopiesFaithfully copyToken) (l : Label π τ) (k : Nat) :
    ((copy copyToken)^[k] l).Alike l := by
  induction k with
  | zero => exact .refl l
  | succ k ih =>
    rw [Function.iterate_succ_apply']
    exact (alike_copy h _).trans ih

end

/-- **Equality of labels is sound for matching.** If equality of tokens is symmetric and transitive,
so is that of labels, and equal labels are for the same tokens. A label is equal to itself, and to
its copy, unless it is for a value that is not equal to itself. No copy, and no copy of copies, is
told from the label: it is for the same tokens, and equal to the same labels. -/
theorem equality_sound [PartialEquivBEq τ] :
    (∀ l m : Label π τ, (l == m) = true → (m == l) = true ∧ ∀ t, l.admits t = m.admits t) ∧
    (∀ l m n : Label π τ, (l == m) = true → (m == n) = true → (l == n) = true) ∧
    (∀ l : Label π τ, (l == l) = false ↔ ∃ v, l = .exact v ∧ (v == v) = false) ∧
    ∀ copyToken : τ → τ, CopiesFaithfully copyToken → ∀ l : Label π τ,
      ((l == l.copy copyToken) = false ↔ ∃ v, l = .exact v ∧ (v == v) = false) ∧
      ∀ k, let c := (copy copyToken)^[k] l
        (∀ t, c.admits t = l.admits t) ∧ ∀ m, (c == m) = (l == m) ∧ (m == c) = (m == l) := by
  refine ⟨fun l m h => ⟨BEq.symm h, admits_congr h⟩, fun l m n => BEq.trans,
    fun l => beq_self_eq_false_iff, fun copyToken h l => ⟨?_, fun k => ?_⟩⟩
  · rw [(alike_copy h l).beq_right, beq_self_eq_false_iff]
  · obtain ⟨hadmits, hleft, hright⟩ := alike_iterate_copy h l k
    exact ⟨hadmits, fun m => ⟨hleft m, hright m⟩⟩

end Label

/-! ## Tokens that are not equal to themselves -/

/-- A measured value, if there is one, with the number of the copy. -/
structure Measurement where
  value : Option Nat
  number : Nat

/-- Measurements are equal by their values; one without a value is equal to none. -/
instance : BEq Measurement := ⟨fun a b => a.value.isSome && a.value == b.value⟩

/-- Numbered patterns, all of them for the measurements with a value. -/
instance : Pattern Nat Measurement := ⟨fun _ a => a.value.isSome⟩

/-- The copy has the next number. -/
def Measurement.copy (a : Measurement) : Measurement := { a with number := a.number + 1 }

theorem Measurement.beq_iff {a b : Measurement} :
    (a == b) = true ↔ ∃ n, a.value = some n ∧ b.value = some n := by
  change (a.value.isSome && a.value == b.value) = true ↔ _
  rw [Bool.and_eq_true_iff, Option.isSome_iff_exists, beq_iff_eq]
  constructor
  · rintro ⟨⟨n, hn⟩, hab⟩
    exact ⟨n, hn, hab ▸ hn⟩
  · rintro ⟨n, ha, hb⟩
    exact ⟨⟨n, ha⟩, ha.trans hb.symm⟩

instance : PartialEquivBEq Measurement where
  symm h := by
    rw [Measurement.beq_iff] at h ⊢
    obtain ⟨n, ha, hb⟩ := h
    exact ⟨n, hb, ha⟩
  trans h h' := by
    rw [Measurement.beq_iff] at h h' ⊢
    obtain ⟨n, ha, hb⟩ := h
    obtain ⟨k, hb', hc⟩ := h'
    rw [hb] at hb'
    exact ⟨n, ha, by rw [hc, ← hb']⟩

theorem Measurement.copiesFaithfully : CopiesFaithfully Measurement.copy where
  beq_copy _ h := h
  beq_self _ h := h

/-- A label for a missing value is not equal to its copy; one for a value is equal to its fifth
copy, which is for the measurements of this value. -/
theorem Label.equality_sound_measurements :
    let missing : Label Nat Measurement := .exact ⟨none, 0⟩
    let three : Label Nat Measurement := .exact ⟨some 3, 0⟩
    let fifth := (Label.copy Measurement.copy)^[5] three
    (missing == missing.copy Measurement.copy) = false ∧ (three == fifth) = true ∧
      fifth.admits ⟨some 3, 7⟩ = true := by
  intro missing three fifth
  obtain ⟨-, -, -, h⟩ := equality_sound (π := Nat) (τ := Measurement)
  have hcopy := h Measurement.copy Measurement.copiesFaithfully
  obtain ⟨hadmits, hbeq⟩ := (hcopy three).2 5
  refine ⟨((hcopy missing).1).2 ⟨_, rfl, rfl⟩, ?_, ?_⟩
  · exact (hbeq three).2.trans rfl
  · exact (hadmits _).trans rfl

end Transducer
