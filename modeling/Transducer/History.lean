import Transducer.Literal

/-!
# Histories

The transitions that a run has taken, oldest first.

* `Transition`: the states before and after a token, and the place of the token in the input.
* `History`: a list of transitions.
* `History.path`: the states on the way.
* `History.lastState?`: the state at its end.
-/

namespace Transducer

/-- One transition of a run. -/
structure Transition (σ : Type) where
  /-- The state before the token. -/
  source : σ
  /-- The state after the token. -/
  target : σ
  /-- How many tokens came before. -/
  position : Nat
deriving BEq, DecidableEq

/-- The state did not change. -/
def Transition.isLoop {σ : Type} [DecidableEq σ] (t : Transition σ) : Bool :=
  decide (t.source = t.target)

/-- The transitions that a run has taken, oldest first. -/
structure History (σ : Type) where
  transitions : List (Transition σ)
deriving BEq, DecidableEq

namespace History

variable {σ : Type}

/-- No transition. -/
def empty : History σ := ⟨[]⟩

/-- One transition more. -/
def record (h : History σ) (t : Transition σ) : History σ := ⟨h.transitions ++ [t]⟩

/-- How many transitions there are. -/
def length (h : History σ) : Nat := h.transitions.length

/-- There is no transition. -/
def isEmpty (h : History σ) : Bool := h.transitions.isEmpty

/-- The states on the way: the source of the first transition and the target of each. -/
def path (h : History σ) : List σ :=
  ((h.transitions.head?).map (·.source)).toList ++ h.transitions.map (·.target)

/-- The target of the last transition. -/
def lastState? (h : History σ) : Option σ := h.transitions.getLast?.map (·.target)

section

variable (h : History σ) (t : Transition σ)

@[simp] theorem transitions_empty : (empty : History σ).transitions = [] := rfl

@[simp] theorem transitions_record :
    (h.record t).transitions = h.transitions ++ [t] := rfl

@[simp] theorem length_record : (h.record t).length = h.length + 1 := by
  simp [length]

@[simp] theorem lastState?_record : (h.record t).lastState? = some t.target := by
  simp [lastState?]

end

section

variable [Literal σ]

instance : Literal (Transition σ) :=
  ⟨fun t => Text.record "StateTransition"
    [("from", literal t.source), ("to", literal t.target), ("position", literal t.position)]⟩

instance : Literal (History σ) :=
  ⟨fun h => Text.record "StateHistory" [("transitions", literal h.transitions)]⟩

end

end History

end Transducer
