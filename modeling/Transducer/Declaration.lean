import Transducer.BuildError
import Transducer.Table

/-!
# Declaring transitions

One declaration may name many states. It gives a rule for each, all with the same label and action.

* `Clause`: one thing that is said of a transition.
* `Declaration`: what has been said.
* `Declaration.ofClauses`: what a list of clauses says; of two that speak of the target, the label or
  the action, the last one counts.
* `Declaration.build`: the rules.
-/

namespace Transducer

/-- One thing that is said of a transition. -/
inductive Clause (π σ τ α : Type) where
  /-- It leaves each of the states, for the target. -/
  | sources (states : List σ)
  /-- It leaves each of the states and comes back to it. -/
  | loops (states : List σ)
  /-- It leads to the state. -/
  | target (state : σ)
  /-- It is for the tokens of the label. -/
  | label (label : Label π τ)
  /-- It does this once it has been followed. -/
  | action (action : α)

/-- What has been said of a transition. -/
structure Declaration (π σ τ α : Type) where
  /-- The states that it leaves for the target. -/
  sources : List σ
  /-- The states that it leaves and comes back to. -/
  loops : List σ
  target : Option σ
  label : Label π τ
  action : Option α

namespace Declaration

variable {π σ τ α : Type}

/-- Nothing has been said yet; the label is for every token. -/
def empty : Declaration π σ τ α := ⟨[], [], none, .any, none⟩

/-- One thing more is said. -/
def say (d : Declaration π σ τ α) : Clause π σ τ α → Declaration π σ τ α
  | .sources states => { d with sources := d.sources ++ states }
  | .loops states => { d with loops := d.loops ++ states }
  | .target state => { d with target := some state }
  | .label label => { d with label := label }
  | .action action => { d with action := some action }

/-- What a list of clauses says. -/
def ofClauses (clauses : List (Clause π σ τ α)) : Declaration π σ τ α := clauses.foldl say empty

/-- The rule of the declaration for a state it leads to. -/
def rule (d : Declaration π σ τ α) (target : σ) : Rule π σ τ α := ⟨d.label, target, d.action⟩

/-- The rules with the states they leave: those for the target first, then those that come back. A
declaration without any state says nothing, and so does a target that no state is left for. -/
def build (d : Declaration π σ τ α) : Except BuildError (List (σ × Rule π σ τ α)) :=
  let back := d.loops.map fun s => (s, d.rule s)
  match d.sources, d.target with
  | [], none => if d.loops.isEmpty then .error .missingSource else .ok back
  | [], some _ => .error .missingSource
  | _ :: _, none => .error .missingTarget
  | _ :: _, some target => .ok ((d.sources.map fun s => (s, d.rule target)) ++ back)

end Declaration

end Transducer
