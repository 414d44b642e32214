import Transducer.Literal

/-!
# Flawed declarations

Why a declaration gives no machine.

* `DuplicateLabel`: a label that a state has more than once.
* `BuildError`: what is missing, or the labels that are repeated.
* `BuildError.message`: the message for a reader.
-/

namespace Transducer

/-- A label that an earlier rule of the state has too, both as they are shown. -/
structure DuplicateLabel where
  state : String
  label : String
deriving DecidableEq

/-- Why a declaration gives no machine. -/
inductive BuildError where
  /-- No state is declared to be the first. -/
  | missingInitial
  /-- A transition leaves no state. -/
  | missingSource
  /-- A transition leads to no state. -/
  | missingTarget
  /-- Some state has a label more than once. -/
  | duplicateLabels (duplicates : List DuplicateLabel)
deriving DecidableEq

/-- The label and its state for a reader. -/
def DuplicateLabel.message (d : DuplicateLabel) : String := d.label ++ " in state " ++ d.state

instance : Literal DuplicateLabel :=
  ⟨fun d => Text.record "DuplicateLabel" [("state", literal d.state), ("label", literal d.label)]⟩

namespace BuildError

/-- The name of the error. -/
def name : BuildError → String
  | .missingInitial => "MissingInitialState"
  | .missingSource => "MissingFromState"
  | .missingTarget => "MissingToState"
  | .duplicateLabels _ => "DuplicateLabels"

/-- The message for a reader. -/
def message : BuildError → String
  | .missingInitial => "Initial state not specified. Call .initial(state) before .build()"
  | .missingSource => "Transition source state not specified. Call .from(state)"
  | .missingTarget => "Transition target state not specified. Call .to(state)"
  | .duplicateLabels ds => "Duplicate labels: " ++ Text.commas (ds.map (·.message))

instance : Literal BuildError :=
  ⟨fun e => match e with
    | .duplicateLabels ds => Text.call e.name [literal ds]
    | _ => e.name⟩

/-- The duplicates of the error. -/
def duplicates : BuildError → List DuplicateLabel
  | .duplicateLabels ds => ds
  | _ => []

end BuildError

end Transducer
