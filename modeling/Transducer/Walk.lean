import Transducer.History
import Transducer.Journal
import Transducer.Machine

/-!
# Walks

The course of one run through the states of a machine: its start, one transition a token, and its
end. A walk that records keeps the transitions it took.

* `Walk`: where a walk stands.
* `Stride`: what a step of a walk leads to, what it emitted, and whether it failed.
* `Machine.start`, `Machine.advance`, `Machine.finish`: the steps.
-/

namespace Transducer

/-- Where a walk stands. -/
structure Walk (π σ τ κ : Type) where
  state : σ
  /-- How many transitions have been taken. -/
  position : Nat
  /-- The transitions taken since recording began, if it did. -/
  history : Option (History σ)
  context : κ
  journal : List (Entry π σ τ)

/-- What a step of a walk leads to. -/
structure Stride (π σ τ κ ω ε α : Type) where
  walk : Walk π σ τ κ
  /-- What the action of the step emitted. -/
  emits : List ω
  result : Except (Failure σ τ ε) α

variable {π σ τ κ ω ε φ α β : Type}

/-- The same step with another value. -/
def Stride.map (f : α → β) (s : Stride π σ τ κ ω ε α) : Stride π σ τ κ ω ε β :=
  ⟨s.walk, s.emits, s.result.map f⟩

namespace Walk

/-- The walk with lines added to its journal. -/
def note (w : Walk π σ τ κ) (entries : List (Entry π σ τ)) : Walk π σ τ κ :=
  { w with journal := w.journal ++ entries }

/-- The walk, recording from here on; one that records already is left as it is. -/
def recording (w : Walk π σ τ κ) : Walk π σ τ κ :=
  { w with history := some (w.history.getD .empty) }

/-- The walk after an action, if there is one. -/
def invoke (w : Walk π σ τ κ) (i : Invocation σ τ) (capturing : Bool) :
    Option (Action κ ω ε α) → Stride π σ τ κ ω ε (Option α)
  | none => ⟨w, [], .ok none⟩
  | some action =>
    let o := action capturing w.context
    let after := { w.note [.invoked i] with context := o.context }
    match o.result with
    | .ok a => ⟨after, o.emits, .ok (some a)⟩
    | .error e => ⟨after, o.emits, .error (.raised e)⟩

/-- The walk after a transition. -/
def move (w : Walk π σ τ κ) (target : σ) (token : τ) : Walk π σ τ κ :=
  { w.note [.event (.moved w.state target token)] with
    state := target
    position := w.position + 1
    history := w.history.map (·.record ⟨w.state, target, w.position⟩) }

end Walk

namespace Machine

/-- A walk that has not started. -/
def walk (m : Machine π σ τ κ ω ε φ) (context : κ) : Walk π σ τ κ :=
  ⟨m.initial, 0, none, context, []⟩

/-- Enter the first state and do what the machine does at the start. -/
def start (m : Machine π σ τ κ ω ε φ) (capturing : Bool) (w : Walk π σ τ κ) :
    Stride π σ τ κ ω ε Unit :=
  let entered := { w.note [.event (.started m.initial)] with state := m.initial }
  (entered.invoke .start capturing m.onStart).map fun _ => ()

/-- Follow the first rule of the state that is for the token: move to its target, then do what it
says. Without such a rule the walk stays where it is. -/
def advance [DecidableEq σ] [BEq τ] [Pattern π τ] (m : Machine π σ τ κ ω ε φ) (capturing : Bool)
    (token : τ) (w : Walk π σ τ κ) : Stride π σ τ κ ω ε Unit :=
  let scan := m.table.scan w.state token
  let asked := w.note (scan.tested.map (.tested · token))
  match scan.found with
  | none =>
    let report : UnexpectedToken σ τ := ⟨w.state, token⟩
    ⟨asked.note [.event (.stuck report w.position)], [], .error (.unexpected report)⟩
  | some rule =>
    let action := rule.action.map fun react => react token w.state rule.target
    ((asked.move rule.target token).invoke (.reaction token w.state rule.target) capturing
      action).map fun _ => ()

/-- Do what the machine does at the end. -/
def finish (m : Machine π σ τ κ ω ε φ) (capturing : Bool) (w : Walk π σ τ κ) :
    Stride π σ τ κ ω ε (Option φ) :=
  (w.note [.event (.finished w.state w.position)]).invoke .finish capturing m.onFinish

end Machine

end Transducer
