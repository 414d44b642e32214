import Transducer.Walk

/-!
# Executing a machine

All tokens at once, for the value of the run; what the actions emit is dropped.

* `Execution`: what is left of an executed run.
* `Machine.execute`, `Machine.executeWithHistory`: the run over a list of tokens, without and with
  recording.
-/

namespace Transducer

/-- What is left of an executed run. -/
structure Execution (π σ τ κ ε φ : Type) where
  walk : Walk π σ τ κ
  /-- How often the input was asked for a token. -/
  asked : Nat
  /-- The value of the run, if the machine does something at the end. -/
  result : Except (Failure σ τ ε) (Option φ)

variable {π σ τ κ ω ε φ : Type} [DecidableEq σ] [BEq τ] [Pattern π τ]

/-- The transitions taken since recording began. -/
def Execution.history (e : Execution π σ τ κ ε φ) : History σ := e.walk.history.getD .empty

namespace Machine

/-- The tokens one after the other, then the end; a failure ends the run at once. -/
def consume (m : Machine π σ τ κ ω ε φ) :
    List τ → Nat → Walk π σ τ κ → Execution π σ τ κ ε φ
  | [], asked, w =>
    let s := m.finish false w
    ⟨s.walk, asked + 1, s.result⟩
  | t :: rest, asked, w =>
    let s := m.advance false t w
    match s.result with
    | .ok _ => m.consume rest (asked + 1) s.walk
    | .error e => ⟨s.walk, asked + 1, .error e⟩

/-- The whole run of a walk that has not started. -/
def drive (m : Machine π σ τ κ ω ε φ) (tokens : List τ) (w : Walk π σ τ κ) :
    Execution π σ τ κ ε φ :=
  let s := m.start false w
  match s.result with
  | .ok _ => m.consume tokens 0 s.walk
  | .error e => ⟨s.walk, 0, .error e⟩

/-- The run over a list of tokens. -/
def execute (m : Machine π σ τ κ ω ε φ) (context : κ) (tokens : List τ) :
    Execution π σ τ κ ε φ :=
  m.drive tokens (m.walk context)

/-- The run over a list of tokens, recording all its transitions. -/
def executeWithHistory (m : Machine π σ τ κ ω ε φ) (context : κ) (tokens : List τ) :
    Execution π σ τ κ ε φ :=
  m.drive tokens (m.walk context).recording

end Machine

end Transducer
