import Transducer.Action
import Transducer.Table

/-!
# Machines

What is the same for all runs: where they begin, what they do at their start and their end, and the
rules they follow.

* `Machine`: the definition. Its parameters are, in order, the types of patterns `π`, states `σ`,
  tokens `τ`, contexts `κ`, outputs `ω`, errors `ε` and final values `φ`.
-/

namespace Transducer

/-- What a rule does once it has been followed, from the token, the state before and the state
after. -/
abbrev Reaction (σ τ κ ω ε : Type) := τ → σ → σ → Action κ ω ε Unit

/-- A machine with outputs on its transitions. -/
structure Machine (π σ τ κ ω ε φ : Type) where
  /-- The state in which every run begins. -/
  initial : σ
  /-- What a run does before it asks for its first token. -/
  onStart : Option (Action κ ω ε Unit)
  /-- What a run does after its last token; its value is the value of the run. -/
  onFinish : Option (Action κ ω ε φ)
  /-- The rules. -/
  table : Table π σ τ (Reaction σ τ κ ω ε)

instance {π σ τ κ ω ε φ : Type} [Literal σ] [Literal τ] : Literal (Machine π σ τ κ ω ε φ) :=
  ⟨fun m => Text.record "StateMachine"
    [("initial", literal m.initial), ("on_start", literal m.onStart.isSome),
      ("on_finish", literal m.onFinish.isSome), ("table", literal m.table)]⟩

end Transducer
