import Transducer.Literal

/-!
# Failures of a run

Why a run stops before the end of its input.

* `UnexpectedToken`: no rule of the current state is for the token.
* `Failure`: an unexpected token, or an error raised by an action.
* `Failure.into`: the failure as an error of the actions' type.
-/

namespace Transducer

/-- No rule of the state is for the token. -/
structure UnexpectedToken (σ τ : Type) where
  state : σ
  token : τ

namespace UnexpectedToken

variable {σ τ : Type}

/-- Two reports are equal if they name equal states and equal tokens. -/
instance [BEq σ] [BEq τ] : BEq (UnexpectedToken σ τ) :=
  ⟨fun a b => a.state == b.state && a.token == b.token⟩

variable [Literal σ] [Literal τ]

/-- The message for a reader. -/
def message (e : UnexpectedToken σ τ) : String :=
  "Unexpected token " ++ literal e.token ++ " in state " ++ literal e.state

instance : Literal (UnexpectedToken σ τ) :=
  ⟨fun e => Text.record "UnexpectedToken" [("state", literal e.state), ("token", literal e.token)]⟩

end UnexpectedToken

/-- Why a run fails. -/
inductive Failure (σ τ ε : Type) where
  /-- The run itself found no rule. -/
  | unexpected (report : UnexpectedToken σ τ)
  /-- An action raised an error. -/
  | raised (error : ε)

namespace Failure

variable {σ τ ε : Type}

/-- The failure as an error of the actions' type: an error that an action raised is left as it is,
and a report of the run is turned into one. -/
def into (turn : UnexpectedToken σ τ → ε) : Failure σ τ ε → ε
  | .unexpected report => turn report
  | .raised error => error

end Failure

end Transducer
