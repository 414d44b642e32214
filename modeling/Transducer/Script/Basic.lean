import Transducer.Journal
import Transducer.Json.Codec
import Transducer.Json.Text
import Transducer.Machine
import Transducer.Script.Memory

/-!
# Scripted actions

Actions written as data: a list of instructions over a memory.

* `Term`, `Condition`: what an instruction speaks of, and what it depends on.
* `Instruction`: one change to the memory, one output, or a failure.
* `Script`: instructions in order, with branches; an answer ends the script.
* `Script.run`: the action that a script stands for.
-/

namespace Transducer

namespace Script

/-- What an instruction speaks of. -/
inductive Term where
  | token
  | source
  | target
  | counter
  | text
  | capturing
  | literal (value : Json)

/-- What a branch depends on. -/
inductive Condition (τ : Type) where
  /-- The transition comes back to its state. -/
  | loop
  | capturing
  | textEmpty
  | counterAbove (bound : Int64)
  /-- The predicate holds of the token. -/
  | token (p : Predicate τ)

/-- One instruction. -/
inductive Instruction (σ τ : Type) where
  | emit (x : Term)
  | add (amount : Int64)
  /-- Add what the token counts for. -/
  | addToken
  | log (x : Term)
  /-- Put a text behind the text; any other value by its JSON text. -/
  | push (x : Term)
  | clear
  | fail (x : Term)
  /-- Fail with the report of a token without rule. -/
  | failUnexpected (state : σ) (token : τ)

end Script

/-- Instructions in order. -/
inductive Script (σ τ : Type) where
  | done
  /-- The script ends here, with a value. -/
  | answer (x : Script.Term)
  | step (instruction : Script.Instruction σ τ) (rest : Script σ τ)
  /-- One of two scripts, and then the rest unless that script has given its answer. -/
  | branch (condition : Script.Condition τ) (yes no rest : Script σ τ)

namespace Script

open Json (Codec encode)

variable {σ τ : Type}

/-- A computation of a scripted action. -/
abbrev Effect (σ τ α : Type) := Action (Memory τ) Json (Fault σ τ) α

/-- The token of an invocation. -/
def token? : Invocation σ τ → Option τ
  | .reaction t _ _ => some t
  | _ => none

/-- The state before the token. -/
def source? : Invocation σ τ → Option σ
  | .reaction _ s _ => some s
  | _ => none

/-- The state after the token. -/
def target? : Invocation σ τ → Option σ
  | .reaction _ _ s => some s
  | _ => none

/-- A value that may be absent. -/
def encode? {α : Type} [Codec α] (o : Option α) : Json := (o.map encode).getD .null

/-- What a term stands for. At the start and at the end there is no token. -/
def Term.value [Codec σ] [Codec τ] (i : Invocation σ τ) : Term → Effect σ τ Json
  | .token => pure (encode? (token? i))
  | .source => pure (encode? (source? i))
  | .target => pure (encode? (target? i))
  | .counter => do return encode (← Action.context).counter
  | .text => do return encode (← Action.context).text
  | .capturing => do return encode (← Action.capturing)
  | .literal v => pure v.sorted

/-- Whether a condition holds. -/
def Condition.ask [DecidableEq σ] [BEq τ] [Ordered τ] [Kinded τ] (i : Invocation σ τ) :
    Condition τ → Effect σ τ Bool
  | .loop => match i with
    | .reaction _ s s' => pure (decide (s = s'))
    | _ => pure false
  | .capturing => Action.capturing
  | .textEmpty => do return (← Action.context).text.toList.isEmpty
  | .counterAbove n => do return decide (n.toInt < (← Action.context).counter.toInt)
  | .token p => match token? i with
    | none => pure false
    | some t => do
      Action.modify (·.ask (p.probes t))
      return p.holds t

/-- The text that a value adds to a text. -/
def pushed : Json → String
  | .str (some s) => s
  | j => String.ofList j.write

/-- What an instruction does. -/
def Instruction.run [Codec σ] [Codec τ] [Countable τ] (i : Invocation σ τ) :
    Instruction σ τ → Effect σ τ Unit
  | .emit x => do Action.emit (← x.value i)
  | .add n => Action.modify fun m => { m with counter := m.counter + n }
  | .addToken =>
    Action.modify fun m =>
      { m with counter := m.counter + ((token? i).map Countable.amount).getD 0 }
  | .log x => do
    let v ← x.value i
    Action.modify fun m => { m with log := m.log ++ [v] }
  | .push x => do
    let v ← x.value i
    Action.modify fun m => { m with text := m.text ++ pushed v }
  | .clear => Action.modify fun m => { m with text := "" }
  | .fail x => do Action.fail (.raised (← x.value i))
  | .failUnexpected s t => Action.fail (.unexpected ⟨s, t⟩)

section

variable [DecidableEq σ] [BEq τ] [Ordered τ] [Kinded τ] [Codec σ] [Codec τ] [Countable τ]

/-- What a script does; the answer that it gives, if it gives one. -/
def perform (i : Invocation σ τ) : Script σ τ → Effect σ τ (Option Json)
  | .done => pure none
  | .answer x => do return some (← x.value i)
  | .step s rest => do
    s.run i
    perform i rest
  | .branch c yes no rest => do
    let holds ← c.ask i
    let answer ← if holds then perform i yes else perform i no
    match answer with
    | some v => return some v
    | none => perform i rest

/-- The action of a script. -/
def run (s : Script σ τ) (i : Invocation σ τ) : Effect σ τ (Option Json) := do
  Action.modify Memory.enter
  s.perform i

/-- The script as what a machine does at its start. -/
def onStart (s : Script σ τ) : Effect σ τ Unit := do discard (s.run .start)

/-- The script as what a rule does. -/
def reaction (s : Script σ τ) : Reaction σ τ (Memory τ) Json (Fault σ τ) :=
  fun t a b => do discard (s.run (.reaction t a b))

/-- The script as what a machine does at its end; without an answer its value is null. -/
def onFinish (s : Script σ τ) : Effect σ τ Json := do return (← s.run .finish).getD .null

end

end Script

end Transducer
