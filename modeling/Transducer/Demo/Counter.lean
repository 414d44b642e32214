import Transducer.Execution
import Transducer.Run

/-!
# A counter

The ones at the start of the input are counted, up to the first zero; what comes behind it is read
and makes no difference.

* `counter`: the machine.
* `lines`: what the program prints.
-/

namespace Transducer.Demo.Counter

/-- The state before the first zero. -/
def counting : String := "start"

/-- The state behind it. -/
def closed : String := "end"

/-- An unexpected token in a state. -/
abbrev Unexpected := UnexpectedToken String UInt8

/-- What a transition does; the context is the number of ones. -/
abbrev Step := Reaction String UInt8 Nat Nat Unexpected

/-- Count a one. -/
def counts : Step := fun _ _ _ => Action.modify (· + 1)

/-- The rules, in order. -/
def rules : List (String × Rule Empty String UInt8 Step) :=
  [(counting, ⟨.exact 0, closed, none⟩), (counting, ⟨.exact 1, counting, some counts⟩),
   (closed, ⟨.any, closed, none⟩)]

/-- The machine. It begins at zero, and at its end emits the number and has it for its value. -/
def counter : Machine Empty String UInt8 Nat Nat Unexpected Nat where
  initial := counting
  onStart := some (Action.modify fun _ => 0)
  onFinish := some do
    let ones ← Action.context
    Action.emit ones
    return ones
  table := .ofList rules

/-- The outputs for a list of tokens, and the context they leave. -/
def outputs (context : Nat) (tokens : List UInt8) :
    List (Except (Failure String UInt8 Unexpected) Nat) × Nat :=
  let r := (counter.run context (.ofList tokens)).take (tokens.length + 3) (tokens.length + 3)
  (r.1, r.2.context)

/-! ## The program -/

/-- The result of an executed run, as an error of the machine's own type. -/
def result (e : Execution Empty String UInt8 Nat Unexpected Nat) : Except Unexpected (Option Nat) :=
  e.result.mapError (·.into id)

/-- An output as it is listed. -/
def listed : Except (Failure String UInt8 Unexpected) Nat → String
  | .ok n => "Emitted: " ++ literal n
  | .error e => "Error: " ++ (e.into id).message

/-- What the program prints: a run, an execution, and one that fails. -/
def lines : List String :=
  let input : List UInt8 := [1, 1, 1, 1, 0, 1, 0, 0]
  let ran := outputs 0 input
  let first := counter.execute ran.2 [1, 1, 0]
  let second := counter.execute first.walk.context [1, 2]
  let outcome := match result second with
    | .ok value => "Unexpected success: " ++ literal value
    | .error e => "execute([1, 2]) failed: " ++ e.message
  ["=== Counter Example ===", "", "Input: " ++ literal input] ++ ran.1.map listed ++
    ["execute([1, 1, 0]) = " ++ literal (result first), outcome, "", "=== Example Complete ==="]

end Transducer.Demo.Counter
