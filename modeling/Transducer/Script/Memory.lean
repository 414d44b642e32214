import Transducer.Failure
import Transducer.Json.Basic
import Transducer.Predicate

/-!
# The memory of a script

What scripted actions read and change, and the errors that they raise.

* `Memory`: a counter, a text and a log.
* `Fault`: an error that a scripted action raises.
* `Countable`: what a token adds to the counter.
-/

namespace Transducer.Script

/-- What scripted actions read and change. -/
structure Memory (τ : Type) where
  counter : Int64 := 0
  text : String := ""
  log : List Json := []
  /-- What each action so far asked of its token, the last action last. -/
  asked : List (List (Probe τ)) := []

namespace Memory

variable {τ : Type}

/-- The memory at the beginning of an action. -/
def enter (m : Memory τ) : Memory τ := { m with asked := m.asked ++ [[]] }

/-- The memory with more asked by the action that runs. -/
def ask (m : Memory τ) (probes : List (Probe τ)) : Memory τ :=
  { m with asked := m.asked.dropLast ++ [m.asked.getLast?.getD [] ++ probes] }

end Memory

/-- An error that a scripted action raises. -/
inductive Fault (σ τ : Type) where
  /-- The same report that a run makes of a token without rule. -/
  | unexpected (report : UnexpectedToken σ τ)
  /-- An error of the action's own. -/
  | raised (payload : Json)

/-- A type whose tokens can be counted. -/
class Countable (τ : Type) where
  /-- What a token adds to a counter. -/
  amount : τ → Int64

instance : Countable Int64 := ⟨id⟩

instance : Countable UInt8 := ⟨fun n => Int64.ofNat n.toNat⟩

instance : Countable Bool := ⟨fun _ => 0⟩

instance : Countable Char := ⟨fun _ => 0⟩

instance : Countable String := ⟨fun _ => 0⟩

instance : Countable Float := ⟨fun _ => 0⟩

instance {α : Type} : Countable (List α) := ⟨fun _ => 0⟩

end Transducer.Script
