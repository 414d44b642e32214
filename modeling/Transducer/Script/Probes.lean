import Transducer.Journal
import Transducer.Range

/-!
# What a run asked

The names that a run asked for, in order: those of the labels that it put to tokens, and those of the
conditions in the actions that it invoked.

* `Entry.probes`: the names asked along some lines of a journal.
-/

namespace Transducer

variable {σ τ : Type} [BEq τ] [Ordered τ] [Kinded τ]

/-- What was asked along some lines of a journal; for each action that was invoked, what it asked is
given. -/
def Entry.probes : List (Entry (Numbered τ) σ τ) → List (List (Probe τ)) → List (Probe τ)
  | [], actions => actions.flatten
  | .tested l t :: rest, actions => l.probes t ++ probes rest actions
  | .invoked _ :: rest, asked :: actions => asked ++ probes rest actions
  | _ :: rest, actions => probes rest actions

end Transducer
