import Transducer.Failure
import Transducer.Json.Basic
import Transducer.Label

/-!
# Journals

What a run did, in order: the labels it put to tokens, the events it told of, and the actions it
invoked.

* `Event`: what a run tells of its course.
* `Invocation`: an action that was invoked, with what it was told.
* `Entry`: one line of a journal.
* `Event.notice`: an event as a reader sees it.
-/

namespace Transducer

/-- What a run tells of its course. -/
inductive Event (σ τ : Type) where
  /-- The run has entered its first state. -/
  | started (state : σ)
  /-- The run has moved, and has not yet done what the rule says. -/
  | moved (source target : σ) (token : τ)
  /-- No rule was for the token that came after so many others. -/
  | stuck (report : UnexpectedToken σ τ) (position : Nat)
  /-- The input is at its end, after so many tokens. -/
  | finished (state : σ) (consumed : Nat)

/-- An action that was invoked, with what it was told. -/
inductive Invocation (σ τ : Type) where
  | start
  | reaction (token : τ) (source target : σ)
  | finish

/-- One line of a journal. -/
inductive Entry (π σ τ : Type) where
  /-- A label was put to a token. -/
  | tested (label : Label π τ) (token : τ)
  | event (event : Event σ τ)
  | invoked (invocation : Invocation σ τ)

namespace Entry

variable {π σ τ : Type}

/-- The event that the line tells of. -/
def event? : Entry π σ τ → Option (Event σ τ)
  | .event e => some e
  | _ => none

/-- The invocation that the line tells of. -/
def invocation? : Entry π σ τ → Option (Invocation σ τ)
  | .invoked i => some i
  | _ => none

/-- The test that the line tells of. -/
def test? : Entry π σ τ → Option (Label π τ × τ)
  | .tested l t => some (l, t)
  | _ => none

end Entry

/-- How much a notice matters. -/
inductive Level where
  | debug
  | trace

/-- An event as a reader sees it. -/
structure Notice where
  level : Level
  message : String
  fields : List (String × Json)

namespace Event

variable {σ τ : Type} [Literal σ] [Literal τ]

/-- A value as it stands in a notice. -/
def shown {α : Type} [Literal α] (a : α) : Json := .ofString (literal a)

/-- An event as a reader sees it; a transition matters less than the others. -/
def notice : Event σ τ → Notice
  | .started s => ⟨.debug, "mealy run started", [("state", shown s)]⟩
  | .moved s s' t => ⟨.trace, "transition", [("from", shown s), ("to", shown s'), ("token", shown t)]⟩
  | .stuck r n =>
    ⟨.debug, "no transition matches token",
      [("state", shown r.state), ("token", shown r.token), ("position", .int n)]⟩
  | .finished s n => ⟨.debug, "mealy run finished", [("state", shown s), ("consumed", .int n)]⟩

end Event

end Transducer
