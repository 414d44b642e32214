/-!
# Actions

What a machine does on the way: an action updates the context of a run, emits outputs, and succeeds
with a value or fails with an error. It is told whether its outputs are captured.

* `Outcome`: the context an action leaves, what it emitted, and its result.
* `Action`: a function of the capturing flag and the context.
* `Action.emit`, `Action.modify`, `Action.fail`: the steps an action is made of.
-/

namespace Transducer

/-- What an action leaves behind. -/
structure Outcome (κ ω ε α : Type) where
  /-- The context after the action, also after one that failed. -/
  context : κ
  /-- The outputs, in the order in which they were emitted. -/
  emits : List ω
  result : Except ε α

/-- A computation over a context that is told whether its outputs are captured. -/
def Action (κ ω ε α : Type) := Bool → κ → Outcome κ ω ε α

namespace Action

variable {κ ω ε α β : Type}

/-- The action that does nothing but succeed. -/
protected def pure (a : α) : Action κ ω ε α := fun _ c => ⟨c, [], .ok a⟩

/-- One action after the other; the second one is not run if the first one fails. -/
protected def bind (x : Action κ ω ε α) (f : α → Action κ ω ε β) : Action κ ω ε β :=
  fun capturing c =>
    let o := x capturing c
    match o.result with
    | .error e => ⟨o.context, o.emits, .error e⟩
    | .ok a =>
      let p := f a capturing o.context
      ⟨p.context, o.emits ++ p.emits, p.result⟩

instance : Monad (Action κ ω ε) where
  pure := Action.pure
  bind := Action.bind

/-- Emit an output; it goes nowhere unless outputs are captured. -/
def emit (output : ω) : Action κ ω ε Unit :=
  fun capturing c => ⟨c, if capturing then [output] else [], .ok ()⟩

/-- Whether outputs are captured. -/
def capturing : Action κ ω ε Bool := fun capturing c => ⟨c, [], .ok capturing⟩

/-- The context. -/
def context : Action κ ω ε κ := fun _ c => ⟨c, [], .ok c⟩

/-- Update the context. -/
def modify (f : κ → κ) : Action κ ω ε Unit := fun _ c => ⟨f c, [], .ok ()⟩

/-- Update the context, with a value besides. -/
def modifyGet (f : κ → α × κ) : Action κ ω ε α := fun _ c => ⟨(f c).2, [], .ok (f c).1⟩

/-- Fail with an error; what was done to the context before stays. -/
def fail (error : ε) : Action κ ω ε α := fun _ c => ⟨c, [], .error error⟩

end Action

end Transducer
