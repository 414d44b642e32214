import Transducer.Input
import Transducer.Walk

/-!
# Running a machine

One output at a time. Nothing happens before the first poll, and each poll goes just as far as it
must: to the next output, to a failure, or to the end of the input. Outputs that came together wait
their turn.

* `Run`: where a run stands.
* `Run.step`: the start, one token, or the end.
* `Run.next`: one poll. It has a number of steps to go; on an input without end, a machine may
  follow its rules for ever and emit nothing.
* `Run.take`, `Run.collect`: many polls.
* `Run.next_succ_of_ne_working`: **more steps do not change what a poll gives.**
-/

namespace Transducer

/-- How far a run has come. -/
inductive Phase where
  | start
  | input
  | done
deriving DecidableEq

/-- Where a run stands. -/
structure Run (π σ τ κ ω ε φ : Type) where
  machine : Machine π σ τ κ ω ε φ
  input : Input τ
  walk : Walk π σ τ κ
  /-- How often the input was asked for a token. -/
  asked : Nat
  /-- The outputs that wait for their poll. -/
  pending : List ω
  phase : Phase

/-- What a poll gives. -/
inductive Poll (σ τ ω ε : Type) where
  /-- An output, or the failure that ends the run. -/
  | item (item : Except (Failure σ τ ε) ω)
  /-- There is nothing more. -/
  | ended
  /-- The steps were used up; the run can go on. -/
  | working

variable {π σ τ κ ω ε φ : Type}

/-- A run over an input, before its first poll. -/
def Machine.run (m : Machine π σ τ κ ω ε φ) (context : κ) (input : Input τ) :
    Run π σ τ κ ω ε φ :=
  ⟨m, input, m.walk context, 0, [], .start⟩

namespace Run

/-- The state of the machine. -/
def state (r : Run π σ τ κ ω ε φ) : σ := r.walk.state

/-- The context of the actions. -/
def context (r : Run π σ τ κ ω ε φ) : κ := r.walk.context

/-- The transitions taken since recording began, if it did. -/
def history (r : Run π σ τ κ ω ε φ) : Option (History σ) := r.walk.history

/-- The run is at the end of its input, or has failed; outputs may still wait. -/
def isDone (r : Run π σ τ κ ω ε φ) : Bool := decide (r.phase = .done)

/-- How many tokens the input has given. -/
def taken (r : Run π σ τ κ ω ε φ) : Nat := r.input.given r.asked

/-- The run, recording from here on. -/
def recording (r : Run π σ τ κ ω ε φ) : Run π σ τ κ ω ε φ := { r with walk := r.walk.recording }

/-- The run after a step of its walk, with what the step emitted. -/
def absorb {α : Type} (r : Run π σ τ κ ω ε φ) (s : Stride π σ τ κ ω ε α) :
    Except (Failure σ τ ε) (List ω) × Run π σ τ κ ω ε φ :=
  (s.result.map fun _ => s.emits, { r with walk := s.walk })

variable [DecidableEq σ] [BEq τ] [Pattern π τ]

/-- The start, one token, or the end, with what was emitted; `none` if the run is done. -/
def step (r : Run π σ τ κ ω ε φ) :
    Option (Except (Failure σ τ ε) (List ω)) × Run π σ τ κ ω ε φ :=
  match r.phase with
  | .start =>
    let s := { r with phase := .input }.absorb (r.machine.start true r.walk)
    (some s.1, s.2)
  | .input =>
    match r.input r.asked with
    | some t =>
      let s := { r with asked := r.asked + 1 }.absorb (r.machine.advance true t r.walk)
      (some s.1, s.2)
    | none =>
      let s := { r with asked := r.asked + 1, phase := .done }.absorb
        (r.machine.finish true r.walk)
      (some s.1, s.2)
  | .done => (none, r)

/-- One poll, of at most so many steps. -/
def next (budget : Nat) (r : Run π σ τ κ ω ε φ) : Poll σ τ ω ε × Run π σ τ κ ω ε φ :=
  match r.pending with
  | w :: rest => (.item (.ok w), { r with pending := rest })
  | [] =>
    match budget with
    | 0 => (.working, r)
    | budget + 1 =>
      match r.step with
      | (none, after) => (.ended, after)
      | (some (.ok emits), after) => next budget { after with pending := emits }
      | (some (.error e), after) => (.item (.error e), { after with phase := .done })

/-- The items of at most so many polls, up to the end. -/
def take (budget : Nat) :
    Nat → Run π σ τ κ ω ε φ → List (Except (Failure σ τ ε) ω) × Run π σ τ κ ω ε φ
  | 0, r => ([], r)
  | n + 1, r =>
    match r.next budget with
    | (.item x, after) =>
      let more := take budget n after
      (x :: more.1, more.2)
    | (_, after) => ([], after)

/-- The outputs of at most so many polls, up to the end, or the first failure. -/
def collect (budget : Nat) :
    Nat → Run π σ τ κ ω ε φ → Except (Failure σ τ ε) (List ω) × Run π σ τ κ ω ε φ
  | 0, r => (.ok [], r)
  | n + 1, r =>
    match r.next budget with
    | (.item (.ok w), after) =>
      let more := collect budget n after
      (more.1.map (w :: ·), more.2)
    | (.item (.error e), after) => (.error e, after)
    | (_, after) => (.ok [], after)

/-! ## One poll -/

section

variable {r after : Run π σ τ κ ω ε φ}

theorem next_of_pending {w : ω} {rest : List ω} (h : r.pending = w :: rest) (n : Nat) :
    r.next n = (.item (.ok w), { r with pending := rest }) := by
  rw [next.eq_def]
  simp only [h]

theorem next_zero (h : r.pending = []) : r.next 0 = (.working, r) := by
  rw [next.eq_def]
  simp only [h]

/-- After a step that emitted something, the poll gives the first of it; after one that did not,
the poll goes on. -/
theorem next_of_emits {emits : List ω} (h : r.pending = []) (hs : r.step = (some (.ok emits), after))
    (n : Nat) : r.next (n + 1) = next n { after with pending := emits } := by
  rw [next.eq_def]
  simp only [h, hs]

theorem next_of_failure {e : Failure σ τ ε} (h : r.pending = [])
    (hs : r.step = (some (.error e), after)) (n : Nat) :
    r.next (n + 1) = (.item (.error e), { after with phase := .done }) := by
  rw [next.eq_def]
  simp only [h, hs]

theorem next_of_done (h : r.pending = []) (hd : r.phase = .done) (n : Nat) :
    r.next (n + 1) = (.ended, r) := by
  have hs : r.step = (none, r) := by rw [step, hd]
  rw [next.eq_def]
  simp only [h, hs]

/-- More steps do not change what a poll gives. -/
theorem next_succ_of_ne_working {n : Nat} (h : (r.next n).1 ≠ .working) :
    r.next (n + 1) = r.next n := by
  induction n generalizing r with
  | zero =>
    cases hp : r.pending with
    | nil => exact absurd (congrArg Prod.fst (next_zero hp)) h
    | cons w rest => rw [next_of_pending hp, next_of_pending hp]
  | succ n ih =>
    cases hp : r.pending with
    | cons w rest => rw [next_of_pending hp, next_of_pending hp]
    | nil =>
      match hs : r.step with
      | (some (.ok emits), after) =>
        rw [next_of_emits hp hs] at h ⊢
        rw [next_of_emits hp hs, ih h]
      | (some (.error e), after) => rw [next_of_failure hp hs, next_of_failure hp hs]
      | (none, after) =>
        rw [next.eq_def, next.eq_def]
        simp only [hp, hs]

end

end Run

end Transducer
