import Transducer.Proofs.Streams

/-!
# Requests

What a run is asked for from outside, in any order, and what is seen of it.

* `Request`: the next item, or to record from here on.
* `Run.serve`: the run after some requests; `Run.Visits.serve`: it is one of those that polls and
  calls to record lead to.
* `Sight`, `Run.sights`: what is seen of a run at each poll, its history apart.
* `Run.next_unrecorded`: **a poll does the same whether or not the run records.**
* `Machine.recording_unseen`: **recording is not seen**, wherever and however often it is asked for.
-/

namespace Transducer

variable {π σ τ κ ω ε φ : Type}

/-- What a run is asked for. -/
inductive Request where
  /-- The next item, in at most so many steps. -/
  | poll (budget : Nat)
  /-- To record from here on. -/
  | record

/-- The request is a poll. -/
def Request.isPoll : Request → Bool
  | .poll _ => true
  | .record => false

/-- What is seen of a run at a poll, its history apart. -/
structure Sight (σ τ κ ω ε : Type) where
  answer : Poll σ τ ω ε
  /-- The context after the poll, and so on. -/
  context : κ
  state : σ
  isDone : Bool
  asked : Nat

namespace Run

/-- The run without what it has recorded. -/
def unrecorded (r : Run π σ τ κ ω ε φ) : Run π σ τ κ ω ε φ := { r with walk := r.walk.unrecorded }

@[simp] theorem unrecorded_recording (r : Run π σ τ κ ω ε φ) :
    r.recording.unrecorded = r.unrecorded := rfl

theorem recording_of_history {r : Run π σ τ κ ω ε φ} {h : History σ} (hr : r.history = some h) :
    r.recording = r := by
  obtain ⟨_, _, ⟨_, _, _, _, _⟩, _, _, _⟩ := r
  cases hr
  rfl

variable [DecidableEq σ] [BEq τ] [Pattern π τ]

/-- The run after a request. -/
def attend (r : Run π σ τ κ ω ε φ) : Request → Run π σ τ κ ω ε φ
  | .poll n => (r.next n).2
  | .record => r.recording

/-- The run after some requests. -/
def serve (r : Run π σ τ κ ω ε φ) (requests : List Request) : Run π σ τ κ ω ε φ :=
  requests.foldl attend r

/-- What is seen at each poll of some requests. -/
def sights (r : Run π σ τ κ ω ε φ) : List Request → List (Sight σ τ κ ω ε)
  | [] => []
  | .poll n :: rest =>
    let after := (r.next n).2
    ⟨(r.next n).1, after.context, after.state, after.isDone, after.asked⟩ :: after.sights rest
  | .record :: rest => r.recording.sights rest

variable {r : Run π σ τ κ ω ε φ} {q : Cue τ} {requests more : List Request}

theorem serve_cons (request : Request) : r.serve (request :: requests) =
    (r.attend request).serve requests := rfl

theorem machine_attend (r : Run π σ τ κ ω ε φ) (request : Request) :
    (r.attend request).machine = r.machine := by
  cases request with
  | poll n => exact r.machine_next n
  | record => rfl

theorem machine_serve (requests : List Request) : (r.serve requests).machine = r.machine := by
  induction requests generalizing r with
  | nil => rfl
  | cons request rest ih => exact ih.trans (r.machine_attend request)

theorem serve_append : r.serve (requests ++ more) = (r.serve requests).serve more :=
  List.foldl_append

/-! ## Runs that record and runs that do not -/

theorem stride_unrecorded : r.unrecorded.stride q = (r.stride q).unrecorded :=
  r.machine.stride_unrecorded true q r.walk

theorem heed_unrecorded : r.unrecorded.heed q = (r.heed q).unrecorded := by
  rw [heed, stride_unrecorded]
  rfl

/-- A poll does the same whether or not the run records. -/
theorem next_unrecorded (n : Nat) :
    r.unrecorded.next n = ((r.next n).1, (r.next n).2.unrecorded) := by
  have hn := polled_next n r
  generalize (r.next n).1 = p, (r.next n).2 = after at hn
  refine Polled.next_eq ?_
  induction hn with
  | give n hp => exact .give n hp
  | work hp => exact .work hp
  | ended n hp hd => exact .ended n hp hd
  | fill hp hq hs _ ih =>
    refine .fill hp hq (by rw [stride_unrecorded]; exact hs) ?_
    rw [heed_unrecorded, stride_unrecorded]
    exact ih
  | @fail r q e n hp hq hs =>
    have hu : (r.unrecorded.stride q).result = .error e := by rw [stride_unrecorded]; exact hs
    have hf := Polled.fail (r := r.unrecorded) n hp hq hu
    rwa [heed_unrecorded] at hf

theorem serve_unrecorded (r : Run π σ τ κ ω ε φ) (requests : List Request) :
    (r.serve requests).unrecorded = r.unrecorded.serve (requests.filter Request.isPoll) := by
  induction requests generalizing r with
  | nil => rfl
  | cons request rest ih =>
    cases request with
    | poll n =>
      rw [serve_cons, ih, List.filter_cons_of_pos rfl, serve_cons, attend, attend, next_unrecorded]
    | record =>
      rw [serve_cons, ih, List.filter_cons_of_neg Bool.false_ne_true, attend, unrecorded_recording]

theorem sights_unrecorded (r : Run π σ τ κ ω ε φ) (requests : List Request) :
    r.sights requests = r.unrecorded.sights (requests.filter Request.isPoll) := by
  induction requests generalizing r with
  | nil => rfl
  | cons request rest ih =>
    cases request with
    | poll n =>
      rw [sights, ih, List.filter_cons_of_pos rfl, sights]
      simp only [next_unrecorded]
      rfl
    | record => rw [sights, ih, List.filter_cons_of_neg Bool.false_ne_true, unrecorded_recording]

/-! ## Where requests lead -/

theorem Visits.attend {last : Run π σ τ κ ω ε φ} {xs : List (Except (Failure σ τ ε) ω)}
    (h : r.Visits xs last) (request : Request) : ∃ ys, r.Visits ys (last.attend request) := by
  cases request with
  | poll n => exact ⟨_, h.poll n⟩
  | record => exact ⟨xs, h.record⟩

theorem Visits.serve {last : Run π σ τ κ ω ε φ} {xs : List (Except (Failure σ τ ε) ω)}
    (h : r.Visits xs last) (requests : List Request) : ∃ ys, r.Visits ys (last.serve requests) := by
  induction requests generalizing xs last with
  | nil => exact ⟨xs, h⟩
  | cons request rest ih =>
    obtain ⟨ys, hy⟩ := h.attend request
    exact ih hy

end Run

namespace Machine

variable [DecidableEq σ] [BEq τ] [Pattern π τ]

/-- **Recording is not seen.** Whatever a run is asked for, wherever and however often it is asked to
record, each poll gives the same and leaves the same context, state and number of questions as if it
had never been asked to, and so do all its parts but the history. An execution that records comes to
the same as one that does not; one that fails has looked at no token behind the one it fails at, so
its tokens may be the first ones of any input. -/
theorem recording_unseen (m : Machine π σ τ κ ω ε φ) (c : κ) (input : Input τ) :
    (∀ requests : List Request,
      let polls := requests.filter Request.isPoll
      (m.run c input).sights requests = (m.run c input).sights polls ∧
        ((m.run c input).serve requests).unrecorded = (m.run c input).serve polls) ∧
    ∀ tokens,
      let x := m.executeWithHistory c tokens
      let y := m.execute c tokens
      x.walk.context = y.walk.context ∧ x.result = y.result ∧ x.asked = y.asked := by
  refine ⟨fun requests => ⟨?_, ?_⟩, fun tokens => ?_⟩
  · exact (m.run c input).sights_unrecorded requests
  · exact (m.run c input).serve_unrecorded requests
  · have h := m.drive_recording tokens (m.walk c)
    refine ⟨?_, ?_, ?_⟩
    · exact congrArg (·.walk.context) h
    · exact congrArg (·.result) h
    · exact congrArg (·.asked) h

end Machine

end Transducer
