import Transducer.Proofs.Steps

/-!
# Recording

A walk that records takes the same steps as one that does not.

* `Walk.unrecorded`, `Stride.unrecorded`: a walk and a step without what has been recorded.
* `Machine.stride_unrecorded`, `Machine.strides_unrecorded`: **recording makes no difference to the
  steps of a walk.**
* `Machine.isSome_history_after`: a walk goes on to record, or not to.
-/

namespace Transducer

variable {π σ τ κ ω ε φ α : Type}

namespace Walk

/-- The walk without what it has recorded. -/
def unrecorded (w : Walk π σ τ κ) : Walk π σ τ κ := { w with history := none }

variable (w : Walk π σ τ κ)

@[simp] theorem unrecorded_recording : w.recording.unrecorded = w.unrecorded := rfl

@[simp] theorem state_unrecorded : w.unrecorded.state = w.state := rfl

@[simp] theorem context_unrecorded : w.unrecorded.context = w.context := rfl

end Walk

/-- The step of a walk without what it has recorded. -/
def Stride.unrecorded (s : Stride π σ τ κ ω ε α) : Stride π σ τ κ ω ε α :=
  { s with walk := s.walk.unrecorded }

@[simp] theorem Walk.history_invoke (w : Walk π σ τ κ) (i : Invocation σ τ) (capturing : Bool)
    (action : Option (Action κ ω ε α)) :
    (w.invoke i capturing action).walk.history = w.history := by
  cases action with
  | none => rfl
  | some a =>
    simp only [Walk.invoke]
    cases (a capturing w.context).result <;> rfl

theorem Walk.invoke_unrecorded (w : Walk π σ τ κ) (i : Invocation σ τ) (capturing : Bool)
    (action : Option (Action κ ω ε α)) :
    w.unrecorded.invoke i capturing action = (w.invoke i capturing action).unrecorded := by
  cases action with
  | none => rfl
  | some a =>
    simp only [Walk.invoke, Walk.context_unrecorded]
    cases (a capturing w.context).result <;> rfl

theorem Walk.unrecorded_after (w : Walk π σ τ κ) (ss : List (Stride π σ τ κ ω ε α)) :
    (w.after ss).unrecorded = w.unrecorded.after (ss.map Stride.unrecorded) := by
  induction ss generalizing w with
  | nil => rfl
  | cons s rest ih => exact ih s.walk

/-- The execution without what has been recorded. -/
def Execution.unrecorded (e : Execution π σ τ κ ε φ) : Execution π σ τ κ ε φ :=
  { e with walk := e.walk.unrecorded }

variable [DecidableEq σ] [BEq τ] [Pattern π τ]

namespace Machine

variable (m : Machine π σ τ κ ω ε φ) (capturing : Bool)

theorem stride_unrecorded (q : Cue τ) (w : Walk π σ τ κ) :
    m.stride capturing q w.unrecorded = (m.stride capturing q w).unrecorded := by
  cases q with
  | start =>
    simp only [stride, start]
    exact congrArg (Stride.map fun _ => none) (congrArg (Stride.map fun _ => ())
      (Walk.invoke_unrecorded { w.note [.event (.started m.initial)] with state := m.initial } ..))
  | token t =>
    simp only [stride, advance, Walk.state_unrecorded]
    cases (m.table.scan w.state t).found with
    | none => rfl
    | some rule =>
      exact congrArg (Stride.map fun _ => none) (congrArg (Stride.map fun _ => ())
        (Walk.invoke_unrecorded ((w.note _).move rule.target t) ..))
  | finish => exact Walk.invoke_unrecorded (w.note _) ..

/-- Recording makes no difference to the steps of a walk. -/
theorem strides_unrecorded (cues : List (Cue τ)) (w : Walk π σ τ κ) :
    m.strides capturing cues w.unrecorded =
      (m.strides capturing cues w).map Stride.unrecorded := by
  induction cues generalizing w with
  | nil => rfl
  | cons q rest ih =>
    have hu := m.stride_unrecorded capturing q w
    cases hs : (m.stride capturing q w).result with
    | ok v =>
      rw [strides_cons_of_ok (by rw [hu]; exact hs), strides_cons_of_ok hs, hu, List.map_cons, ← ih]
      rfl
    | error e =>
      rw [strides_cons_of_error (by rw [hu]; exact hs), strides_cons_of_error hs, hu]
      rfl

theorem strides_recording (cues : List (Cue τ)) (w : Walk π σ τ κ) :
    (m.strides capturing cues w.recording).map Stride.unrecorded =
      (m.strides capturing cues w).map Stride.unrecorded := by
  rw [← strides_unrecorded, ← strides_unrecorded, Walk.unrecorded_recording]

/-- Recording makes no difference to an execution. -/
theorem drive_recording (tokens : List τ) (w : Walk π σ τ κ) :
    (m.drive tokens w.recording).unrecorded = (m.drive tokens w).unrecorded := by
  have hss := m.strides_recording false (Cue.ofTokens tokens) w
  obtain ⟨hw, ha, hr⟩ := m.drive_comesOf tokens w
  obtain ⟨hw', ha', hr'⟩ := m.drive_comesOf tokens w.recording
  have hwalk : (m.drive tokens w.recording).walk.unrecorded = (m.drive tokens w).walk.unrecorded := by
    rw [hw, hw', Walk.unrecorded_after, Walk.unrecorded_after, hss, Walk.unrecorded_recording]
  have hasked : (m.drive tokens w.recording).asked = (m.drive tokens w).asked := by
    have hl := congrArg List.length hss
    rw [List.length_map, List.length_map, ← ha, ← ha'] at hl
    exact Nat.succ.inj hl
  have hresult : (m.drive tokens w.recording).result = (m.drive tokens w).result := by
    have hl := congrArg (fun ss => ss.getLast?.map (·.result)) hss
    simp only [List.getLast?_map, Option.map_map] at hl
    exact Option.some.inj (hr'.symm.trans (hl.trans hr))
  rw [Execution.unrecorded, hwalk, hasked, hresult, Execution.unrecorded]

theorem isSome_history_stride (q : Cue τ) (w : Walk π σ τ κ) :
    (m.stride capturing q w).walk.history.isSome = w.history.isSome := by
  cases q with
  | start => exact congrArg Option.isSome (Walk.history_invoke ..)
  | token t =>
    simp only [stride, advance]
    cases (m.table.scan w.state t).found with
    | none => rfl
    | some rule => exact (congrArg Option.isSome (Walk.history_invoke ..)).trans Option.isSome_map
  | finish => exact congrArg Option.isSome (Walk.history_invoke ..)

theorem isSome_history_after (cues : List (Cue τ)) (w : Walk π σ τ κ) :
    (w.after (m.strides capturing cues w)).history.isSome = w.history.isSome := by
  induction cues generalizing w with
  | nil => rfl
  | cons q rest ih =>
    have hq := m.isSome_history_stride capturing q w
    cases hs : (m.stride capturing q w).result with
    | ok v => rw [strides_cons_of_ok hs, Walk.after_cons, ih, hq]
    | error e => rw [strides_cons_of_error hs, Walk.after_cons, Walk.after_nil, hq]

theorem isSome_history_drive (tokens : List τ) (w : Walk π σ τ κ) :
    (m.drive tokens w).walk.history.isSome = w.history.isSome := by
  rw [(m.drive_comesOf tokens w).1, isSome_history_after]

end Machine

end Transducer
