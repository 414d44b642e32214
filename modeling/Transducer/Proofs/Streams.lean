import Transducer.Proofs.Polls
import Transducer.Proofs.Recording

/-!
# Streams

What a run gives is what the steps of its walk give, one after the other, however it is polled.

* `Run.drains_start`: **a run over tokens that end drains to the items of its steps.**
* `Run.cues`: the cues that a run has followed so far.
* `Run.Follows`, `Run.Visits.follows`: **wherever polls and calls to record lead, the run stands
  behind the steps for its cues, and the items given and the outputs that wait are those of the
  steps.**
-/

namespace Transducer

variable {π σ τ κ ω ε φ α : Type}

variable [DecidableEq σ] [BEq τ] [Pattern π τ]

namespace Run

variable {r last : Run π σ τ κ ω ε φ} {q : Cue τ} {v : Option φ} {e : Failure σ τ ε}
  {xs : List (Except (Failure σ τ ε) ω)}

/-! ## Tokens that end -/

/-- The run at its end, after some steps, the input having been asked so many times. -/
def ended (r : Run π σ τ κ ω ε φ) (ss : List (Stride π σ τ κ ω ε (Option φ))) (asked : Nat) :
    Run π σ τ κ ω ε φ :=
  ⟨r.machine, r.input, r.walk.after ss, asked, [], .done⟩

theorem drains_cons (hp : r.pending = []) (hq : r.cue? = some q) (rest : List (Cue τ))
    (hrest : ∀ v, (r.stride q).result = .ok v →
      let r' := (r.heed q).withPending []
      let ss := r'.machine.strides true rest r'.walk
      r'.Drains (ss.flatMap Stride.items) (r'.ended ss (r'.asked + ss.length))) :
    let ss := r.machine.strides true (q :: rest) r.walk
    r.Drains (ss.flatMap Stride.items) (r.ended ss (r.asked + q.questions + (ss.length - 1))) := by
  intro ss
  cases hs : (r.stride q).result with
  | ok v =>
    have hss : ss = r.stride q :: r.machine.strides true rest (r.stride q).walk :=
      Machine.strides_cons_of_ok hs
    rw [hss, List.flatMap_cons, Stride.items_of_ok hs]
    exact (pollsLike_of_ok hp hq hs).drains ((hrest v hs).of_pending _)
  | error e =>
    -- nothing comes behind the failure: the poll that gives it leaves the run at its end
    have hss : ss = [r.stride q] := Machine.strides_cons_of_error hs
    have hlast : { r.heed q with phase := .done } =
        r.ended ss (r.asked + q.questions + (ss.length - 1)) := by
      rw [hss, ended, ← hp]
      rfl
    have ha := answers_of_error hp hq hs
    rw [hlast] at ha
    rw [hss, List.flatMap_singleton, Stride.items_of_error hs, ← hss]
    exact .item ha (.ended (answers_of_done rfl rfl))

theorem drains_tokens (hp : r.pending = []) (hr : r.phase = .input) (tokens : List τ)
    (h : r.input.Gives r.asked tokens) :
    let ss := r.machine.strides true (tokens.map .token ++ [.finish]) r.walk
    r.Drains (ss.flatMap Stride.items) (r.ended ss (r.asked + ss.length)) := by
  induction tokens generalizing r with
  | nil =>
    have hq : r.cue? = some .finish := by rw [cue?_of_input hr, Input.cue_of_none h]
    have hd := drains_cons hp hq [] fun _ _ => .ended (answers_of_done rfl rfl)
    rw [Machine.strides_singleton] at hd
    rw [List.map_nil, List.nil_append, Machine.strides_singleton]
    exact hd
  | cons t rest ih =>
    have hq : r.cue? = some (.token t) := by rw [cue?_of_input hr, Input.cue_of_some h.1]
    have hd := drains_cons hp hq (rest.map .token ++ [.finish]) fun _ _ =>
      ih (r := (r.heed (.token t)).withPending []) rfl rfl h.2
    rw [List.map_cons, List.cons_append]
    intro ss
    have hl : r.asked + ss.length = r.asked + 1 + (ss.length - 1) := by
      have : 0 < ss.length := Machine.length_strides_cons_pos
      omega
    rw [hl]
    exact hd

/-- **A run over tokens that end drains to the items of its steps.** -/
theorem drains_start (hp : r.pending = []) (hr : r.phase = .start) (tokens : List τ)
    (h : r.input.Gives r.asked tokens) :
    let ss := r.machine.strides true (Cue.ofTokens tokens) r.walk
    r.Drains (ss.flatMap Stride.items) (r.ended ss (r.asked + (ss.length - 1))) := by
  have hd := drains_cons hp (cue?_of_start hr) (tokens.map .token ++ [.finish]) fun _ _ =>
    drains_tokens (r := (r.heed .start).withPending []) rfl rfl tokens h
  exact hd

/-! ## Whatever the polls -/

/-- The cues that a run has followed. -/
def cues (r : Run π σ τ κ ω ε φ) : List (Cue τ) :=
  match r.phase with
  | .start => []
  | _ => r.input.cues r.asked

/-- The run of a machine stands behind the steps for its cues, and has given their items but for the
outputs that wait. -/
structure Follows (m : Machine π σ τ κ ω ε φ) (c : κ) (input : Input τ)
    (xs : List (Except (Failure σ τ ε) ω)) (r : Run π σ τ κ ω ε φ) : Prop where
  machine_eq : r.machine = m
  input_eq : r.input = input
  walk_eq : r.walk.unrecorded = (m.walk c).after (m.strides true r.cues (m.walk c))
  items_eq : xs ++ r.pending.map .ok = (m.strides true r.cues (m.walk c)).flatMap Stride.items
  /-- The input has not been asked before the start. -/
  asked_eq : r.phase = .start → r.asked = 0
  /-- Only a run that is done has failed. -/
  succeeds : r.phase ≠ .done → ∀ s ∈ m.strides true r.cues (m.walk c), s.Succeeds
  /-- Only a run that is done has met the end of its input. -/
  isSome : r.phase ≠ .done → ∀ i < r.asked, (input i).isSome

variable {m : Machine π σ τ κ ω ε φ} {c : κ} {input : Input τ}

theorem follows_run : Follows m c input [] (m.run c input) where
  machine_eq := rfl
  input_eq := rfl
  walk_eq := rfl
  items_eq := rfl
  asked_eq _ := rfl
  succeeds _ := nofun
  isSome _ := nofun

theorem Follows.cues_heed (h : Follows m c input xs r) (hq : r.cue? = some q) {p : Phase}
    (hp : p ≠ .start) : cues { r.heed q with phase := p } = r.cues ++ [q] := by
  have hc : cues { r.heed q with phase := p } = r.input.cues (r.asked + q.questions) := by
    cases p with
    | start => exact absurd rfl hp
    | input => rfl
    | done => rfl
  rw [hc]
  cases hr : r.phase with
  | start =>
    rw [cue?_of_start hr] at hq
    obtain rfl := Option.some.inj hq
    rw [h.asked_eq hr, cues, hr]
    rfl
  | input =>
    rw [cue?_of_input hr] at hq
    obtain rfl := Option.some.inj hq
    rw [Input.questions_cue, Input.cues_succ, cues, hr]
  | done => exact absurd hr (ne_done_of_cue? hq)

theorem Follows.strides_concat (h : Follows m c input xs r) (hq : r.cue? = some q) :
    m.strides true (r.cues ++ [q]) (m.walk c) =
      m.strides true r.cues (m.walk c) ++ [(r.stride q).unrecorded] := by
  have hr : r.phase ≠ .done := ne_done_of_cue? hq
  rw [Machine.strides_append (h.succeeds hr), Machine.strides_singleton, ← h.walk_eq,
    Machine.stride_unrecorded, stride, h.machine_eq]

theorem Follows.heed (h : Follows m c input xs r) (hp : r.pending = []) (hq : r.cue? = some q)
    {p : Phase} (hph : p ≠ .start) (ys : List (Except (Failure σ τ ε) ω)) (ws : List ω)
    (hi : ys ++ ws.map .ok = (r.stride q).items)
    (hd : p ≠ .done → (r.stride q).Succeeds ∧ q.phase ≠ .done) :
    Follows m c input (xs ++ ys) { r.heed q with phase := p, pending := ws } := by
  have hc : cues { r.heed q with phase := p, pending := ws } = r.cues ++ [q] := h.cues_heed hq hph
  have hr : r.phase ≠ .done := ne_done_of_cue? hq
  refine ⟨h.machine_eq, h.input_eq, ?_, ?_, fun hs => absurd hs hph, fun hn s hs => ?_,
    fun hn i hlt => ?_⟩
  · rw [hc, h.strides_concat hq, Walk.after_append]
    rfl
  · have he := h.items_eq
    rw [hp, List.map_nil, List.append_nil] at he
    rw [hc, h.strides_concat hq, List.flatMap_append, ← he, List.append_assoc, hi]
    simp [Stride.items, Stride.unrecorded]
  · rw [hc, h.strides_concat hq, List.mem_append, List.mem_singleton] at hs
    obtain hs | rfl := hs
    · exact h.succeeds hr s hs
    · exact (hd hn).1
  · cases hs : r.phase with
    | start =>
      rw [cue?_of_start hs] at hq
      obtain rfl := Option.some.inj hq
      exact absurd hlt (by simp [Run.heed, h.asked_eq hs, Cue.questions])
    | input =>
      rw [cue?_of_input hs] at hq
      obtain rfl := Option.some.inj hq
      have hlt' : i < r.asked + 1 := by simpa [Run.heed] using hlt
      obtain hi | rfl := Nat.lt_succ_iff_lt_or_eq.1 hlt'
      · exact h.isSome hr i hi
      -- had the last answer been the end of the input, the run would be done
      · rw [← h.input_eq]
        exact Input.isSome_of_phase_cue (hd hn).2
    | done => exact absurd hs hr

/-- **Whatever a run does, it stands behind the steps for its cues.** -/
theorem follows_invariant (m : Machine π σ τ κ ω ε φ) (c : κ) (input : Input τ) :
    Invariant (Follows m c input) where
  record h := ⟨h.machine_eq, h.input_eq, h.walk_eq, h.items_eq, h.asked_eq, h.succeeds, h.isSome⟩
  give {xs r w ws} h hp := by
    refine ⟨h.machine_eq, h.input_eq, h.walk_eq, ?_, h.asked_eq, h.succeeds, h.isSome⟩
    have hi := h.items_eq
    rw [hp, List.map_cons, List.append_cons] at hi
    exact hi
  fill {xs r q v} h hp hq hs := by
    have hf := h.heed hp hq q.phase_ne_start [] _ (Stride.items_of_ok hs).symm
      fun hd => ⟨⟨v, hs⟩, hd⟩
    rwa [List.append_nil] at hf
  fail {xs r q e} h hp hq hs := by
    have hf := h.heed hp hq (p := .done) nofun [.error e] [] (Stride.items_of_error hs).symm
      fun hd => absurd rfl hd
    have hr : { r.heed q with phase := .done, pending := [] } = { r.heed q with phase := .done } := by
      rw [← hp]
      rfl
    rwa [hr] at hf

theorem Visits.follows (h : (m.run c input).Visits xs r) : Follows m c input xs r :=
  (follows_invariant m c input).visits follows_run h

end Run

end Transducer
