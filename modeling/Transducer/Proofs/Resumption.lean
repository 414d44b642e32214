import Mathlib.Data.List.Forall2
import Transducer.Demo.Lexer
import Transducer.Proofs.Histories

/-!
# Going on in the middle

A run over two lists of tokens is the run over the first one, without an end, and behind it a run of
the same machine that begins where the first run has come to.

* `Machine.unfinished`, `Machine.resuming`: the machine that does nothing at its end, and the one
  that begins in a given state and does nothing at its start.
* `History.later`, `History.append`: a history further on in the input, and one behind another.
* `Walk.Resumes`, `Stride.Resumes`: a walk goes on from another one as a third one goes;
  `Machine.strides_resumes`: **it takes the same steps**, whatever the tokens and the failure.
* `Machine.Splits`, `Machine.exists_splits`: the steps over both lists, from those over each.
* `Machine.runs_split`: **runs and executions can be split at any point.**
-/

namespace Transducer

variable {π σ τ κ ω ε φ α β : Type}

/-! ## Histories one behind the other -/

/-- The transition that many tokens further on. -/
def Transition.later (n : Nat) (t : Transition σ) : Transition σ :=
  { t with position := n + t.position }

namespace History

/-- The history that many tokens further on. -/
def later (n : Nat) (h : History σ) : History σ := ⟨h.transitions.map (·.later n)⟩

/-- One history behind the other. -/
def append (h₀ h : History σ) : History σ := ⟨h₀.transitions ++ h.transitions⟩

variable (h₀ h : History σ) (n : Nat) (t : Transition σ)

@[simp] theorem append_later_empty : h₀.append (History.empty.later n) = h₀ := by
  simp [append, later, empty]

@[simp] theorem append_later_record :
    h₀.append ((h.record t).later n) = (h₀.append (h.later n)).record (t.later n) := by
  simp [append, later, record]

end History

/-! ## Walks that go on from another one -/

/-- From the first walk the third one has gone on as the second one has gone. -/
structure Walk.Resumes (w₀ w w' : Walk π σ τ κ) : Prop where
  state_eq : w'.state = w.state
  context_eq : w'.context = w.context
  position_eq : w'.position = w₀.position + w.position
  history_eq : ∀ h₀, w₀.history = some h₀ →
    ∃ h, w.history = some h ∧ w'.history = some (h₀.append (h.later w₀.position))

/-- The steps are the same, and the third walk goes on to go as the second one. -/
structure Stride.Resumes (w₀ : Walk π σ τ κ) (s s' : Stride π σ τ κ ω ε α) : Prop where
  walk : w₀.Resumes s.walk s'.walk
  emits_eq : s'.emits = s.emits
  result_eq : s'.result = s.result

namespace Walk.Resumes

variable {w₀ w w' : Walk π σ τ κ} (h : w₀.Resumes w w')

include h

theorem note (entries entries' : List (Entry π σ τ)) :
    w₀.Resumes (w.note entries) (w'.note entries') :=
  ⟨h.state_eq, h.context_eq, h.position_eq, h.history_eq⟩

theorem move (target : σ) (t : τ) : w₀.Resumes (w.move target t) (w'.move target t) := by
  refine ⟨rfl, h.context_eq, ?_, ?_⟩
  · simp only [Walk.move, h.position_eq, Nat.add_assoc]
  · intro h₀ hw₀
    obtain ⟨hs, hw, hw'⟩ := h.history_eq h₀ hw₀
    refine ⟨hs.record ⟨w.state, target, w.position⟩, ?_, ?_⟩
    · simp [Walk.move, hw]
    · simp [Walk.move, hw', h.state_eq, h.position_eq, Transition.later]

theorem invoke (i : Invocation σ τ) (capturing : Bool) (action : Option (Action κ ω ε α)) :
    Stride.Resumes w₀ (w.invoke i capturing action) (w'.invoke i capturing action) := by
  cases action with
  | none => exact ⟨h, rfl, rfl⟩
  | some a =>
    have hw : ∀ c, w₀.Resumes { w.note [.invoked i] with context := c }
        { w'.note [.invoked i] with context := c } :=
      fun c => ⟨h.state_eq, rfl, h.position_eq, h.history_eq⟩
    simp only [Walk.invoke, h.context_eq]
    cases (a capturing w.context).result with
    | ok v => exact ⟨hw _, rfl, rfl⟩
    | error e => exact ⟨hw _, rfl, rfl⟩

end Walk.Resumes

theorem Stride.Resumes.map {w₀ : Walk π σ τ κ} {s s' : Stride π σ τ κ ω ε α} (h : s.Resumes w₀ s')
    (f : α → β) : (s.map f).Resumes w₀ (s'.map f) :=
  ⟨h.walk, h.emits_eq, congrArg (Except.map f) h.result_eq⟩

namespace Stride

variable {w₀ w w' : Walk π σ τ κ} {ss ss' : List (Stride π σ τ κ ω ε α)}

theorem items_of_resumes (h : List.Forall₂ (Resumes w₀) ss ss') :
    ss'.flatMap items = ss.flatMap items := by
  induction h with
  | nil => rfl
  | cons hs _ ih =>
    rw [List.flatMap_cons, List.flatMap_cons, ih, items, items, hs.result_eq, hs.emits_eq]

theorem result_of_resumes (h : List.Forall₂ (Resumes w₀) ss ss') :
    ss'.getLast?.map (·.result) = ss.getLast?.map (·.result) := by
  induction h with
  | nil => rfl
  | @cons s s' rest rest' hs hrest ih =>
    cases hrest with
    | nil => simp [hs.result_eq]
    | cons => simpa using ih

end Stride

theorem Walk.Resumes.after {w₀ w w' : Walk π σ τ κ} {ss ss' : List (Stride π σ τ κ ω ε α)}
    (hw : w₀.Resumes w w') (h : List.Forall₂ (Stride.Resumes w₀) ss ss') :
    w₀.Resumes (w.after ss) (w'.after ss') := by
  induction h generalizing w w' with
  | nil => exact hw
  | cons hs _ ih => exact ih hs.walk

/-! ## The steps from there on -/

section

variable [DecidableEq σ] [BEq τ] [Pattern π τ]

namespace Machine

/-- The machine that does nothing at its end. -/
def unfinished (m : Machine π σ τ κ ω ε φ) : Machine π σ τ κ ω ε φ := { m with onFinish := none }

/-- The machine that begins in the given state and does nothing at its start. -/
def resuming (m : Machine π σ τ κ ω ε φ) (s : σ) : Machine π σ τ κ ω ε φ :=
  { m with initial := s, onStart := none }

/-- What the start and some tokens lead to. -/
def through (m : Machine π σ τ κ ω ε φ) (capturing : Bool) (c : κ) (tokens : List τ) :
    Course σ τ κ ω ε :=
  m.plan.course capturing (.start :: tokens.map .token) m.initial c

variable {m m' : Machine π σ τ κ ω ε φ} {capturing : Bool} {w₀ w w' : Walk π σ τ κ}

theorem strides_congr {cues : List (Cue τ)}
    (h : ∀ q ∈ cues, ∀ w, m'.stride capturing q w = m.stride capturing q w) (w : Walk π σ τ κ) :
    m'.strides capturing cues w = m.strides capturing cues w := by
  induction cues generalizing w with
  | nil => rfl
  | cons q rest ih =>
    rw [List.forall_mem_cons] at h
    simp only [strides, h.1, ih h.2]

theorem strides_ne_nil {cues : List (Cue τ)} (h : cues ≠ []) :
    m.strides capturing cues w ≠ [] := by
  cases cues with
  | nil => exact absurd rfl h
  | cons q rest => exact List.ne_nil_of_length_pos length_strides_cons_pos

theorem advance_resumes (h : w₀.Resumes w w') (t : τ) :
    (m.advance capturing t w).Resumes w₀ (m.advance capturing t w') := by
  simp only [advance, h.state_eq]
  cases (m.table.scan w.state t).found with
  | none => exact ⟨(h.note _ _).note _ _, rfl, rfl⟩
  | some rule => exact (((h.note _ _).move rule.target t).invoke _ _ _).map _

/-- Behind the start, a step depends on nothing but the state and the context. -/
theorem stride_resumes (h : w₀.Resumes w w') {q : Cue τ} (hq : q ≠ .start) :
    (m.stride capturing q w).Resumes w₀ (m.stride capturing q w') := by
  cases q with
  | start => exact absurd rfl hq
  | token t => exact (advance_resumes h t).map _
  | finish => exact (h.note _ _).invoke _ _ _

/-- **Walks at the same state and context take the same steps**, up to the first that fails. -/
theorem strides_resumes (h : w₀.Resumes w w') {cues : List (Cue τ)} (hq : .start ∉ cues) :
    List.Forall₂ (Stride.Resumes w₀) (m.strides capturing cues w)
      (m.strides capturing cues w') := by
  induction cues generalizing w w' with
  | nil => exact .nil
  | cons q rest ih =>
    rw [List.mem_cons, not_or] at hq
    have hs : (m.stride capturing q w).Resumes w₀ (m.stride capturing q w') :=
      stride_resumes h (Ne.symm hq.1)
    cases hr : (m.stride capturing q w).result with
    | ok v =>
      rw [strides_cons_of_ok hr, strides_cons_of_ok (hs.result_eq.trans hr)]
      exact .cons hs (ih hs.walk hq.2)
    | error e =>
      rw [strides_cons_of_error hr, strides_cons_of_error (hs.result_eq.trans hr)]
      exact .cons hs .nil

theorem position_after {tokens : List τ}
    (h : ∀ s ∈ m.strides capturing (tokens.map .token) w, s.Succeeds) :
    (w.after (m.strides capturing (tokens.map .token) w)).position =
      w.position + tokens.length := by
  induction tokens generalizing w with
  | nil => rfl
  | cons t rest ih =>
    rw [List.map_cons] at h ⊢
    obtain ⟨v, hv⟩ := head_of_succeeds h
    rw [strides_cons_of_ok hv, List.forall_mem_cons] at h
    rw [strides_cons_of_ok hv, Walk.after_cons, ih h.2, List.length_cons]
    have hp : (m.stride capturing (.token t) w).walk.position = w.position + 1 := by
      obtain ⟨rule, -, ht⟩ | ⟨-, e, he⟩ := m.advance_cases capturing w t
      · exact congrArg Track.position ht
      · have hf : (m.stride capturing (.token t) w).result = .error e :=
          congrArg (Except.map _) he
        rw [hf] at hv
        cases hv
    omega

end Machine

end

/-! ## Runs that record and runs that do not -/

namespace Run

variable [DecidableEq σ] [BEq τ] [Pattern π τ] {r last : Run π σ τ κ ω ε φ} {p : Poll σ τ ω ε}
  {xs : List (Except (Failure σ τ ε) ω)}

/-- Polls up to the end give the items whether or not the run records; one that has recorded from its
start ends as the given run. -/
structure Plays (r : Run π σ τ κ ω ε φ) (xs : List (Except (Failure σ τ ε) ω))
    (last : Run π σ τ κ ω ε φ) : Prop where
  recording : r.recording.Drains xs last
  unrecorded : r.unrecorded.Drains xs last.unrecorded

theorem Answers.unrecorded (h : r.Answers p last) : r.unrecorded.Answers p last.unrecorded := by
  obtain ⟨hp, n, hn⟩ := h
  exact ⟨hp, n, by rw [next_unrecorded, hn]⟩

theorem Drains.unrecorded (h : r.Drains xs last) : r.unrecorded.Drains xs last.unrecorded := by
  induction h with
  | ended ha => exact .ended ha.unrecorded
  | item ha _ ih => exact .item ha.unrecorded ih

theorem Drains.plays (h : r.recording.Drains xs last) : r.Plays xs last :=
  ⟨h, h.unrecorded⟩

end Run

/-! ## Splitting the tokens -/

theorem Cue.ofTokens_append (a b : List τ) :
    Cue.ofTokens (a ++ b) = (.start :: a.map .token) ++ (b.map .token ++ [.finish]) := by
  simp [Cue.ofTokens]

namespace Walk

theorem resumes_enter {w₀ w : Walk π σ τ κ} (hc : w.context = w₀.context) (hp : w.position = 0)
    (hh : w.history = some .empty) : w₀.Resumes (w.enter w₀.state) w₀ where
  state_eq := rfl
  context_eq := hc.symm
  position_eq := by simp [enter, note, hp]
  history_eq h₀ hw₀ := ⟨.empty, hh, by rw [hw₀, History.append_later_empty]⟩

end Walk

namespace Machine

variable [DecidableEq σ] [BEq τ] [Pattern π τ] {m : Machine π σ τ κ ω ε φ} {capturing : Bool}
  {a : List τ} {w : Walk π σ τ κ} {s : σ}

theorem strides_unfinished (h : ∀ s ∈ m.strides capturing (.start :: a.map .token) w, s.Succeeds) :
    let ss := m.strides capturing (.start :: a.map .token) w
    m.unfinished.strides capturing (Cue.ofTokens a) w =
      ss ++ [⟨(w.after ss).leave, [], .ok none⟩] := by
  intro ss
  have hss : m.unfinished.strides capturing (.start :: a.map .token) w = ss := by
    refine strides_congr (fun q hq w => ?_) w
    cases q with
    | start => rfl
    | token t => rfl
    | finish => simp at hq
  rw [Cue.ofTokens, ← List.cons_append, strides_append (by rwa [hss]), strides_singleton, hss]
  rfl

theorem strides_resuming (b : List τ) (w : Walk π σ τ κ) :
    (m.resuming s).strides capturing (Cue.ofTokens b) w =
      ⟨w.enter s, [], .ok none⟩ ::
        m.strides capturing (b.map .token ++ [.finish]) (w.enter s) := by
  have hs : (m.resuming s).stride capturing .start w = ⟨w.enter s, [], .ok none⟩ := rfl
  rw [Cue.ofTokens, strides_cons_of_ok (congrArg (·.result) hs), hs]
  congr 1
  refine strides_congr (fun q hq w => ?_) _
  cases q with
  | start => simp at hq
  | token t => rfl
  | finish => rfl

/-- The steps over both lists of tokens are those over the first one and, from the walk that they
lead to, those of the machine that resumes there, behind the walk that it has entered. -/
structure Splits (m : Machine π σ τ κ ω ε φ) (capturing : Bool) (c : κ) (a b : List τ)
    (x : Course σ τ κ ω ε) (w₀ v : Walk π σ τ κ)
    (ss more more' : List (Stride π σ τ κ ω ε (Option φ))) : Prop where
  whole : m.strides capturing (Cue.ofTokens (a ++ b)) (m.walk c).recording = ss ++ more'
  first : m.unfinished.strides capturing (Cue.ofTokens a) (m.unfinished.walk c).recording =
    ss ++ [⟨w₀.leave, [], .ok none⟩]
  second : (m.resuming x.state).strides capturing (Cue.ofTokens b)
    ((m.resuming x.state).walk x.context).recording = ⟨v, [], .ok none⟩ :: more
  more_ne_nil : more ≠ []
  after_eq : (m.walk c).recording.after ss = w₀
  items_eq : ss.flatMap Stride.items = x.outputs.map .ok
  state_eq : w₀.state = x.state
  context_eq : w₀.context = x.context
  position_eq : w₀.position = a.length
  isSome_history : w₀.history.isSome
  resumes : w₀.Resumes v w₀
  strides_resumes : List.Forall₂ (Stride.Resumes w₀) more more'

theorem position_after_start (h : ∀ s ∈ m.strides capturing (.start :: a.map .token) w, s.Succeeds)
    (hw : w.position = 0) :
    (w.after (m.strides capturing (.start :: a.map .token) w)).position = a.length := by
  obtain ⟨v, hv⟩ := head_of_succeeds h
  rw [strides_cons_of_ok hv, List.forall_mem_cons] at h
  have hp : (m.stride capturing .start w).walk.position = w.position :=
    congrArg Track.position (m.track_start capturing w)
  rw [strides_cons_of_ok hv, Walk.after_cons, position_after h.2, hp, hw, Nat.zero_add]

/-- If neither the start nor one of the first tokens fails, the steps split there. -/
theorem exists_splits (m : Machine π σ τ κ ω ε φ) (c : κ) (a b : List τ)
    (hx : (m.through capturing c a).failure = none) :
    ∃ w₀ v ss more more',
      m.Splits capturing c a b (m.through capturing c a) w₀ v ss more more' := by
  let ss := m.strides capturing (.start :: a.map .token) (m.walk c).recording
  let w₀ := (m.walk c).recording.after ss
  let v := ((m.resuming w₀.state).walk w₀.context).recording.enter w₀.state
  let rest : List (Cue τ) := b.map .token ++ [.finish]
  have hc := m.strides_course capturing (.start :: a.map .token) (m.walk c).recording
  have hs : ∀ s ∈ ss, s.Succeeds := hc.succeeds_iff.2 hx
  have hv : w₀.Resumes v w₀ := Walk.resumes_enter rfl rfl rfl
  have hstate : w₀.state = (m.through capturing c a).state := hc.state_eq
  have hcontext : w₀.context = (m.through capturing c a).context := hc.context_eq
  refine ⟨w₀, v, ss, m.strides capturing rest v, m.strides capturing rest w₀, ?_⟩
  exact {
    whole := by rw [Cue.ofTokens_append, strides_append hs]
    first := strides_unfinished hs
    second := by
      rw [← hstate, ← hcontext]
      exact strides_resuming b _
    more_ne_nil := strides_ne_nil (by simp [rest])
    after_eq := rfl
    items_eq := by
      rw [Stride.flatMap_items hs, ← hc.outputs_eq hx]
      rfl
    state_eq := hstate
    context_eq := hcontext
    position_eq := position_after_start hs rfl
    isSome_history := m.isSome_history_after capturing _ _
    resumes := hv
    strides_resumes := strides_resumes hv (by simp [rest]) }

section

variable {c : κ} {b : List τ} {x : Course σ τ κ ω ε} {w₀ v : Walk π σ τ κ}
  {ss more more' : List (Stride π σ τ κ ω ε (Option φ))}

theorem Splits.after_resumes (h : m.Splits capturing c a b x w₀ v ss more more') :
    w₀.Resumes (v.after more) ((m.walk c).recording.after (ss ++ more')) := by
  rw [Walk.after_append, h.after_eq]
  exact h.resumes.after h.strides_resumes

theorem Splits.more'_ne_nil (h : m.Splits capturing c a b x w₀ v ss more more') : more' ≠ [] := by
  intro hn
  rw [hn] at h
  exact h.more_ne_nil (List.forall₂_nil_right_iff.1 h.strides_resumes)

theorem Splits.history_eq (h : m.Splits capturing c a b x w₀ v ss more more') :
    ∃ h₁ h₂, w₀.history = some h₁ ∧ (v.after more).history = some h₂ ∧
      ((m.walk c).recording.after (ss ++ more')).history =
        some (h₁.append (h₂.later a.length)) := by
  obtain ⟨h₁, hw₀⟩ := Option.isSome_iff_exists.1 h.isSome_history
  obtain ⟨h₂, hv, hw⟩ := h.after_resumes.history_eq h₁ hw₀
  rw [h.position_eq] at hw
  exact ⟨h₁, h₂, hw₀, hv, hw⟩

end

/-! ## Streams and executions -/

theorem plays_strides {c : κ} {tokens : List τ} {ss : List (Stride π σ τ κ ω ε (Option φ))}
    (h : m.strides true (Cue.ofTokens tokens) (m.walk c).recording = ss) :
    ∃ last : Run π σ τ κ ω ε φ, (m.run c (.ofList tokens)).Plays (ss.flatMap Stride.items) last ∧
      last.walk = (m.walk c).recording.after ss := by
  subst h
  exact ⟨_, Run.Drains.plays ((m.run c (.ofList tokens)).recording.drains_start rfl rfl tokens
    (Input.gives_ofList tokens)), rfl⟩

/-- A stream over two lists of tokens is that over the first one, without an end, and that of the
machine that resumes there. -/
theorem plays_split (m : Machine π σ τ κ ω ε φ) (c : κ) (a b : List τ)
    (hx : (m.through true c a).failure = none) :
    let x := m.through true c a
    ∃ ys first second last,
      (m.unfinished.run c (.ofList a)).Plays (x.outputs.map .ok) first ∧
      ((m.resuming x.state).run x.context (.ofList b)).Plays ys second ∧
      (m.run c (.ofList (a ++ b))).Plays (x.outputs.map .ok ++ ys) last ∧
      first.state = x.state ∧ first.context = x.context ∧
      last.state = second.state ∧ last.context = second.context ∧
      ∃ h₁ h₂, first.history = some h₁ ∧ second.history = some h₂ ∧
        last.history = some (h₁.append (h₂.later a.length)) := by
  intro x
  obtain ⟨w₀, v, ss, more, more', h⟩ := exists_splits m c a b hx
  obtain ⟨first, hfirst, hw₁⟩ := plays_strides h.first
  obtain ⟨second, hsecond, hw₂⟩ := plays_strides h.second
  obtain ⟨last, hlast, hw⟩ := plays_strides h.whole
  obtain ⟨h₁, h₂, hh₁, hh₂, hh⟩ := h.history_eq
  have hmore := h.after_resumes
  -- the steps for the end of the first stream and for the start of the second one give nothing
  rw [List.flatMap_append, h.items_eq, List.flatMap_singleton, Stride.items_of_ok rfl, List.map_nil,
    List.append_nil] at hfirst
  rw [List.flatMap_cons, Stride.items_of_ok rfl, List.map_nil, List.nil_append] at hsecond
  rw [List.flatMap_append, h.items_eq, Stride.items_of_resumes h.strides_resumes] at hlast
  rw [Walk.after_append, Walk.after_cons, Walk.after_nil] at hw₁
  rw [Walk.after_cons] at hw₂
  refine ⟨_, first, second, last, hfirst, hsecond, hlast, ?_⟩
  simp only [Run.state, Run.context, Run.history, hw₁, hw₂, hw]
  exact ⟨h.state_eq, h.context_eq, hmore.state_eq, hmore.context_eq, h₁, h₂, hh₁, hh₂, hh⟩

end Machine

/-- The executions come to the same result, state and context. -/
structure Execution.EndsLike (e e' : Execution π σ τ κ ε φ) : Prop where
  result_eq : e.result = e'.result
  state_eq : e.walk.state = e'.walk.state
  context_eq : e.walk.context = e'.walk.context

namespace Machine

variable [DecidableEq σ] [BEq τ] [Pattern π τ]

theorem execute_endsLike (m : Machine π σ τ κ ω ε φ) (c : κ) (tokens : List τ) :
    (m.executeWithHistory c tokens).EndsLike (m.execute c tokens) := by
  have h := m.drive_recording tokens (m.walk c)
  refine ⟨?_, ?_, ?_⟩
  · exact congrArg (·.result) h
  · exact congrArg (·.walk.state) h
  · exact congrArg (·.walk.context) h

theorem executes_split (m : Machine π σ τ κ ω ε φ) (c : κ) (a b : List τ)
    (hx : (m.through false c a).failure = none) :
    let x := m.through false c a
    let first := m.unfinished.executeWithHistory c a
    let second := (m.resuming x.state).executeWithHistory x.context b
    let whole := m.executeWithHistory c (a ++ b)
    first.result = .ok none ∧ first.walk.state = x.state ∧ first.walk.context = x.context ∧
      whole.EndsLike second ∧ whole.history = first.history.append (second.history.later a.length) := by
  intro x first second whole
  obtain ⟨w₀, v, ss, more, more', h⟩ := exists_splits m c a b hx
  obtain ⟨hw₁, -, hr₁⟩ := m.unfinished.drive_comesOf a (m.unfinished.walk c).recording
  obtain ⟨hw₂, -, hr₂⟩ := (m.resuming x.state).drive_comesOf b
    ((m.resuming x.state).walk x.context).recording
  obtain ⟨hw, -, hr⟩ := m.drive_comesOf (a ++ b) (m.walk c).recording
  -- the last step decides the result, and the second part has one: the end
  rw [h.first, List.getLast?_concat] at hr₁
  rw [h.second, ← List.singleton_append, List.getLast?_append_of_ne_nil _ h.more_ne_nil] at hr₂
  rw [h.whole, List.getLast?_append_of_ne_nil _ h.more'_ne_nil,
    Stride.result_of_resumes h.strides_resumes, hr₂] at hr
  rw [h.first, Walk.after_append, Walk.after_cons, Walk.after_nil] at hw₁
  rw [h.second, Walk.after_cons] at hw₂
  rw [h.whole] at hw
  have hmore := h.after_resumes
  obtain ⟨h₁, h₂, hh₁, hh₂, hh⟩ := h.history_eq
  change first.walk = _ at hw₁
  change second.walk = _ at hw₂
  change whole.walk = _ at hw
  refine ⟨(Option.some.inj hr₁).symm, ?_, ?_, ⟨(Option.some.inj hr).symm, ?_, ?_⟩, ?_⟩
  · rw [hw₁]
    exact h.state_eq
  · rw [hw₁]
    exact h.context_eq
  · rw [hw, hw₂]
    exact hmore.state_eq
  · rw [hw, hw₂]
    exact hmore.context_eq
  · have hleave : w₀.leave.history = some h₁ := hh₁
    simp only [Execution.history, hw, hw₁, hw₂, hh, hh₂, hleave, Option.getD_some]

/-- **Runs and executions can be split at any point** that the start and the tokens before it lead to
without a failure. What comes behind it is what the machine does that begins in the state reached
there, with the context left there: the same items, the failure among them, the same state and
context at the end, and the same value. The history is that of the first part and, behind it, that
of the second part with all of its places further on by the tokens of the first one. -/
theorem runs_split (m : Machine π σ τ κ ω ε φ) (c : κ) (a b : List τ) :
    ((m.through true c a).failure = none →
      let x := m.through true c a
      ∃ ys first second last,
        (m.unfinished.run c (.ofList a)).Plays (x.outputs.map .ok) first ∧
        ((m.resuming x.state).run x.context (.ofList b)).Plays ys second ∧
        (m.run c (.ofList (a ++ b))).Plays (x.outputs.map .ok ++ ys) last ∧
        first.state = x.state ∧ first.context = x.context ∧
        last.state = second.state ∧ last.context = second.context ∧
        ∃ h₁ h₂, first.history = some h₁ ∧ second.history = some h₂ ∧
          last.history = some (h₁.append (h₂.later a.length))) ∧
    ((m.through false c a).failure = none →
      let x := m.through false c a
      let first := m.unfinished.executeWithHistory c a
      let second := (m.resuming x.state).executeWithHistory x.context b
      let whole := m.executeWithHistory c (a ++ b)
      first.result = .ok none ∧ first.walk.state = x.state ∧ first.walk.context = x.context ∧
        whole.EndsLike second ∧
        whole.history = first.history.append (second.history.later a.length) ∧
        (m.execute c (a ++ b)).EndsLike ((m.resuming x.state).execute x.context b)) := by
  refine ⟨m.plays_split c a b, ?_⟩
  intro hx x first second whole
  obtain ⟨hr, hs, hc, he, hh⟩ := m.executes_split c a b hx
  refine ⟨hr, hs, hc, he, hh, ?_⟩
  have hw := m.execute_endsLike c (a ++ b)
  have hb := (m.resuming x.state).execute_endsLike x.context b
  exact ⟨hw.result_eq.symm.trans (he.result_eq.trans hb.result_eq),
    hw.state_eq.symm.trans (he.state_eq.trans hb.state_eq),
    hw.context_eq.symm.trans (he.context_eq.trans hb.context_eq)⟩

open Demo.Lexer in
/-- The lexer can be split within a number, in front of a character that it has no rule for. -/
theorem runs_split_lexer :
    let a := ['a', 'b', '+', '1']
    let b := ['2', ' ', '$']
    let later := lexer.resuming .number
    (∃ ys second last,
      (later.run ⟨['1'], some .number⟩ (.ofList b)).Plays ys second ∧
      (lexer.run {} (.ofList (a ++ b))).Plays (.ok (.word ['a', 'b']) :: .ok (.punct '+') :: ys) last ∧
      last.state = second.state ∧ last.context = second.context) ∧
    (lexer.executeWithHistory {} (a ++ b)).EndsLike
      (later.executeWithHistory ⟨['1'], some .number⟩ b) ∧
    (lexer.execute {} (a ++ b)).result = .error (.unexpected ⟨.idle, '$'⟩) := by
  intro a b later
  obtain ⟨hs, he⟩ := runs_split lexer {} a b
  obtain ⟨ys, first, second, last, -, h₂, h, -, -, hstate, hcontext, -⟩ := hs rfl
  obtain ⟨-, -, -, hw, -, -⟩ := he rfl
  exact ⟨⟨ys, second, last, h₂, h, hstate, hcontext⟩, hw, rfl⟩

end Machine

end Transducer
