import Mathlib.Data.List.Forall2
import Transducer.Proofs.Courses
import Transducer.Proofs.Tables
import Transducer.Demo.Counter

/-!
# Agreement

Runs and executions of machines that do the same, whatever they emit.

* `Action.Agrees`, `Rule.Agrees`, `Machine.Agrees`: the same but for what is emitted, with outputs
  captured or not.
* `Machine.strides_mute`: **such machines take the same steps but for the outputs.**
* `Action.Indifferent`, `Machine.Indifferent`: nothing but the outputs depends on whether they are
  captured.
* `Machine.run_agrees_execute`: **a run of such a machine agrees with its execution.**
-/

namespace Transducer

variable {π σ τ κ ω ω' ε φ α β : Type}

/-- The actions leave the same context and have the same result, the one with outputs captured or
not, the other one with outputs captured or not. -/
def Action.Agrees (b b' : Bool) (a : Action κ ω ε α) (a' : Action κ ω' ε α) : Prop :=
  ∀ c, (a b c).context = (a' b' c).context ∧ (a b c).result = (a' b' c).result

/-- The rules of a state are the same but for what their actions emit. -/
structure Rule.Agrees (b b' : Bool) (s : σ) (r : Rule π σ τ (Reaction σ τ κ ω ε))
    (r' : Rule π σ τ (Reaction σ τ κ ω' ε)) : Prop where
  label_eq : r.label = r'.label
  target_eq : r.target = r'.target
  action : ∀ t, Option.Rel (Action.Agrees b b')
    (r.action.map fun react => react t s r.target) (r'.action.map fun react => react t s r'.target)

/-- The machines are the same but for what their actions emit. -/
structure Machine.Agrees [DecidableEq σ] (b b' : Bool) (m : Machine π σ τ κ ω ε φ)
    (m' : Machine π σ τ κ ω' ε φ) : Prop where
  initial_eq : m.initial = m'.initial
  onStart : Option.Rel (Action.Agrees b b') m.onStart m'.onStart
  onFinish : Option.Rel (Action.Agrees b b') m.onFinish m'.onFinish
  rules : ∀ s, List.Forall₂ (Rule.Agrees b b' s) (m.table.rules s) (m'.table.rules s)

/-- Neither the context that the action leaves nor its result depends on whether outputs are
captured. -/
def Action.Indifferent (a : Action κ ω ε α) : Prop := a.Agrees true false a

/-- Nothing but the outputs of the machine depends on whether they are captured. -/
structure Machine.Indifferent [DecidableEq σ] (m : Machine π σ τ κ ω ε φ) : Prop where
  onStart : ∀ a ∈ m.onStart, a.Indifferent
  onFinish : ∀ a ∈ m.onFinish, a.Indifferent
  rules : ∀ s, ∀ r ∈ m.table.rules s, ∀ react ∈ r.action, ∀ t, (react t s r.target).Indifferent

theorem rel_self {R : α → α → Prop} {a : Option α} (h : ∀ x ∈ a, R x x) : Option.Rel R a a := by
  cases a with
  | none => exact .none
  | some x => exact .some (h x rfl)

theorem Machine.Indifferent.agrees [DecidableEq σ] {m : Machine π σ τ κ ω ε φ} (h : m.Indifferent) :
    m.Agrees true false m where
  initial_eq := rfl
  onStart := rel_self h.onStart
  onFinish := rel_self h.onFinish
  rules s := List.forall₂_same.2 fun r hr => ⟨rfl, rfl, fun t => rel_self fun a ha => by
    obtain ⟨react, hm, rfl⟩ := Option.map_eq_some_iff.1 ha
    exact h.rules s r hr react hm t⟩

theorem Action.Agrees.symm {b b' : Bool} {a : Action κ ω ε α} {a' : Action κ ω' ε α}
    (h : a.Agrees b b' a') : a'.Agrees b' b a :=
  fun c => ⟨(h c).1.symm, (h c).2.symm⟩

theorem rel_agrees_symm {b b' : Bool} {a : Option (Action κ ω ε α)} {a' : Option (Action κ ω' ε α)}
    (h : Option.Rel (Action.Agrees b b') a a') : Option.Rel (Action.Agrees b' b) a' a := by
  cases h with
  | none => exact .none
  | some h => exact .some h.symm

theorem Rule.Agrees.symm {b b' : Bool} {s : σ} {r : Rule π σ τ (Reaction σ τ κ ω ε)}
    {r' : Rule π σ τ (Reaction σ τ κ ω' ε)} (h : r.Agrees b b' s r') : r'.Agrees b' b s r :=
  ⟨h.label_eq.symm, h.target_eq.symm, fun t => rel_agrees_symm (h.action t)⟩

theorem Machine.Agrees.symm [DecidableEq σ] {b b' : Bool} {m : Machine π σ τ κ ω ε φ}
    {m' : Machine π σ τ κ ω' ε φ} (h : m.Agrees b b' m') : m'.Agrees b' b m where
  initial_eq := h.initial_eq.symm
  onStart := rel_agrees_symm h.onStart
  onFinish := rel_agrees_symm h.onFinish
  rules s := ((h.rules s).imp fun _ _ hr => hr.symm).flip

theorem Machine.Agrees.walk_eq [DecidableEq σ] {b b' : Bool} {m : Machine π σ τ κ ω ε φ}
    {m' : Machine π σ τ κ ω' ε φ} (h : m.Agrees b b' m') (c : κ) : m'.walk c = m.walk c := by
  rw [walk, walk, h.initial_eq]

/-! ## The same steps -/

/-- The step without its outputs. -/
def Stride.mute (s : Stride π σ τ κ ω ε α) : Stride π σ τ κ Empty ε α := ⟨s.walk, [], s.result⟩

theorem Stride.mute_map (f : α → β) (s : Stride π σ τ κ ω ε α) :
    (s.map f).mute = s.mute.map f := rfl

theorem Walk.after_mute (w : Walk π σ τ κ) (ss : List (Stride π σ τ κ ω ε α)) :
    w.after (ss.map Stride.mute) = w.after ss :=
  List.foldl_map

variable {b b' : Bool}

theorem Walk.invoke_mute (w : Walk π σ τ κ) (i : Invocation σ τ) {a : Option (Action κ ω ε α)}
    {a' : Option (Action κ ω' ε α)} (h : Option.Rel (Action.Agrees b b') a a') :
    (w.invoke i b a).mute = (w.invoke i b' a').mute := by
  cases h with
  | none => rfl
  | some ha =>
    obtain ⟨hc, hr⟩ := ha w.context
    simp only [Walk.invoke, Stride.mute, hc, hr]
    split <;> rfl

variable [DecidableEq σ] [BEq τ] [Pattern π τ]

namespace Machine

variable {m : Machine π σ τ κ ω ε φ} {m' : Machine π σ τ κ ω' ε φ}

theorem stride_mute (h : m.Agrees b b' m') (q : Cue τ) (w : Walk π σ τ κ) :
    (m.stride b q w).mute = (m'.stride b' q w).mute := by
  cases q with
  | start =>
    simp only [stride, start, Stride.mute_map, h.initial_eq]
    rw [Walk.invoke_mute _ _ h.onStart]
  | token t =>
    obtain ⟨ht, hf⟩ : (m'.table.scan w.state t).tested = (m.table.scan w.state t).tested ∧
        Option.Rel (Rule.Agrees b b' w.state) (m.table.scan w.state t).found
          (m'.table.scan w.state t).found :=
      Scan.ofRules_rel (fun _ _ hr => hr.label_eq.symm) (h.rules w.state) t
    simp only [stride, advance, Stride.mute_map, ht]
    generalize (m.table.scan w.state t).found = found at hf
    generalize (m'.table.scan w.state t).found = found' at hf
    cases hf with
    | none => rfl
    | some hr =>
      -- the rules found lead to the same state, and their actions are told the same
      simp only [Stride.mute_map, hr.target_eq]
      have ha := hr.action t
      rw [hr.target_eq] at ha
      rw [Walk.invoke_mute _ _ ha]
  | finish => exact Walk.invoke_mute _ _ h.onFinish

/-- **Machines that agree take the same steps, but for the outputs.** -/
theorem strides_mute (h : m.Agrees b b' m') (cues : List (Cue τ)) (w : Walk π σ τ κ) :
    (m.strides b cues w).map Stride.mute = (m'.strides b' cues w).map Stride.mute := by
  induction cues generalizing w with
  | nil => rfl
  | cons q rest ih =>
    have hq := stride_mute h q w
    have hw : (m.stride b q w).walk = (m'.stride b' q w).walk := congrArg (·.walk) hq
    have hr : (m.stride b q w).result = (m'.stride b' q w).result := congrArg (·.result) hq
    cases hs : (m.stride b q w).result with
    | ok v =>
      rw [strides_cons_of_ok hs, strides_cons_of_ok (hr.symm.trans hs), List.map_cons,
        List.map_cons, hq, ← hw, ih]
    | error e =>
      rw [strides_cons_of_error hs, strides_cons_of_error (hr.symm.trans hs), List.map_singleton,
        List.map_singleton, hq]

theorem strides_agree (h : m.Agrees b b' m') (cues : List (Cue τ)) (w : Walk π σ τ κ) :
    w.after (m.strides b cues w) = w.after (m'.strides b' cues w) ∧
      (m.strides b cues w).length = (m'.strides b' cues w).length ∧
      (m.strides b cues w).getLast?.map (·.result) =
        (m'.strides b' cues w).getLast?.map (·.result) := by
  have hss := strides_mute h cues w
  refine ⟨?_, ?_, ?_⟩
  · rw [← Walk.after_mute, hss, Walk.after_mute]
  · rw [← List.length_map, hss, List.length_map]
  · have hl := congrArg (fun ss => ss.getLast?.map (·.result)) hss
    simp only [List.getLast?_map, Option.map_map] at hl
    exact hl

/-! ## Runs and executions -/

/-- A recording run drains to the items of its course, ends with the walk of the execution, and has
asked as often and failed alike. -/
theorem drains_execution (h : m.Agrees true false m') (c : κ) {input : Input τ} {tokens : List τ}
    (hi : input.Gives 0 tokens) :
    let e := m'.executeWithHistory c tokens
    let x := m.plan.course true (Cue.ofTokens tokens) m.initial c
    ∃ last, (m.run c input).recording.Drains x.items last ∧ last.walk = e.walk ∧
      last.asked = e.asked ∧ x.failure = Failure.of? e.result := by
  intro e x
  have he : e = m'.drive tokens (m.walk c).recording := by
    rw [← h.walk_eq]
    rfl
  obtain ⟨hw, ha, hr⟩ := m'.drive_comesOf tokens (m.walk c).recording
  obtain ⟨hafter, hlength, hlast⟩ := strides_agree h (Cue.ofTokens tokens) (m.walk c).recording
  have hf := (m.strides_course true (Cue.ofTokens tokens) (m.walk c).recording).failure_eq
  rw [hlast, hr, Option.bind_some] at hf
  refine ⟨_, (m.run c input).recording.drains_items rfl rfl tokens hi, ?_, ?_, ?_⟩
  · rw [he, hw]
    exact hafter
  · rw [← hlength] at ha
    change 0 + ((m.strides true (Cue.ofTokens tokens) (m.walk c).recording).length - 1) = _
    rw [he]
    omega
  · rw [he]
    exact hf.symm

/-- **A run agrees with the execution**, if nothing but the outputs depends on whether they are
captured. Both end with the same context, have asked as often and fail alike; the value is that of
the action at the end, and both recordings are the same. -/
theorem run_agrees_execute {m : Machine π σ τ κ ω ε φ} (h : m.Indifferent) (c : κ)
    {input : Input τ} {tokens : List τ} (hi : input.Gives 0 tokens) :
    let e := m.executeWithHistory c tokens
    let x := m.plan.course false (.start :: tokens.map .token) m.initial c
    (m.execute c tokens).result = e.result ∧
    ∃ (ws : List ω) (items : List (Except (Failure σ τ ε) ω)) (last : Run π σ τ κ ω ε φ),
      (∀ xs r, (m.run c input).recording.Drains xs r ↔ xs = items ∧ r = last) ∧
      last.context = e.walk.context ∧ last.asked = e.asked ∧
      (∀ f, e.result = .error f → items = ws.map .ok ++ [.error f]) ∧
      (∀ v, e.result = .ok v → items = ws.map .ok ∧ last.history = some e.history ∧
        m.onFinish.map (fun finish => (finish false x.context).result) = v.map .ok) := by
  intro e x
  obtain ⟨last, hd, hw, ha, hf⟩ := drains_execution h.agrees c hi
  refine ⟨?_, (m.plan.course true (Cue.ofTokens tokens) m.initial c).outputs, _, last,
    fun xs r => hd.iff, congrArg Walk.context hw, ha, fun f he => ?_,
    fun v he => ⟨?_, ?_, m.drive_value he⟩⟩
  · exact (congrArg Execution.result (m.drive_recording tokens (m.walk c))).symm
  · rw [Course.items, hf, show (m.executeWithHistory c tokens).result = .error f from he]
    rfl
  · rw [Course.items, hf, show (m.executeWithHistory c tokens).result = .ok v from he]
    exact List.append_nil _
  · obtain ⟨hs, hh⟩ := Option.isSome_iff_exists.1
      (m.isSome_history_drive tokens (m.walk c).recording)
    rw [Run.history, hw, Execution.history, show e.walk.history = some hs from hh]
    rfl

open Demo.Counter

theorem indifferent_counter : counter.Indifferent where
  onStart := by
    rintro _ ⟨⟩ c
    exact ⟨rfl, rfl⟩
  onFinish := by
    rintro _ ⟨⟩ c
    exact ⟨rfl, rfl⟩
  rules s r hr react ha t := by
    have hs : r ∈ (rules.filter fun r => r.1 = s).map (·.2) := by rwa [← Table.rules_ofList]
    obtain ⟨⟨_, _⟩, hf, rfl⟩ := List.mem_map.1 hs
    have hm := List.mem_of_mem_filter hf
    simp only [rules, List.mem_cons, List.not_mem_nil, or_false, Prod.mk.injEq] at hm
    obtain ⟨-, rfl⟩ | ⟨-, rfl⟩ | ⟨-, rfl⟩ := hm
    · cases ha
    · obtain rfl := Option.some.inj ha
      exact fun c => ⟨rfl, rfl⟩
    · cases ha

/-- The counter has asked once more than it was given tokens, and has the number of ones for its
value. -/
theorem run_agrees_execute_counter :
    (counter.execute 7 [1, 1, 0]).result = .ok (some 2) ∧
      ∃ ws last, (counter.run 7 (.ofList [1, 1, 0])).recording.Drains (List.map .ok ws) last ∧
        last.context = 2 ∧ last.asked = 4 := by
  obtain ⟨he, ws, items, last, hd, hc, ha, -, hok⟩ :=
    run_agrees_execute indifferent_counter 7 (Input.gives_ofList [1, 1, 0])
  have hr : (counter.executeWithHistory 7 [1, 1, 0]).result = .ok (some 2) := rfl
  exact ⟨he.trans hr, ws, last, (hd _ _).2 ⟨(hok _ hr).1.symm, rfl⟩, hc, ha⟩

end Machine

end Transducer
