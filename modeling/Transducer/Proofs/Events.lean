import Transducer.Proofs.Coverage
import Transducer.Proofs.Resumption

/-!
# What a run tells of its course

The events of a run, read off the course of its tokens: the start, one event a move, and then one for
the end of the input or for the token without a rule.

* `Walk.events`: the events that a walk has told of.
* `Course.ending`, `Course.tale`: what there is to tell of a course over the tokens of an input.
* `History.ofMoves`: the moves as a history.
* `Machine.events_through`, `Machine.events_ofTokens`: **the steps of a walk tell of their course.**
* `Machine.Tells`, `Machine.events_mirror`: **the events of executions and of runs mirror the walk.**
-/

namespace Transducer

variable {π σ τ κ ω ε φ α : Type}

/-- The event of a move. -/
def Event.ofMove (move : σ × σ × τ) : Event σ τ := .moved move.1 move.2.1 move.2.2

/-- The event of a failure behind so many tokens: of a token without a rule, and of nothing else. -/
def Event.ofFailure (position : Nat) : Option (Failure σ τ ε) → List (Event σ τ)
  | some (.unexpected u) => [.stuck u position]
  | some (.raised _) => []
  | none => []

@[simp] theorem Event.ofFailure_none (position : Nat) :
    ofFailure position (none : Option (Failure σ τ ε)) = [] := rfl

@[simp] theorem Event.ofFailure_acting (position : Nat) (move : Option (σ × σ × τ))
    (i : Invocation σ τ) (s : σ) (capturing : Bool) (c : κ) (action : Option (Action κ ω ε α)) :
    ofFailure position (Failure.of? (Leg.acting move i s capturing c action).result) = [] := by
  cases action with
  | none => rfl
  | some a =>
    rw [Leg.acting]
    cases (a capturing c).result <;> rfl

/-- The events that the walk has told of. -/
def Walk.events (w : Walk π σ τ κ) : List (Event σ τ) := w.journal.filterMap Entry.event?

namespace Course

/-- The event behind the moves of a course over all tokens of an input. -/
def ending (x : Course σ τ κ ω ε) : List (Event σ τ) :=
  match x.failure with
  | none => [.finished x.state x.moves.length]
  | some f => Event.ofFailure x.moves.length (some f)

/-- What there is to tell of a course that begins in a state. -/
def tale (x : Course σ τ κ ω ε) (initial : σ) : List (Event σ τ) :=
  .started initial :: (x.moves.map .ofMove ++ x.ending)

end Course

/-- The moves, each at its place. -/
def History.ofMoves (moves : List (σ × σ × τ)) : History σ :=
  ⟨moves.mapIdx fun i move => ⟨move.1, move.2.1, i⟩⟩

/-- All moves of the track have been recorded. -/
structure Track.Complete (k : Track σ τ) : Prop where
  position_eq : k.position = k.moves.length
  history_eq : k.history = some (.ofMoves k.moves)

/-! ## The events of a step -/

namespace Walk

variable (w : Walk π σ τ κ)

@[simp] theorem events_note (entries : List (Entry π σ τ)) :
    (w.note entries).events = w.events ++ entries.filterMap Entry.event? :=
  List.filterMap_append

@[simp] theorem events_tested (labels : List (Label π τ)) (t : τ) :
    (w.note (labels.map (.tested · t))).events = w.events := by
  simp [List.filterMap_eq_nil_iff, Entry.event?]

@[simp] theorem events_move (s : σ) (t : τ) :
    (w.move s t).events = w.events ++ [.moved w.state s t] :=
  w.events_note _

@[simp] theorem events_invoke (i : Invocation σ τ) (capturing : Bool)
    (action : Option (Action κ ω ε α)) : (w.invoke i capturing action).walk.events = w.events := by
  cases action with
  | none => rfl
  | some a =>
    have hn : (w.note [.invoked i]).events = w.events := by
      rw [events_note]
      exact List.append_nil _
    simp only [invoke]
    cases (a capturing w.context).result <;> exact hn

@[simp] theorem position_invoke (i : Invocation σ τ) (capturing : Bool)
    (action : Option (Action κ ω ε α)) : (w.invoke i capturing action).walk.position = w.position :=
  congrArg Track.position (w.track_invoke i capturing action)

end Walk

namespace Machine

section

variable (m : Machine π σ τ κ ω ε φ) (capturing : Bool) (w : Walk π σ τ κ)

theorem events_start : (m.start capturing w).walk.events = w.events ++ [.started m.initial] :=
  (Walk.events_invoke ..).trans (w.events_note _)

theorem events_finish :
    (m.finish capturing w).walk.events = w.events ++ [.finished w.state w.position] :=
  (Walk.events_invoke ..).trans (w.events_note _)

end

variable [DecidableEq σ] [BEq τ] [Pattern π τ] (m : Machine π σ τ κ ω ε φ) {capturing : Bool}
  {tokens : List τ}

/-- A token is told of by its move if there is a rule for it, whatever its action does, and else as
one that has none. -/
theorem events_token (capturing : Bool) (t : τ) (w : Walk π σ τ κ) :
    let l := m.plan.leg capturing w.state w.context (.token t)
    let v := (m.stride capturing (.token t) w).walk
    v.position = w.position + l.move.toList.length ∧
      v.events = w.events ++
        (l.move.toList.map .ofMove ++ Event.ofFailure v.position (Failure.of? l.result)) := by
  have hf : (m.table.scan w.state t).found = m.plan.rule? w.state t := Scan.found_ofRules ..
  simp only [stride, advance, hf, Plan.leg]
  cases m.plan.rule? w.state t with
  | none =>
    refine ⟨rfl, (Walk.events_note ..).trans ?_⟩
    rw [Walk.events_tested]
    rfl
  | some rule =>
    simp only [Leg.move_acting, Event.ofFailure_acting]
    refine ⟨Walk.position_invoke .., (Walk.events_invoke ..).trans ?_⟩
    rw [Walk.events_move, Walk.events_tested]
    rfl

/-! ## The events of a course -/

theorem events_tokens (capturing : Bool) (tokens : List τ) (w : Walk π σ τ κ) :
    let x := m.plan.course capturing (tokens.map .token) w.state w.context
    let v := w.after (m.strides capturing (tokens.map .token) w)
    v.position = w.position + x.moves.length ∧
      v.events = w.events ++ (x.moves.map .ofMove ++ Event.ofFailure v.position x.failure) := by
  induction tokens generalizing w with
  | nil => exact ⟨rfl, (List.append_nil _).symm⟩
  | cons t rest ih =>
    have hl := m.stride_shows capturing (.token t) w
    have hresult := hl.result_eq
    obtain ⟨hposition, hevents⟩ := m.events_token capturing t w
    rw [List.map_cons]
    cases hs : (m.stride capturing (.token t) w).result with
    | error f =>
      rw [hs] at hresult
      rw [← hresult] at hevents
      rw [Plan.course_cons_of_error hresult.symm, strides_cons_of_error hs]
      exact ⟨hposition, hevents⟩
    | ok v =>
      rw [hs] at hresult
      rw [← hresult] at hevents
      obtain ⟨hposition', hevents'⟩ := ih (m.stride capturing (.token t) w).walk
      rw [hl.state_eq, hl.context_eq] at hposition' hevents'
      rw [Plan.course_cons_of_ok hresult.symm, strides_cons_of_ok hs]
      refine ⟨hposition'.trans ?_, hevents'.trans ?_⟩
      · rw [hposition, List.length_append, Nat.add_assoc]
      · rw [hevents]
        simp [Except.map, Failure.of?]

variable {m} {c : κ} {w : Walk π σ τ κ}

theorem events_through (capturing : Bool) (hw : w.unrecorded = m.walk c) (tokens : List τ) :
    let x := m.through capturing c tokens
    let v := w.after (m.strides capturing (.start :: tokens.map .token) w)
    v.position = x.moves.length ∧ v.events =
      .started m.initial :: (x.moves.map .ofMove ++ Event.ofFailure x.moves.length x.failure) := by
  have hstate : w.state = m.initial := congrArg Walk.state hw
  have hcontext : w.context = c := congrArg Walk.context hw
  have hposition : (m.stride capturing .start w).walk.position = 0 :=
    (Walk.position_invoke ..).trans (congrArg Walk.position hw)
  have hevents : (m.stride capturing .start w).walk.events = [.started m.initial] := by
    have hs := m.events_start capturing w
    rwa [show w.events = [] from congrArg Walk.events hw] at hs
  have hl := m.stride_shows capturing .start w
  rw [hstate, hcontext] at hl
  have hresult := hl.result_eq
  have hmove : (m.plan.leg capturing m.initial c .start).move = none := Leg.move_acting ..
  have hquiet : Event.ofFailure 0 (Failure.of? (m.plan.leg capturing m.initial c .start).result) = [] :=
    Event.ofFailure_acting ..
  rw [through]
  cases hs : (m.stride capturing .start w).result with
  | error f =>
    rw [hs] at hresult
    rw [← hresult] at hquiet
    rw [Plan.course_cons_of_error hresult.symm, strides_cons_of_error hs, hmove]
    exact ⟨hposition, hevents.trans (congrArg (Event.started m.initial :: ·) hquiet.symm)⟩
  | ok v =>
    rw [hs] at hresult
    obtain ⟨hposition', hevents'⟩ :=
      m.events_tokens capturing tokens (m.stride capturing .start w).walk
    rw [hposition', hl.state_eq, hl.context_eq, hposition, Nat.zero_add, hevents] at hevents'
    rw [hl.state_eq, hl.context_eq, hposition, Nat.zero_add] at hposition'
    rw [Plan.course_cons_of_ok hresult.symm, strides_cons_of_ok hs, hmove]
    exact ⟨hposition', hevents'⟩

/-- **The steps over some tokens and their end tell of the course of the tokens.** -/
theorem events_ofTokens (hw : w.unrecorded = m.walk c) (tokens : List τ) :
    (w.after (m.strides capturing (Cue.ofTokens tokens) w)).events =
      (m.through capturing c tokens).tale m.initial := by
  obtain ⟨hposition, hevents⟩ := events_through capturing hw tokens
  have hx := m.strides_course capturing (.start :: tokens.map .token) w
  rw [show w.state = m.initial from congrArg Walk.state hw,
    show w.context = c from congrArg Walk.context hw] at hx
  rw [Cue.ofTokens, ← List.cons_append, Course.tale, Course.ending]
  cases hf : (m.through capturing c tokens).failure with
  | none =>
    have hsucceeds := hx.succeeds_iff.2 hf
    have hstate : (w.after (m.strides capturing (.start :: tokens.map .token) w)).state =
        (m.through capturing c tokens).state := hx.state_eq
    rw [strides_append hsucceeds, strides_singleton, Walk.after_append]
    refine (m.events_finish capturing _).trans ?_
    rw [hevents, hposition, hstate, hf]
    simp
  | some f =>
    have hfails : ¬ ∀ s ∈ m.strides capturing (.start :: tokens.map .token) w, s.Succeeds := by
      intro hsucceeds
      have hn := hx.succeeds_iff.1 hsucceeds
      rw [show (m.plan.course _ _ _ _).failure = some f from hf] at hn
      cases hn
    rw [strides_append_of_failure hfails, hevents, hf]

/-! ## The end of the tokens -/

theorem course_ofTokens (m : Machine π σ τ κ ω ε φ) (capturing : Bool) (c : κ) (tokens : List τ) :
    let x := m.through capturing c tokens
    let y := m.plan.course capturing (Cue.ofTokens tokens) m.initial c
    y.state = x.state ∧ y.moves = x.moves ∧ (∀ f, x.failure = some f → y.failure = some f) ∧
      ∀ f, y.failure = some f → x.failure = some f ∨
        x.failure = none ∧ ∃ e, f = .raised e ∧
          m.plan.Raises capturing x.context y.context e .finish := by
  intro x y
  cases hf : x.failure with
  | some f =>
    have hxy : y = x := Plan.course_append_of_failure (fun hn => nomatch hf.symm.trans hn) [.finish]
    rw [hxy, hf]
    exact ⟨rfl, rfl, fun _ h => h, fun _ h => .inl h⟩
  | none =>
    obtain ⟨hmoves, hstate, hfails⟩ := m.plan.course_finish capturing x.state x.context
    have hy := Plan.course_append hf [.finish]
    have hmoves' : y.moves = x.moves :=
      (congrArg Course.moves hy).trans ((congrArg (x.moves ++ ·) hmoves).trans (List.append_nil _))
    have hcontext := congrArg Course.context hy
    refine ⟨(congrArg Course.state hy).trans hstate, hmoves', nofun, fun f h => .inr ⟨rfl, ?_⟩⟩
    obtain ⟨e, he, hraises⟩ := hfails f ((congrArg Course.failure hy).symm.trans h)
    exact ⟨e, he, hcontext ▸ hraises⟩

end Machine

/-! ## Complete histories -/

namespace Track

theorem Complete.move {k : Track σ τ} (h : k.Complete) (target : σ) (t : τ) :
    (k.move target t).Complete where
  position_eq := by
    rw [Track.move, List.length_append, ← h.position_eq]
    rfl
  history_eq := by
    simp [Track.move, History.ofMoves, History.record, h.history_eq, h.position_eq,
      List.mapIdx_concat]

theorem stable_complete [DecidableEq σ] [BEq τ] [Pattern π τ] {m : Machine π σ τ κ ω ε φ}
    {input : Input τ} : Stable m input Complete where
  enter h _ := ⟨h.position_eq, h.history_eq⟩
  move h _ _ := h.move _ _
  record {k} h := ⟨h.position_eq, by rw [h.history_eq, Option.getD_some]⟩

end Track

/-! ## Runs and executions -/

variable [DecidableEq σ] [BEq τ] [Pattern π τ]

/-- What the events of a walk over some tokens tell: all that there is to tell of the course of the
start and the tokens. The walk fails as the course does, and else only at the end of the tokens. -/
structure Machine.Tells (m : Machine π σ τ κ ω ε φ) (capturing : Bool) (tokens : List τ)
    (x : Course σ τ κ ω ε) (w : Walk π σ τ κ) (fails : Failure σ τ ε → Prop) : Prop where
  events_eq : w.events = x.tale m.initial
  state_eq : w.state = x.state
  moves_eq : w.moves = x.moves
  /-- The moves are along the tokens, up to the failure if there is one. -/
  tokens_isPrefix : x.moves.map (·.2.2) <+: tokens
  tokens_eq : x.failure = none → x.moves.map (·.2.2) = tokens
  /-- An error behind which nothing is told was raised at the start or behind a move. -/
  raised : ∀ e, x.failure = some (.raised e) →
    .finish ∉ x.invocations ∧ m.plan.Raised capturing x.invocations x.context e
  fails_of : ∀ f, x.failure = some f → fails f
  of_fails : ∀ f, fails f → x.failure = some f ∨
    x.failure = none ∧ ∃ e, f = .raised e ∧ m.plan.Raises capturing x.context w.context e .finish

namespace Run

variable {m : Machine π σ τ κ ω ε φ} {c : κ} {input : Input τ} {r : Run π σ τ κ ω ε φ}
  {xs : List (Except (Failure σ τ ε) ω)}

theorem Closes.strides_of_done (h : r.Closes m c input xs) (hd : r.phase = .done) :
    m.strides true r.cues (m.walk c) =
      m.strides true (Cue.ofTokens (input.front r.asked)) (m.walk c) := by
  have hcues : r.cues = input.cues r.asked := by rw [cues, hd, h.input_eq]
  by_cases hall : ∀ i < r.asked, (input i).isSome
  · -- no end has been met, so the last step has failed
    have hfails : ¬ ∀ s ∈ m.strides true r.cues (m.walk c), s.Succeeds := by
      intro hs
      obtain ⟨n, read, hn, hi, -⟩ := h.ends hd hs
      have hsome := hall n (by omega)
      rw [hi] at hsome
      cases hsome
    rw [hcues, Input.cues_of_isSome hall] at hfails ⊢
    rw [Cue.ofTokens, ← List.cons_append, Machine.strides_append_of_failure hfails]
  · obtain ⟨n, hn⟩ : ∃ n, r.asked = n + 1 := by
      refine Nat.exists_eq_succ_of_ne_zero fun h₀ => hall ?_
      rw [h₀]
      exact fun i hi => absurd hi i.not_lt_zero
    obtain ⟨hbefore, -⟩ := h.before n hn
    have hi : input n = none := by
      rw [← Option.not_isSome_iff_eq_none]
      refine fun hsome => hall fun i hlt => ?_
      obtain hlt | rfl := Nat.lt_succ_iff_lt_or_eq.1 (hn ▸ hlt)
      · exact hbefore i hlt
      · exact hsome
    rw [hcues, hn, Input.cues_succ, Input.cue_of_none hi, Input.cues_of_isSome hbefore,
      Input.front_succ_of_none hi]
    rfl

end Run

namespace Machine

variable {m : Machine π σ τ κ ω ε φ} {capturing : Bool} {c : κ} {tokens : List τ} {w : Walk π σ τ κ}

theorem tells_of_comesTo {fails : Failure σ τ ε → Prop}
    (hevents : w.events = (m.through capturing c tokens).tale m.initial)
    (hw : w.ComesTo (m.plan.course capturing (Cue.ofTokens tokens) m.initial c))
    (hf : ∀ f, fails f ↔
      (m.plan.course capturing (Cue.ofTokens tokens) m.initial c).failure = some f) :
    m.Tells capturing tokens (m.through capturing c tokens) w fails := by
  obtain ⟨hstate, hmoves, hfails, hends⟩ := m.course_ofTokens capturing c tokens
  obtain ⟨halong, hall⟩ :=
    m.plan.tokens_course capturing (.start :: tokens.map .token) m.initial c
  rw [List.filterMap_cons_none rfl, Cue.tokens_map] at halong hall
  refine ⟨hevents, hw.state_eq.trans hstate, hw.moves_eq.trans hmoves, halong, hall,
    fun e he => ⟨?_, ?_⟩, fun f h => (hf f).2 (hfails f h), fun f h => ?_⟩
  · intro hmem
    have hsub := m.plan.cue_invocations_sublist capturing (.start :: tokens.map .token) m.initial c
    have hcue := hsub.subset (List.mem_map_of_mem hmem)
    simp [Invocation.cue] at hcue
  · obtain ⟨t, -, ht⟩ | ⟨e', he', hraised⟩ := Plan.course_failure he
    · cases ht
    · cases he'
      exact hraised
  · rw [hw.context_eq]
    exact hends f ((hf f).1 h)

theorem tells_drive (hw : w.unrecorded = m.walk c) (tokens : List τ) :
    m.Tells false tokens (m.through false c tokens) (m.drive tokens w).walk
      fun f => (m.drive tokens w).result = .error f := by
  obtain ⟨hcomes, hfailure⟩ := m.drive_comesTo c hw tokens
  refine tells_of_comesTo ?_ hcomes fun f => ?_
  · rw [(m.drive_comesOf tokens w).1]
    exact events_ofTokens hw tokens
  · rw [← hfailure]
    cases (m.drive tokens w).result <;> simp [Failure.of?]

theorem tells_of_done {input : Input τ} {xs : List (Except (Failure σ τ ε) ω)}
    {r : Run π σ τ κ ω ε φ} (h : (m.run c input).Visits xs r) (hd : r.isDone = true) :
    let tokens := input.front r.asked
    m.Tells true tokens (m.through true c tokens) r.walk fun f => .error f ∈ xs := by
  intro tokens
  have hclose := h.closes
  have hss := hclose.strides_of_done (of_decide_eq_true hd)
  have hwalk := hclose.walk_eq
  have hitems := hclose.items_eq
  rw [hss] at hwalk hitems
  have hcomes := m.comesTo_course c true (Cue.ofTokens (input.front r.asked))
  rw [← hwalk] at hcomes
  refine tells_of_comesTo ?_ ⟨hcomes.1, hcomes.2, hcomes.3, hcomes.4⟩ fun f => ?_
  · rw [show r.walk.events = r.walk.unrecorded.events from rfl, hwalk]
    exact events_ofTokens rfl _
  · have hx : (m.plan.course true (Cue.ofTokens (input.front r.asked)) m.initial c).ShownBy (m.walk c)
        (m.strides true (Cue.ofTokens (input.front r.asked)) (m.walk c)) :=
      m.strides_course true (Cue.ofTokens (input.front r.asked)) (m.walk c)
    rw [← Course.error_mem_items, ← hx.items_eq, ← hitems]
    simp

theorem events_of_visits {input : Input τ} {xs : List (Except (Failure σ τ ε) ω)}
    {r : Run π σ τ κ ω ε φ} (h : (m.run c input).Visits xs r) :
    (r.phase = .start → r.walk.events = []) ∧
      (r.phase = .input → r.walk.events =
        .started m.initial :: (m.through true c (input.front r.asked)).moves.map .ofMove) := by
  have hfollows := h.follows
  have hwalk := congrArg Walk.events hfollows.walk_eq
  rw [show r.walk.unrecorded.events = r.walk.events from rfl] at hwalk
  refine ⟨fun hp => ?_, fun hp => ?_⟩
  · rw [hwalk, Run.cues, hp]
    rfl
  · have hne : r.phase ≠ .done := by rw [hp]; decide
    have hcues : r.cues = .start :: (input.front r.asked).map .token := by
      rw [Run.cues, hp, hfollows.input_eq]
      exact Input.cues_of_isSome (hfollows.isSome hne)
    have hx : (m.through true c (input.front r.asked)).failure = none := by
      have hs := (m.strides_course true r.cues (m.walk c)).succeeds_iff.1 (hfollows.succeeds hne)
      rwa [hcues] at hs
    obtain ⟨-, hevents⟩ :=
      events_through (c := c) (w := m.walk c) true rfl (input.front r.asked)
    rw [hwalk, hcues, hevents, hx, Event.ofFailure_none, List.append_nil]

theorem history_of_visits {input : Input τ} {xs : List (Except (Failure σ τ ε) ω)}
    {r : Run π σ τ κ ω ε φ} (h : (m.run c input).recording.Visits xs r) :
    r.history = some (.ofMoves r.walk.moves) := by
  have hstart : (m.run c input).recording.OnTrack m input Track.Complete :=
    ⟨rfl, rfl, ⟨rfl, rfl⟩, fun _ => rfl, fun _ => rfl⟩
  have htrack := (Run.onTrack_invariant Track.stable_complete).visits hstart h
  exact htrack.track.history_eq

theorem history_executeWithHistory (m : Machine π σ τ κ ω ε φ) (c : κ) (tokens : List τ) :
    (m.executeWithHistory c tokens).history =
      .ofMoves (m.executeWithHistory c tokens).walk.moves := by
  have htrack : (m.walk c).recording.track.Complete := ⟨rfl, rfl⟩
  obtain ⟨hcomplete, -⟩ :=
    drive_track Track.stable_complete htrack rfl (Input.gives_ofList tokens)
  have hh : (m.executeWithHistory c tokens).walk.history = _ := hcomplete.history_eq
  rw [Execution.history, hh]
  rfl

/-- **The events mirror the walk.** In an execution, whether or not it records, and in a run that has
come to its end, however it was polled, they are in order: the start with the first state, one event
for each token that a rule was found for, and then one for the end of the input if nothing has failed
there, with the last state and the number of tokens, whatever the action at the end does then; or one
for the token without a rule, if that is the failure, with the state and the number of tokens before
it; or none, if an action has failed. What is recorded from the beginning on has the moves that the
events tell of, each at its place. Before its end a run has told of its start and its moves, and one
that has never been polled of nothing. -/
theorem events_mirror (m : Machine π σ τ κ ω ε φ) (c : κ) :
    (∀ tokens,
      let x := m.through false c tokens
      let e := m.execute c tokens
      let e' := m.executeWithHistory c tokens
      m.Tells false tokens x e.walk (fun f => e.result = .error f) ∧
      m.Tells false tokens x e'.walk (fun f => e'.result = .error f) ∧
      e'.history = .ofMoves x.moves) ∧
    ∀ input,
      (∀ xs r, (m.run c input).Visits xs r →
        let tokens := input.front r.asked
        let x := m.through true c tokens
        (r.phase = .start → r.walk.events = []) ∧
        (r.phase = .input → r.walk.events = .started m.initial :: x.moves.map .ofMove) ∧
        (r.isDone = true → m.Tells true tokens x r.walk (.error · ∈ xs))) ∧
      (∀ xs last, (m.run c input).Plays xs last →
        let tokens := input.front last.asked
        let x := m.through true c tokens
        m.Tells true tokens x last.walk (.error · ∈ xs) ∧
        m.Tells true tokens x last.unrecorded.walk (.error · ∈ xs) ∧
        last.history = some (.ofMoves x.moves)) ∧
      ∀ requests, (∀ request ∈ requests, request.isPoll = false) →
        ((m.run c input).serve requests).walk.events = [] := by
  refine ⟨fun tokens => ⟨tells_drive rfl tokens, tells_drive rfl tokens, ?_⟩, fun input =>
    ⟨fun xs r h => ?_, fun xs last h => ?_, fun requests hrequests => ?_⟩⟩
  · have htells := tells_drive (m := m) (c := c) (w := (m.walk c).recording) rfl tokens
    rw [history_executeWithHistory, ← htells.moves_eq]
    rfl
  · obtain ⟨hstart, hinput⟩ := events_of_visits h
    exact ⟨hstart, hinput, tells_of_done h⟩
  · have hvisits := h.recording.visits
    have hdone : last.isDone = true := decide_eq_true h.recording.isOver.phase_eq
    have htells := tells_of_done (Run.Visits.refl.record.trans hvisits) hdone
    refine ⟨htells, tells_of_done h.unrecorded.visits hdone, ?_⟩
    rw [history_of_visits hvisits, htells.moves_eq]
  · have hu := (m.run c input).serve_unrecorded requests
    rw [List.filter_eq_nil_iff.2 fun request hr => by rw [hrequests request hr]; nofun] at hu
    exact congrArg (fun r : Run π σ τ κ ω ε φ => r.walk.events) hu

open Demo.Counter in
/-- The counter tells of a token that it has no rule for, and of no error of its actions; but of the
end of its input it tells even if the action there fails. -/
theorem events_mirror_counter :
    let broken : Action Nat Nat Unexpected Unit := Action.fail ⟨closed, 7⟩
    let breaking : Machine Empty String UInt8 Nat Nat Unexpected Nat :=
      { counter with table := .ofList [(counting, ⟨.any, closed, some fun _ _ _ => broken⟩)] }
    let unending : Machine Empty String UInt8 Nat Nat Unexpected Nat :=
      { counter with onFinish := some (Action.fail ⟨closed, 8⟩) }
    (counter.execute 7 [1, 0]).walk.events.map (·.notice.message) =
        ["mealy run started", "transition", "transition", "mealy run finished"] ∧
      (unending.execute 7 [1]).walk.events =
        [.started counting, .moved counting counting 1, .finished counting 1] ∧
      (breaking.executeWithHistory 7 [1, 1]).walk.events =
        [.started counting, .moved counting closed 1] ∧
      (breaking.executeWithHistory 7 [1, 1]).history = ⟨[⟨counting, closed, 0⟩]⟩ ∧
      ∃ last, (counter.run 7 (.ofList [1, 2])).Plays [.error (.unexpected ⟨counting, 2⟩)] last ∧
        last.unrecorded.walk.events =
          [.started counting, .moved counting counting 1, .stuck ⟨counting, 2⟩ 1] ∧
        last.history = some ⟨[⟨counting, counting, 0⟩]⟩ := by
  intro broken breaking unending
  obtain ⟨hexecute, hrun⟩ := events_mirror counter 7
  obtain ⟨-, hbroken, hhistory⟩ := (events_mirror breaking 7).1 [1, 1]
  obtain ⟨hunending, -⟩ := (events_mirror unending 7).1 [1]
  have hplays : (counter.run 7 (.ofList [1, 2])).Plays [.error (.unexpected ⟨counting, 2⟩)] _ :=
    ((counter.run 7 (.ofList [1, 2])).recording.drains_items rfl rfl [1, 2]
      (Input.gives_ofList [1, 2])).plays
  obtain ⟨-, htells, hrecorded⟩ := (hrun (.ofList [1, 2])).2.1 _ _ hplays
  refine ⟨?_, hunending.events_eq, hbroken.events_eq, hhistory, _, hplays, htells.events_eq,
    hrecorded⟩
  rw [(hexecute [1, 0]).1.events_eq]
  rfl

end Machine

end Transducer
