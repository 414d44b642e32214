import Transducer.Proofs.Streams

/-!
# Courses

What is to come of a run, said without its phases, its waiting outputs and its journal: a fold over
the cues, with a state and a context for its only memory.

* `Plan`: what a machine does, with the rule to follow for each state and token.
* `Leg`, `Plan.leg`: what one cue leads to.
* `Course`, `Plan.course`: what a list of cues leads to, up to the first leg that fails.
* `Course.items`: the items of the course, and **the one failure behind them**.
* `Walk.moves`, `Walk.invocations`: the moves made and the actions invoked, as a journal has them.
* `Machine.strides_course`: **the steps of a walk are the course of its machine's plan.**
-/

namespace Transducer

variable {π σ τ κ ω ε φ α : Type}

/-- What a machine does. -/
structure Plan (π σ τ κ ω ε φ : Type) where
  initial : σ
  onStart : Option (Action κ ω ε Unit)
  onFinish : Option (Action κ ω ε φ)
  /-- The rule to follow in a state for a token. -/
  rule? : σ → τ → Option (Rule π σ τ (Reaction σ τ κ ω ε))

/-- The first rule of the state whose label is for the token. -/
def Machine.plan [DecidableEq σ] [BEq τ] [Pattern π τ] (m : Machine π σ τ κ ω ε φ) :
    Plan π σ τ κ ω ε φ :=
  ⟨m.initial, m.onStart, m.onFinish, fun s t => (m.table.rules s).find? (·.label.admits t)⟩

/-- What one cue leads to. -/
structure Leg (σ τ κ ω ε : Type) where
  /-- The move from a state to a state for a token, if there is one. -/
  move : Option (σ × σ × τ)
  /-- The action that is invoked, if there is one. -/
  invocation : Option (Invocation σ τ)
  state : σ
  context : κ
  /-- The outputs; those of an action that fails are lost. -/
  result : Except (Failure σ τ ε) (List ω)

/-- The leg of an action, if there is one, behind a move to a state, if there is one. -/
def Leg.acting (move : Option (σ × σ × τ)) (i : Invocation σ τ) (s : σ) (capturing : Bool) (c : κ) :
    Option (Action κ ω ε α) → Leg σ τ κ ω ε
  | none => ⟨move, none, s, c, .ok []⟩
  | some action =>
    let o := action capturing c
    ⟨move, some i, s, o.context,
      match o.result with
      | .ok _ => .ok o.emits
      | .error e => .error (.raised e)⟩

section

variable (move : Option (σ × σ × τ)) (i : Invocation σ τ) (s : σ) (capturing : Bool) (c : κ)
  (action : Option (Action κ ω ε α))

@[simp] theorem Leg.state_acting : (acting move i s capturing c action).state = s := by
  cases action <;> rfl

@[simp] theorem Leg.move_acting : (acting move i s capturing c action).move = move := by
  cases action <;> rfl

end

/-- What a list of cues leads to. -/
structure Course (σ τ κ ω ε : Type) where
  /-- The outputs of the legs that do not fail. -/
  outputs : List ω
  /-- Why the last leg fails, if it does. -/
  failure : Option (Failure σ τ ε)
  moves : List (σ × σ × τ)
  invocations : List (Invocation σ τ)
  state : σ
  context : κ

/-- The outputs, and the failure behind them if there is one. -/
def Course.items (x : Course σ τ κ ω ε) : List (Except (Failure σ τ ε) ω) :=
  x.outputs.map .ok ++ (x.failure.map .error).toList

theorem Course.error_mem_items {x : Course σ τ κ ω ε} {f : Failure σ τ ε} :
    .error f ∈ x.items ↔ x.failure = some f := by
  rw [items]
  cases x.failure <;> simp [eq_comm]

/-- The token that the cue is. -/
def Cue.token? : Cue τ → Option τ
  | .token t => some t
  | _ => none

theorem Cue.tokens_map (tokens : List τ) : (tokens.map Cue.token).filterMap Cue.token? = tokens := by
  rw [List.filterMap_map]
  exact List.filterMap_some

theorem Cue.tokens_ofTokens (tokens : List τ) :
    (Cue.ofTokens tokens).filterMap Cue.token? = tokens := by
  rw [Cue.ofTokens, List.filterMap_cons_none rfl, List.filterMap_append, tokens_map]
  exact List.append_nil tokens

theorem Input.tokens_cues {input : Input τ} {n : Nat} (h : ∀ i < n, (input i).isSome) :
    (input.cues n).filterMap Cue.token? = input.front n := by
  rw [cues_of_isSome h, List.filterMap_cons_none rfl, Cue.tokens_map]

namespace Plan

variable (p : Plan π σ τ κ ω ε φ) (capturing : Bool)

/-- What a cue leads to from a state and a context. Without a rule for the token, everything stays
as it is. -/
def leg (s : σ) (c : κ) : Cue τ → Leg σ τ κ ω ε
  | .start => .acting none .start p.initial capturing c p.onStart
  | .token t =>
    match p.rule? s t with
    | none => ⟨none, none, s, c, .error (.unexpected ⟨s, t⟩)⟩
    | some rule =>
      .acting (some (s, rule.target, t)) (.reaction t s rule.target) rule.target capturing c
        (rule.action.map fun react => react t s rule.target)
  | .finish => .acting none .finish s capturing c p.onFinish

/-- What a list of cues leads to from a state and a context, up to the first leg that fails. -/
def course : List (Cue τ) → σ → κ → Course σ τ κ ω ε
  | [], s, c => ⟨[], none, [], [], s, c⟩
  | q :: rest, s, c =>
    let l := p.leg capturing s c q
    match l.result with
    | .error e => ⟨[], some e, l.move.toList, l.invocation.toList, l.state, l.context⟩
    | .ok ws =>
      let x := course rest l.state l.context
      { x with
        outputs := ws ++ x.outputs
        moves := l.move.toList ++ x.moves
        invocations := l.invocation.toList ++ x.invocations }

section

variable {p capturing} {q : Cue τ} {cues rest : List (Cue τ)} {s : σ} {c : κ}

theorem course_cons_of_error {e : Failure σ τ ε} (h : (p.leg capturing s c q).result = .error e) :
    let l := p.leg capturing s c q
    p.course capturing (q :: rest) s c =
      ⟨[], some e, l.move.toList, l.invocation.toList, l.state, l.context⟩ := by
  rw [course, h]

theorem course_cons_of_ok {ws : List ω} (h : (p.leg capturing s c q).result = .ok ws) :
    let l := p.leg capturing s c q
    let x := p.course capturing rest l.state l.context
    p.course capturing (q :: rest) s c = ⟨ws ++ x.outputs, x.failure, l.move.toList ++ x.moves,
      l.invocation.toList ++ x.invocations, x.state, x.context⟩ := by
  rw [course, h]

theorem course_append (h : (p.course capturing cues s c).failure = none) (more : List (Cue τ)) :
    let x := p.course capturing cues s c
    let y := p.course capturing more x.state x.context
    p.course capturing (cues ++ more) s c = ⟨x.outputs ++ y.outputs, y.failure, x.moves ++ y.moves,
      x.invocations ++ y.invocations, y.state, y.context⟩ := by
  induction cues generalizing s c with
  | nil => rfl
  | cons q rest ih =>
    cases hr : (p.leg capturing s c q).result with
    | error e =>
      rw [course_cons_of_error hr] at h
      cases h
    | ok ws =>
      rw [course_cons_of_ok hr] at h
      rw [List.cons_append, course_cons_of_ok hr, course_cons_of_ok hr]
      simp only [ih h, List.append_assoc]

theorem course_append_of_failure (h : (p.course capturing cues s c).failure ≠ none)
    (more : List (Cue τ)) :
    p.course capturing (cues ++ more) s c = p.course capturing cues s c := by
  induction cues generalizing s c with
  | nil => exact absurd rfl h
  | cons q rest ih =>
    rw [List.cons_append]
    cases hr : (p.leg capturing s c q).result with
    | error e => rw [course_cons_of_error hr, course_cons_of_error hr]
    | ok ws =>
      rw [course_cons_of_ok hr] at h
      rw [course_cons_of_ok hr, course_cons_of_ok hr, ih h]

end

theorem tokens_leg (s : σ) (c : κ) (q : Cue τ) :
    let l := p.leg capturing s c q
    l.move.toList.map (·.2.2) = q.token?.toList ∨ l.move = none ∧ ∃ f, l.result = .error f := by
  cases q with
  | start => exact .inl (by rw [leg, Leg.move_acting]; rfl)
  | finish => exact .inl (by rw [leg, Leg.move_acting]; rfl)
  | token t =>
    rw [leg]
    cases p.rule? s t with
    | none => exact .inr ⟨rfl, _, rfl⟩
    | some rule => exact .inl (by simp only [Leg.move_acting]; rfl)

/-- A course moves along its tokens in their order: all of them, unless it fails. -/
theorem tokens_course (cues : List (Cue τ)) (s : σ) (c : κ) :
    let x := p.course capturing cues s c
    x.moves.map (·.2.2) <+: cues.filterMap Cue.token? ∧
      (x.failure = none → x.moves.map (·.2.2) = cues.filterMap Cue.token?) := by
  induction cues generalizing s c with
  | nil => exact ⟨List.prefix_rfl, fun _ => rfl⟩
  | cons q rest ih =>
    have hq := p.tokens_leg capturing s c q
    have hcons : (q :: rest).filterMap Cue.token? = q.token?.toList ++ rest.filterMap Cue.token? := by
      cases q <;> rfl
    rw [hcons]
    cases hr : (p.leg capturing s c q).result with
    | error f =>
      rw [course_cons_of_error hr]
      refine ⟨?_, nofun⟩
      obtain hq | ⟨hn, -⟩ := hq
      · exact hq ▸ List.prefix_append _ _
      · simp only [hn]
        exact List.nil_prefix
    | ok ws =>
      obtain hq | ⟨-, f, hf⟩ := hq
      · obtain ⟨hinitial, hall⟩ := ih (p.leg capturing s c q).state (p.leg capturing s c q).context
        rw [course_cons_of_ok hr]
        simp only [List.map_append, hq]
        exact ⟨(List.prefix_append_right_inj _).2 hinitial, fun hx => by rw [hall hx]⟩
      · rw [hf] at hr
        cases hr

end Plan

/-! ## Journals -/

/-- The move that the line tells of. -/
def Entry.move? : Entry π σ τ → Option (σ × σ × τ)
  | .event (.moved s s' t) => some (s, s', t)
  | _ => none

namespace Walk

/-- The moves made so far: the state before, the state after and the token. -/
def moves (w : Walk π σ τ κ) : List (σ × σ × τ) := w.journal.filterMap Entry.move?

/-- The actions invoked so far. -/
def invocations (w : Walk π σ τ κ) : List (Invocation σ τ) :=
  w.journal.filterMap Entry.invocation?

variable (w : Walk π σ τ κ)

@[simp] theorem moves_note (entries : List (Entry π σ τ)) :
    (w.note entries).moves = w.moves ++ entries.filterMap Entry.move? :=
  List.filterMap_append

@[simp] theorem invocations_note (entries : List (Entry π σ τ)) :
    (w.note entries).invocations = w.invocations ++ entries.filterMap Entry.invocation? :=
  List.filterMap_append

@[simp] theorem moves_tested (labels : List (Label π τ)) (t : τ) :
    (w.note (labels.map (.tested · t))).moves = w.moves := by
  simp [List.filterMap_eq_nil_iff, Entry.move?]

@[simp] theorem invocations_tested (labels : List (Label π τ)) (t : τ) :
    (w.note (labels.map (.tested · t))).invocations = w.invocations := by
  simp [List.filterMap_eq_nil_iff, Entry.invocation?]

@[simp] theorem moves_event (e : Event σ τ) :
    (w.note [.event e]).moves = w.moves ++ (Entry.event e : Entry π σ τ).move?.toList := by
  rw [moves_note, List.filterMap_cons, List.filterMap_nil]
  cases (Entry.event e : Entry π σ τ).move? <;> rfl

@[simp] theorem invocations_event (e : Event σ τ) :
    (w.note [.event e]).invocations = w.invocations := by
  rw [invocations_note]
  exact List.append_nil _

@[simp] theorem moves_move (s : σ) (t : τ) :
    (w.move s t).moves = w.moves ++ [(w.state, s, t)] :=
  w.moves_event _

@[simp] theorem invocations_move (s : σ) (t : τ) : (w.move s t).invocations = w.invocations :=
  w.invocations_event _

end Walk

/-! ## The steps of a walk -/

/-- The step of a walk comes to a leg. -/
structure Stride.Shows (s : Stride π σ τ κ ω ε α) (w : Walk π σ τ κ) (l : Leg σ τ κ ω ε) :
    Prop where
  state_eq : s.walk.state = l.state
  context_eq : s.walk.context = l.context
  moves_eq : s.walk.moves = w.moves ++ l.move.toList
  invocations_eq : s.walk.invocations = w.invocations ++ l.invocation.toList
  result_eq : (s.result.map fun _ => s.emits) = l.result

/-- The steps of a walk come to a course. -/
structure Course.ShownBy (x : Course σ τ κ ω ε) (w : Walk π σ τ κ)
    (ss : List (Stride π σ τ κ ω ε α)) : Prop where
  state_eq : (w.after ss).state = x.state
  context_eq : (w.after ss).context = x.context
  moves_eq : (w.after ss).moves = w.moves ++ x.moves
  invocations_eq : (w.after ss).invocations = w.invocations ++ x.invocations
  items_eq : ss.flatMap Stride.items = x.items
  failure_eq : (ss.getLast?.map (·.result)).bind Failure.of? = x.failure
  succeeds_iff : (∀ s ∈ ss, s.Succeeds) ↔ x.failure = none

theorem Course.ShownBy.outputs_eq {x : Course σ τ κ ω ε} {w : Walk π σ τ κ}
    {ss : List (Stride π σ τ κ ω ε α)} (h : x.ShownBy w ss) (hx : x.failure = none) :
    x.outputs = ss.flatMap (·.emits) := by
  have hi := h.items_eq
  rw [Stride.flatMap_items (h.succeeds_iff.2 hx), Course.items, hx] at hi
  exact ((List.map_inj_right fun _ _ => Except.ok.inj).1 (hi.trans (List.append_nil _))).symm

theorem Walk.invoke_shows {w v : Walk π σ τ κ} {move : Option (σ × σ × τ)}
    (hm : v.moves = w.moves ++ move.toList) (hi : v.invocations = w.invocations)
    (i : Invocation σ τ) (capturing : Bool) (action : Option (Action κ ω ε α)) :
    (v.invoke i capturing action).Shows w (.acting move i v.state capturing v.context action) := by
  cases action with
  | none => exact ⟨rfl, rfl, hm, by rw [invoke, hi]; exact (List.append_nil _).symm, rfl⟩
  | some a =>
    have hm' : (v.note [.invoked i]).moves = w.moves ++ move.toList := by
      rw [moves_note, hm]
      exact List.append_nil _
    have hi' : (v.note [.invoked i]).invocations = w.invocations ++ [i] := by
      rw [invocations_note, hi]
      rfl
    simp only [invoke, Leg.acting]
    cases (a capturing v.context).result <;> exact ⟨rfl, rfl, hm', hi', rfl⟩

theorem Stride.Shows.map {s : Stride π σ τ κ ω ε α} {w : Walk π σ τ κ} {l : Leg σ τ κ ω ε}
    (h : s.Shows w l) {β : Type} (f : α → β) : (s.map f).Shows w l := by
  refine ⟨h.state_eq, h.context_eq, h.moves_eq, h.invocations_eq, ?_⟩
  rw [← h.result_eq, Stride.map]
  cases s.result <;> rfl

theorem Walk.value_invoke {w : Walk π σ τ κ} {i : Invocation σ τ} {capturing : Bool}
    {a : Option (Action κ ω ε α)} {v : Option α} (h : (w.invoke i capturing a).result = .ok v) :
    a.map (fun action => (action capturing w.context).result) = v.map .ok := by
  cases a with
  | none => cases h; rfl
  | some action =>
    simp only [invoke] at h
    rw [Option.map_some]
    cases hr : (action capturing w.context).result with
    | ok x => rw [hr] at h; cases h; rfl
    | error e => rw [hr] at h; cases h

variable [DecidableEq σ] [BEq τ] [Pattern π τ]

namespace Machine

variable (m : Machine π σ τ κ ω ε φ) (capturing : Bool)

theorem advance_shows (t : τ) (w : Walk π σ τ κ) :
    (m.advance capturing t w).Shows w (m.plan.leg capturing w.state w.context (.token t)) := by
  have hf : (m.table.scan w.state t).found = m.plan.rule? w.state t := Scan.found_ofRules ..
  rw [advance, Plan.leg]
  cases hr : m.plan.rule? w.state t with
  | none =>
    simp only [hf, hr]
    refine ⟨rfl, rfl, ?_, ?_, rfl⟩
    · rw [Walk.moves_event, Walk.moves_tested]
      rfl
    · rw [Walk.invocations_event, Walk.invocations_tested]
      exact (List.append_nil _).symm
  | some rule =>
    simp only [hf, hr]
    refine (Walk.invoke_shows ?_ ?_ ..).map _
    · rw [Walk.moves_move, Walk.moves_tested]
      rfl
    · rw [Walk.invocations_move, Walk.invocations_tested]

theorem stride_shows (q : Cue τ) (w : Walk π σ τ κ) :
    (m.stride capturing q w).Shows w (m.plan.leg capturing w.state w.context q) := by
  cases q with
  | start =>
    exact ((Walk.invoke_shows (v := { w.note [.event (.started m.initial)] with state := m.initial })
      (w.moves_event _) (w.invocations_event _) ..).map _).map _
  | token t => exact (m.advance_shows capturing t w).map _
  | finish => exact Walk.invoke_shows (w.moves_event _) (w.invocations_event _) ..

/-- **The steps of a walk are the course of its machine's plan.** -/
theorem strides_course (cues : List (Cue τ)) (w : Walk π σ τ κ) :
    (m.plan.course capturing cues w.state w.context).ShownBy w (m.strides capturing cues w) := by
  induction cues generalizing w with
  | nil =>
    exact ⟨rfl, rfl, (List.append_nil _).symm, (List.append_nil _).symm, rfl, rfl,
      iff_of_true (fun _ h => absurd h List.not_mem_nil) rfl⟩
  | cons q rest ih =>
    have hl := m.stride_shows capturing q w
    have hr := hl.result_eq
    rw [Plan.course]
    cases hs : (m.stride capturing q w).result with
    | error e =>
      -- the leg that fails is the last one, whatever cues there are behind it
      rw [hs] at hr
      rw [strides_cons_of_error hs]
      simp only [← hr, Except.map]
      refine ⟨hl.state_eq, hl.context_eq, hl.moves_eq, hl.invocations_eq, ?_, ?_, ?_⟩
      · rw [List.flatMap_singleton, Stride.items_of_error hs]
        rfl
      · simp [hs, Failure.of?]
      · refine iff_of_false (fun h => ?_) (Option.some_ne_none e)
        obtain ⟨v, hv⟩ := h _ (List.mem_singleton.2 rfl)
        rw [hs] at hv
        cases hv
    | ok v =>
      rw [hs] at hr
      rw [strides_cons_of_ok hs]
      simp only [← hr, Except.map]
      have hx := ih (m.stride capturing q w).walk
      rw [hl.state_eq, hl.context_eq] at hx
      refine ⟨hx.state_eq, hx.context_eq, ?_, ?_, ?_, ?_, ?_⟩
      · exact hx.moves_eq.trans (by rw [hl.moves_eq, List.append_assoc])
      · exact hx.invocations_eq.trans (by rw [hl.invocations_eq, List.append_assoc])
      · rw [List.flatMap_cons, Stride.items_of_ok hs, hx.items_eq]
        simp [Course.items]
      · rw [← hx.failure_eq]
        exact Stride.failure?_cons hs
      · rw [← hx.succeeds_iff, List.forall_mem_cons]
        exact and_iff_right ⟨v, hs⟩

end Machine

/-! ## Runs -/

theorem Run.drains_items {r : Run π σ τ κ ω ε φ} (hp : r.pending = []) (hr : r.phase = .start)
    (tokens : List τ) (h : r.input.Gives r.asked tokens) :
    let ss := r.machine.strides true (Cue.ofTokens tokens) r.walk
    r.Drains (r.machine.plan.course true (Cue.ofTokens tokens) r.walk.state r.walk.context).items
      (r.ended ss (r.asked + (ss.length - 1))) := by
  rw [← (r.machine.strides_course true (Cue.ofTokens tokens) r.walk).items_eq]
  exact drains_start hp hr tokens h

/-- A walk has come to a course: it stands where the course ends, and its journal tells of the moves
and the actions of the course. -/
structure Walk.ComesTo (w : Walk π σ τ κ) (x : Course σ τ κ ω ε) : Prop where
  state_eq : w.state = x.state
  context_eq : w.context = x.context
  moves_eq : w.moves = x.moves
  invocations_eq : w.invocations = x.invocations

namespace Machine

variable (m : Machine π σ τ κ ω ε φ) (c : κ)

theorem comesTo_course (capturing : Bool) (cues : List (Cue τ)) :
    ((m.walk c).after (m.strides capturing cues (m.walk c))).ComesTo
      (m.plan.course capturing cues m.initial c) := by
  obtain ⟨hs, hc, hm, hi, -⟩ := m.strides_course capturing cues (m.walk c)
  exact ⟨hs, hc, hm, hi⟩

theorem failure_drive (tokens : List τ) (w : Walk π σ τ κ) :
    Failure.of? (m.drive tokens w).result =
      (m.plan.course false (Cue.ofTokens tokens) w.state w.context).failure := by
  obtain ⟨-, -, hr⟩ := m.drive_comesOf tokens w
  rw [← (m.strides_course false (Cue.ofTokens tokens) w).failure_eq, hr, Option.bind_some]

/-- An execution comes to the course of its tokens, whether or not it records. -/
theorem drive_comesTo {w : Walk π σ τ κ} (hw : w.unrecorded = m.walk c) (tokens : List τ) :
    let x := m.plan.course false (Cue.ofTokens tokens) m.initial c
    (m.drive tokens w).walk.ComesTo x ∧ Failure.of? (m.drive tokens w).result = x.failure := by
  have hstate : w.state = m.initial := congrArg Walk.state hw
  have hcontext : w.context = c := congrArg Walk.context hw
  have hmoves : w.moves = [] := congrArg Walk.moves hw
  have hinvocations : w.invocations = [] := congrArg Walk.invocations hw
  obtain ⟨hs, hc, hm, hi, -⟩ := m.strides_course false (Cue.ofTokens tokens) w
  rw [hmoves] at hm
  rw [hinvocations] at hi
  rw [← (m.drive_comesOf tokens w).1, hstate, hcontext] at hs hc hm hi
  refine ⟨⟨hs, hc, hm, hi⟩, ?_⟩
  rw [failure_drive, hstate, hcontext]

/-- The value of an execution that does not fail is the one of the action at the end, if there is
one. -/
theorem drive_value {tokens : List τ} {w : Walk π σ τ κ} {v : Option φ}
    (h : (m.drive tokens w).result = .ok v) :
    let x := m.plan.course false (.start :: tokens.map .token) w.state w.context
    m.onFinish.map (fun finish => (finish false x.context).result) = v.map .ok := by
  intro x
  have hx := m.strides_course false (Cue.ofTokens tokens) w
  have hf := m.failure_drive tokens w
  rw [h] at hf
  have hs : ∀ s ∈ m.strides false (.start :: tokens.map .token) w, s.Succeeds :=
    succeeds_of_append (hx.succeeds_iff.2 hf.symm)
  obtain ⟨-, -, hr⟩ := m.drive_comesOf tokens w
  rw [h, Cue.ofTokens, ← List.cons_append, strides_append hs, strides_singleton,
    List.getLast?_concat, Option.map_some] at hr
  have hv := Option.some.inj hr
  rw [stride, finish] at hv
  have hc := (m.strides_course false (.start :: tokens.map .token) w).context_eq
  rw [show x.context = _ from hc.symm]
  have hvalue := Walk.value_invoke hv
  exact hvalue

/-- A run that stands behind the steps for its cues has come to their course, and the items given and
the outputs that wait are those of the course; only a run that is done has failed. -/
theorem follows_course {input : Input τ} {xs : List (Except (Failure σ τ ε) ω)}
    {r : Run π σ τ κ ω ε φ} (h : r.Follows m c input xs) :
    let x := m.plan.course true r.cues m.initial c
    r.walk.ComesTo x ∧ xs ++ r.pending.map .ok = x.items ∧
      (r.isDone = false → x.failure = none) := by
  intro x
  have hx := m.strides_course true r.cues (m.walk c)
  obtain ⟨hs, hc, hm, hi⟩ := m.comesTo_course c true r.cues
  rw [← h.walk_eq] at hs hc hm hi
  exact ⟨⟨hs, hc, hm, hi⟩, h.items_eq.trans hx.items_eq,
    fun hd => hx.succeeds_iff.1 (h.succeeds (of_decide_eq_false hd))⟩

theorem visits_course {input : Input τ} {xs : List (Except (Failure σ τ ε) ω)}
    {r : Run π σ τ κ ω ε φ} (h : (m.run c input).Visits xs r) :
    let x := m.plan.course true r.cues m.initial c
    r.walk.ComesTo x ∧ xs ++ r.pending.map .ok = x.items ∧
      (r.isDone = false → x.failure = none) :=
  m.follows_course c h.follows

theorem drains_course {input : Input τ} {tokens : List τ} (h : input.Gives 0 tokens) :
    let x := m.plan.course true (Cue.ofTokens tokens) m.initial c
    ∃ last, (m.run c input).Drains x.items last ∧ last.walk.ComesTo x := by
  intro x
  have hd := (m.run c input).drains_items rfl rfl tokens h
  exact ⟨_, hd, m.comesTo_course c true _⟩

/-- **Polls up to the end give the items of the course, and nothing happens on the way but its moves
and its actions.** -/
theorem drains_run_iff (tokens : List τ) (turn : UnexpectedToken σ τ → ε) :
    let x := m.plan.course true (Cue.ofTokens tokens) m.initial c
    ∃ last : Run π σ τ κ ω ε φ, last.walk.ComesTo x ∧
      (∀ items r, (m.run c (.ofList tokens)).Drains items r ↔ items = x.items ∧ r = last) ∧
      x.items.map (Except.mapError (Failure.into turn)) =
        x.outputs.map .ok ++ (x.failure.map fun e => .error (e.into turn)).toList := by
  intro x
  obtain ⟨last, hd, hx⟩ := m.drains_course c (Input.gives_ofList tokens)
  refine ⟨last, hx, fun items r => hd.iff, ?_⟩
  rw [Course.items, List.map_append, List.map_map]
  cases x.failure <;> rfl

end Machine

end Transducer
