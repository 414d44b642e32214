import Mathlib.Data.Set.Basic
import Transducer.Proofs.Endings

/-!
# Tokens without a rule

A run stops for want of a rule only in a state that it can be in, and only if none of its rules is for
the token. So a machine whose rules do not lead out of a set of states, and are for every token there,
stops for nothing but the errors of its own actions.

* `Plan.Raises`, `Plan.Raised`: an action of the plan fails, and it was the last one invoked.
* `Plan.course_failure`: **why a course fails**: there is no rule where it ends, or the last action
  that it invokes has failed.
* `Plan.Closed`, `Plan.Closed.course_mem`: **a course does not leave a closed set of states.**
* `Machine.Closed`, `Machine.Covered`: the rules of a table do not lead out of a set of states, and
  are for every token in each of them.
* `Machine.rejects_only_uncovered`: **a covered machine rejects no token**, and what any machine
  rejects its table does not cover.
-/

namespace Transducer

variable {π σ τ κ ω ε φ α : Type}

/-- The action for the invocation, invoked in the first context, fails with the error and leaves the
second one. -/
inductive Plan.Raises (p : Plan π σ τ κ ω ε φ) (capturing : Bool) (c c' : κ) (e : ε) :
    Invocation σ τ → Prop
  | start {action : Action κ ω ε Unit} {ws : List ω} :
      p.onStart = some action → action capturing c = ⟨c', ws, .error e⟩ →
        p.Raises capturing c c' e .start
  | reaction {s : σ} {t : τ} {rule : Rule π σ τ (Reaction σ τ κ ω ε)} {react : Reaction σ τ κ ω ε}
      {ws : List ω} :
      p.rule? s t = some rule → rule.action = some react →
        react t s rule.target capturing c = ⟨c', ws, .error e⟩ →
          p.Raises capturing c c' e (.reaction t s rule.target)
  | finish {action : Action κ ω ε φ} {ws : List ω} :
      p.onFinish = some action → action capturing c = ⟨c', ws, .error e⟩ →
        p.Raises capturing c c' e .finish

/-- The last of the actions invoked has failed with the error, and has left the context. -/
def Plan.Raised (p : Plan π σ τ κ ω ε φ) (capturing : Bool) (invocations : List (Invocation σ τ))
    (c' : κ) (e : ε) : Prop :=
  ∃ before i c, invocations = before ++ [i] ∧ p.Raises capturing c c' e i

/-- The walk has been in no state but those of the set. -/
structure Walk.Within (w : Walk π σ τ κ) (S : Set σ) : Prop where
  state_mem : w.state ∈ S
  moves_mem : ∀ move ∈ w.moves, move.1 ∈ S ∧ move.2.1 ∈ S

/-! ## Why a course fails -/

namespace Plan

variable {p : Plan π σ τ κ ω ε φ} {capturing : Bool} {s : σ} {c : κ} {f : Failure σ τ ε}
  {cues : List (Cue τ)} {S : Set σ}

theorem acting_failure {move : Option (σ × σ × τ)} {i : Invocation σ τ}
    {a : Option (Action κ ω ε α)} (h : (Leg.acting move i s capturing c a).result = .error f) :
    ∃ action c' ws e, a = some action ∧ action capturing c = ⟨c', ws, .error e⟩ ∧ f = .raised e ∧
      (Leg.acting move i s capturing c a).invocation = some i ∧
      (Leg.acting move i s capturing c a).context = c' := by
  cases a with
  | none => cases h
  | some action =>
    rw [Leg.acting] at h
    cases ho : action capturing c with
    | mk c' ws result =>
      rw [ho] at h
      cases result with
      | ok v => cases h
      | error e =>
        cases h
        exact ⟨action, c', ws, e, rfl, ho, rfl, rfl, congrArg Outcome.context ho⟩

theorem leg_failure {q : Cue τ} (h : (p.leg capturing s c q).result = .error f) :
    let l := p.leg capturing s c q
    (∃ t, q = .token t ∧ p.rule? s t = none ∧ f = .unexpected ⟨s, t⟩ ∧ l.state = s) ∨
      ∃ i e, f = .raised e ∧ l.invocation = some i ∧ p.Raises capturing c l.context e i := by
  cases q with
  | start =>
    obtain ⟨action, c', ws, e, ha, ho, rfl, hi, hc⟩ := acting_failure h
    exact .inr ⟨.start, e, rfl, hi, .start ha (hc ▸ ho)⟩
  | finish =>
    obtain ⟨action, c', ws, e, ha, ho, rfl, hi, hc⟩ := acting_failure h
    exact .inr ⟨.finish, e, rfl, hi, .finish ha (hc ▸ ho)⟩
  | token t =>
    rw [leg] at h ⊢
    cases hr : p.rule? s t with
    | none =>
      rw [hr] at h
      cases h
      exact .inl ⟨t, rfl, hr, rfl, rfl⟩
    | some rule =>
      simp only [hr] at h ⊢
      obtain ⟨action, c', ws, e, ha, ho, rfl, hi, hc⟩ := acting_failure h
      obtain ⟨react, hreact, rfl⟩ := Option.map_eq_some_iff.1 ha
      exact .inr ⟨_, e, rfl, hi, .reaction hr hreact (hc ▸ ho)⟩

/-- **Why a course fails**: there is no rule where it ends, or the last action that it invokes has
failed. -/
theorem course_failure (h : (p.course capturing cues s c).failure = some f) :
    let x := p.course capturing cues s c
    (∃ t, p.rule? x.state t = none ∧ f = .unexpected ⟨x.state, t⟩) ∨
      ∃ e, f = .raised e ∧ p.Raised capturing x.invocations x.context e := by
  induction cues generalizing s c with
  | nil => cases h
  | cons q rest ih =>
    cases hr : (p.leg capturing s c q).result with
    | error e =>
      rw [course_cons_of_error hr] at h ⊢
      obtain rfl := Option.some.inj h
      obtain ⟨t, -, ht, rfl, hs⟩ | ⟨i, e, rfl, hi, he⟩ := leg_failure hr
      · exact .inl ⟨t, hs.symm ▸ ht, by rw [hs]⟩
      · exact .inr ⟨e, rfl, [], i, c, by rw [hi]; rfl, he⟩
    | ok ws =>
      rw [course_cons_of_ok hr] at h ⊢
      obtain ht | ⟨e, he, before, i, c', hi, hraises⟩ := ih h
      · exact .inl ht
      · exact .inr ⟨e, he, _ ++ before, i, c', by rw [hi, List.append_assoc], hraises⟩

theorem course_finish (p : Plan π σ τ κ ω ε φ) (capturing : Bool) (s : σ) (c : κ) :
    let z := p.course capturing [.finish] s c
    z.moves = [] ∧ z.state = s ∧
      ∀ f, z.failure = some f → ∃ e, f = .raised e ∧ p.Raises capturing c z.context e .finish := by
  have hmove : (p.leg capturing s c .finish).move = none := Leg.move_acting ..
  have hstate : (p.leg capturing s c .finish).state = s := Leg.state_acting ..
  cases hr : (p.leg capturing s c .finish).result with
  | ok ws =>
    rw [course_cons_of_ok hr, hmove]
    exact ⟨rfl, hstate, nofun⟩
  | error f =>
    rw [course_cons_of_error hr, hmove]
    refine ⟨rfl, hstate, fun f' hf => ?_⟩
    obtain rfl := Option.some.inj hf
    obtain ⟨action, c', ws, e, ha, ho, rfl, -, hc⟩ := acting_failure hr
    exact ⟨e, rfl, .finish ha (hc ▸ ho)⟩

/-! ## Closed sets of states -/

/-- The plan begins in the set, and no rule to follow leads out of it. -/
structure Closed (p : Plan π σ τ κ ω ε φ) (S : Set σ) : Prop where
  initial_mem : p.initial ∈ S
  target_mem : ∀ s ∈ S, ∀ t rule, p.rule? s t = some rule → rule.target ∈ S

theorem Closed.leg_mem (h : p.Closed S) (capturing : Bool) (c : κ) (hs : s ∈ S) (q : Cue τ) :
    (p.leg capturing s c q).state ∈ S ∧
      ∀ move ∈ (p.leg capturing s c q).move.toList, move.1 ∈ S ∧ move.2.1 ∈ S := by
  cases q with
  | start =>
    rw [leg, Leg.state_acting, Leg.move_acting]
    exact ⟨h.initial_mem, fun _ hm => absurd hm List.not_mem_nil⟩
  | finish =>
    rw [leg, Leg.state_acting, Leg.move_acting]
    exact ⟨hs, fun _ hm => absurd hm List.not_mem_nil⟩
  | token t =>
    rw [leg]
    cases hr : p.rule? s t with
    | none => exact ⟨hs, fun _ hm => absurd hm List.not_mem_nil⟩
    | some rule =>
      have ht : rule.target ∈ S := h.target_mem s hs t rule hr
      simp only [Leg.state_acting, Leg.move_acting]
      exact ⟨ht, List.forall_mem_singleton.2 ⟨hs, ht⟩⟩

/-- **A course does not leave a closed set of states.** -/
theorem Closed.course_mem (h : p.Closed S) (capturing : Bool) (c : κ) (hs : s ∈ S)
    (cues : List (Cue τ)) :
    let x := p.course capturing cues s c
    x.state ∈ S ∧ ∀ move ∈ x.moves, move.1 ∈ S ∧ move.2.1 ∈ S := by
  induction cues generalizing s c with
  | nil => exact ⟨hs, fun _ hm => absurd hm List.not_mem_nil⟩
  | cons q rest ih =>
    obtain ⟨hstate, hmoves⟩ := h.leg_mem capturing c hs q
    cases hr : (p.leg capturing s c q).result with
    | error e =>
      rw [course_cons_of_error hr]
      exact ⟨hstate, hmoves⟩
    | ok ws =>
      rw [course_cons_of_ok hr]
      obtain ⟨hlast, hrest⟩ := ih (p.leg capturing s c q).context hstate
      exact ⟨hlast, List.forall_mem_append.2 ⟨hmoves, hrest⟩⟩

end Plan

/-! ## Covered tables -/

namespace Machine

section

variable [DecidableEq σ] {m : Machine π σ τ κ ω ε φ}

/-- The machine begins in the set, and no rule of a state in it leads out of it. -/
structure Closed (m : Machine π σ τ κ ω ε φ) (S : Set σ) : Prop where
  initial_mem : m.initial ∈ S
  target_mem : ∀ s ∈ S, ∀ rule ∈ m.table.rules s, rule.target ∈ S

/-- Moreover, in each state of the set there is a rule for every token. -/
structure Covered [BEq τ] [Pattern π τ] (m : Machine π σ τ κ ω ε φ) (S : Set σ) : Prop
    extends m.Closed S where
  exists_rule : ∀ s ∈ S, ∀ t, ∃ rule ∈ m.table.rules s, rule.admits t = true

/-- The states that a run can enter: the first one, and the targets of the rules. -/
def entered (m : Machine π σ τ κ ω ε φ) : Set σ :=
  {s | s = m.initial ∨ ∃ source, ∃ rule ∈ m.table.rules source, rule.target = s}

theorem closed_entered (m : Machine π σ τ κ ω ε φ) : m.Closed m.entered where
  initial_mem := .inl rfl
  target_mem s _ rule hr := .inr ⟨s, rule, hr, rfl⟩

end

variable [DecidableEq σ] [BEq τ] [Pattern π τ] {m : Machine π σ τ κ ω ε φ} {capturing : Bool} {c : κ}
  {input : Input τ} {cues : List (Cue τ)} {w : Walk π σ τ κ} {S : Set σ} {s : σ} {t : τ}

theorem Closed.covered (h : m.Closed S)
    (ha : ∀ s ∈ S, ∃ rule ∈ m.table.rules s, rule.label = .any) : m.Covered S where
  toClosed := h
  exists_rule s hs t := by
    obtain ⟨rule, hr, hl⟩ := ha s hs
    exact ⟨rule, hr, by rw [Rule.admits, hl]; rfl⟩

theorem Closed.plan (h : m.Closed S) : m.plan.Closed S where
  initial_mem := h.initial_mem
  target_mem s hs _ rule hr := h.target_mem s hs rule (List.mem_of_find?_eq_some hr)

theorem rule?_eq_none_iff :
    m.plan.rule? s t = none ↔ ∀ rule ∈ m.table.rules s, rule.admits t = false := by
  simp only [Machine.plan, List.find?_eq_none, Bool.not_eq_true]
  rfl

theorem Covered.rule?_ne_none (h : m.Covered S) (hs : s ∈ S) (t : τ) : m.plan.rule? s t ≠ none := by
  obtain ⟨rule, hr, ht⟩ := h.exists_rule s hs t
  intro hn
  rw [rule?_eq_none_iff.1 hn rule hr] at ht
  cases ht

/-! ## Runs and executions -/

theorem unexpected_course {u : UnexpectedToken σ τ}
    (h : (m.plan.course capturing cues m.initial c).failure = some (.unexpected u)) :
    u.state ∈ m.entered ∧ ∀ rule ∈ m.table.rules u.state, rule.admits u.token = false := by
  obtain ⟨hstate, -⟩ := m.closed_entered.plan.course_mem capturing c
    m.closed_entered.initial_mem cues
  obtain ⟨t, ht, hu⟩ | ⟨e, he, -⟩ := Plan.course_failure h
  · obtain rfl := Failure.unexpected.inj hu
    exact ⟨hstate, rule?_eq_none_iff.1 ht⟩
  · cases he

theorem Covered.of_comesTo (h : m.Covered S)
    (hw : w.ComesTo (m.plan.course capturing cues m.initial c)) :
    w.Within S ∧ ∀ f, (m.plan.course capturing cues m.initial c).failure = some f →
      ∃ e, f = .raised e ∧ m.plan.Raised capturing w.invocations w.context e := by
  obtain ⟨hstate, hmoves⟩ := h.toClosed.plan.course_mem capturing c h.initial_mem cues
  refine ⟨⟨hw.state_eq ▸ hstate, hw.moves_eq ▸ hmoves⟩, fun f hf => ?_⟩
  rw [hw.invocations_eq, hw.context_eq]
  obtain ⟨t, ht, -⟩ | he := Plan.course_failure hf
  · exact absurd ht (h.rule?_ne_none hstate t)
  · exact he

theorem failure_of_visits {xs : List (Except (Failure σ τ ε) ω)} {r : Run π σ τ κ ω ε φ}
    (h : (m.run c input).Visits xs r) {f : Failure σ τ ε} (hf : .error f ∈ xs) :
    (m.plan.course true r.cues m.initial c).failure = some f := by
  obtain ⟨-, hx, -⟩ := m.visits_course c h
  rw [← Course.error_mem_items, ← hx]
  exact List.mem_append_left _ hf

theorem tokens_of_done {xs : List (Except (Failure σ τ ε) ω)} {r : Run π σ τ κ ω ε φ}
    (h : (m.run c input).Visits xs r) (hd : r.isDone = true) :
    (∃ f, .error f ∈ xs) ∨
      ∃ n, r.asked = n + 1 ∧ input n = none ∧ r.walk.moves.map (·.2.2) = input.front n := by
  have hcloses := h.closes
  have hphase : r.phase = .done := of_decide_eq_true hd
  obtain ⟨hf, -⟩ | ⟨n, read, hn, hi, hxs, -⟩ := hcloses.of_done hphase
  · exact .inl hf
  refine .inr ⟨n, hn, hi, ?_⟩
  obtain ⟨hw, hx, -⟩ := m.visits_course c h
  have hok : (m.plan.course true r.cues m.initial c).failure = none := by
    refine Option.eq_none_iff_forall_ne_some.2 fun f hf => ?_
    rw [← Course.error_mem_items, ← hx, hxs, ← List.map_append] at hf
    obtain ⟨_, -, hne⟩ := List.mem_map.1 hf
    cases hne
  have hcues : r.cues = input.cues n ++ [.finish] := by
    rw [Run.cues, hphase, hcloses.input_eq]
    simp only [hn, Input.cues_succ, Input.cue_of_none hi]
  rw [hw.moves_eq, (m.plan.tokens_course true r.cues m.initial c).2 hok, hcues, List.filterMap_append,
    Input.tokens_cues (hcloses.before n hn).1]
  exact List.append_nil _

/-- **A machine rejects no token that its table covers.** If its rules do not lead out of a set of
states, and there is one for every token in each of them, then a run and an execution keep to these
states, whatever the input, and move along all the tokens unless one of the actions fails: the only
failures are those of the last action invoked. A rule for all tokens in each state will do. What any
machine rejects comes in a state that can be entered and has no rule for it. -/
theorem rejects_only_uncovered (m : Machine π σ τ κ ω ε φ) (c : κ) (input : Input τ)
    (tokens : List τ) :
    (∀ S, m.Covered S →
      (∀ xs r, (m.run c input).Visits xs r →
        r.walk.Within S ∧
        (∀ f, .error f ∈ xs →
          ∃ e, f = .raised e ∧ m.plan.Raised true r.walk.invocations r.context e) ∧
        (r.isDone = true → (∃ f, .error f ∈ xs) ∨
          ∃ n, r.asked = n + 1 ∧ input n = none ∧ r.walk.moves.map (·.2.2) = input.front n)) ∧
      ∀ x, x = m.execute c tokens ∨ x = m.executeWithHistory c tokens →
        x.walk.Within S ∧
        (∀ f, x.result = .error f →
          ∃ e, f = .raised e ∧ m.plan.Raised false x.walk.invocations x.walk.context e) ∧
        ∀ v, x.result = .ok v → x.walk.moves.map (·.2.2) = tokens) ∧
    (∀ S, m.Closed S → (∀ s ∈ S, ∃ rule ∈ m.table.rules s, rule.label = .any) → m.Covered S) ∧
    ∀ u, ((∃ xs r, (m.run c input).Visits xs r ∧ .error (.unexpected u) ∈ xs) ∨
        (m.execute c tokens).result = .error (.unexpected u) ∨
        (m.executeWithHistory c tokens).result = .error (.unexpected u)) →
      (u.state = m.initial ∨ ∃ source, ∃ rule ∈ m.table.rules source, rule.target = u.state) ∧
        ∀ rule ∈ m.table.rules u.state, rule.admits u.token = false := by
  have hexecution : ∀ x, x = m.execute c tokens ∨ x = m.executeWithHistory c tokens →
      x.walk.ComesTo (m.plan.course false (Cue.ofTokens tokens) m.initial c) ∧
        Failure.of? x.result = (m.plan.course false (Cue.ofTokens tokens) m.initial c).failure := by
    rintro x (rfl | rfl)
    · exact m.drive_comesTo c rfl tokens
    · exact m.drive_comesTo c rfl tokens
  refine ⟨fun S h => ⟨fun xs r hv => ?_, fun x hx => ?_⟩, fun S => Closed.covered, fun u hu => ?_⟩
  · obtain ⟨hwithin, hfails⟩ := h.of_comesTo (m.visits_course c hv).1
    exact ⟨hwithin, fun f hf => hfails f (failure_of_visits hv hf), tokens_of_done hv⟩
  · obtain ⟨hw, hf⟩ := hexecution x hx
    obtain ⟨hwithin, hfails⟩ := h.of_comesTo hw
    refine ⟨hwithin, fun f hr => hfails f (hf ▸ congrArg Failure.of? hr), fun v hr => ?_⟩
    rw [hr] at hf
    rw [hw.moves_eq, (m.plan.tokens_course false _ m.initial c).2 hf.symm, Cue.tokens_ofTokens]
  · obtain ⟨xs, r, hv, hf⟩ | hr | hr := hu
    · exact unexpected_course (failure_of_visits hv hf)
    · exact unexpected_course ((hexecution _ (.inl rfl)).2 ▸ congrArg Failure.of? hr)
    · exact unexpected_course ((hexecution _ (.inr rfl)).2 ▸ congrArg Failure.of? hr)

open Demo.Counter in
/-- With a rule for all other tokens the counter rejects none, whereas it has none for a two. -/
theorem rejects_only_uncovered_counter :
    let other : Rule Empty String UInt8 Step := ⟨.any, counting, none⟩
    let total := { counter with table := .ofList (rules ++ [(counting, other)]) }
    let S : Set String := {counting, closed}
    total.Covered S ∧
      (∀ input xs r, (total.run 7 input).Visits xs r →
        r.walk.Within S ∧ ∀ u, .error (.unexpected u) ∉ xs) ∧
      (total.execute 7 [1, 2, 0, 2]).result = .ok (some 1) ∧
      (total.execute 7 [1, 2, 0, 2]).walk.moves.map (·.2.2) = [1, 2, 0, 2] ∧
      (counter.execute 7 [1, 2]).result = .error (.unexpected ⟨counting, 2⟩) ∧
      ∀ rule ∈ counter.table.rules counting, rule.admits 2 = false := by
  intro other total S
  have hcounting : total.table.rules counting =
      [⟨.exact 0, closed, none⟩, ⟨.exact 1, counting, some counts⟩, other] := rfl
  have hclosed : total.table.rules closed = [⟨.any, closed, none⟩] := rfl
  have hstays : total.Closed S := by
    have hfirst : counting ∈ S := .inl rfl
    have hlast : closed ∈ S := .inr rfl
    refine ⟨hfirst, ?_⟩
    rintro s (rfl | rfl)
    · rw [hcounting]
      simp [hfirst, hlast, other]
    · rw [hclosed]
      simp [hlast]
  obtain ⟨-, hany, -⟩ := rejects_only_uncovered total 7 (.ofList []) []
  have hcovered : total.Covered S := by
    refine hany S hstays ?_
    rintro s (rfl | rfl)
    · exact ⟨other, by simp [hcounting], rfl⟩
    · exact ⟨⟨.any, closed, none⟩, by simp [hclosed], rfl⟩
  have hr : (total.execute 7 [1, 2, 0, 2]).result = .ok (some 1) := rfl
  have hstuck : (counter.execute 7 [1, 2]).result = .error (.unexpected ⟨counting, 2⟩) := rfl
  refine ⟨hcovered, fun input xs r hv => ?_, hr, ?_, hstuck, ?_⟩
  · obtain ⟨hkeeps, -, -⟩ := rejects_only_uncovered total 7 input []
    obtain ⟨hwithin, hraised, -⟩ := (hkeeps S hcovered).1 xs r hv
    refine ⟨hwithin, fun u hu => ?_⟩
    obtain ⟨e, he, -⟩ := hraised _ hu
    cases he
  · obtain ⟨hkeeps, -, -⟩ := rejects_only_uncovered total 7 (.ofList []) [1, 2, 0, 2]
    exact ((hkeeps S hcovered).2 _ (.inl rfl)).2.2 _ hr
  · obtain ⟨-, -, hrejects⟩ := rejects_only_uncovered counter 7 (.ofList []) [1, 2]
    exact (hrejects ⟨counting, 2⟩ (.inr (.inl hstuck))).2

end Machine

end Transducer
