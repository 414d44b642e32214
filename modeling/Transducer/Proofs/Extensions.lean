import Transducer.Proofs.Blueprints
import Transducer.Proofs.Resumption

/-!
# More rules at the end

Rules that are declared behind all others change nothing that a machine does, as long as it has a
rule for each token: the first rule that is for a token stays the first one.

* `Machine.Extends`: a machine that has more rules in its states, behind those it had.
* `Machine.Extends.stride_eq`: **it takes the same steps**, but for a token without a rule.
* `Run.under`, `Run.Meets`: a run with another machine, and a run in front of a token without a rule.
* `Run.next_under`, `Run.answers_unexpected`: a poll does the same, up to such a token.
* `Item.AddsRules`: the items that do nothing but add rules.
* `Machine.ofItems_append`: **declaring more rules at the end is conservative.**
-/

namespace Transducer

variable {π σ τ κ ω ε φ α : Type}

/-! ## Items that add rules -/

/-- The item does nothing but declare rules. -/
def Item.AddsRules : Item π σ τ κ ω ε φ → Prop
  | .transition _ => True
  | .rule _ _ => True
  | _ => False

theorem Item.AddsRules.says_nothing_else {item : Item π σ τ κ ω ε φ} (h : item.AddsRules) :
    item.initial? = none ∧ item.onStart? = none ∧ item.onFinish? = none ∧
      item.isDistinctLabels = false := by
  cases item with
  | transition clauses => exact ⟨rfl, rfl, rfl, rfl⟩
  | rule s r => exact ⟨rfl, rfl, rfl, rfl⟩
  | _ => exact absurd h nofun

/-! ## Rules behind the others -/

theorem Scan.ofRules_append [BEq τ] [Pattern π τ] {rules : List (Rule π σ τ α)} {t : τ}
    {r : Rule π σ τ α} (h : (ofRules rules t).found = some r) (more : List (Rule π σ τ α)) :
    ofRules (rules ++ more) t = ofRules rules t := by
  induction rules with
  | nil => cases h
  | cons r' rest ih =>
    rw [List.cons_append]
    unfold ofRules at h ⊢
    by_cases hr : r'.admits t = true
    · simp only [hr, if_true]
    · simp only [hr] at h ⊢
      rw [ih h]

/-- The machine has more rules in its states, behind those of the other one. -/
structure Machine.Extends [DecidableEq σ] (m m' : Machine π σ τ κ ω ε φ) : Prop where
  initial_eq : m'.initial = m.initial
  onStart_eq : m'.onStart = m.onStart
  onFinish_eq : m'.onFinish = m.onFinish
  rules_prefix : ∀ s, m.table.rules s <+: m'.table.rules s

theorem Machine.Extends.walk_eq [DecidableEq σ] {m m' : Machine π σ τ κ ω ε φ} (h : m.Extends m')
    (c : κ) : m'.walk c = m.walk c := by
  rw [walk, walk, h.initial_eq]

/-- The walks stand in the same place, and have come there on the same way. -/
structure Walk.Abreast (w w' : Walk π σ τ κ) : Prop where
  track_eq : w'.track = w.track
  context_eq : w'.context = w.context

theorem Walk.invoke_ne_unexpected {w : Walk π σ τ κ} {i : Invocation σ τ} {capturing : Bool}
    {action : Option (Action κ ω ε α)} {u : UnexpectedToken σ τ} :
    (w.invoke i capturing action).result ≠ .error (.unexpected u) := by
  cases action with
  | none => nofun
  | some a =>
    unfold invoke
    intro h
    cases hr : (a capturing w.context).result with
    | ok v => simp [hr] at h
    | error e => simp [hr] at h

theorem Stride.map_ne_unexpected {β : Type} {s : Stride π σ τ κ ω ε α} {u : UnexpectedToken σ τ}
    (h : s.result ≠ .error (.unexpected u)) (f : α → β) :
    (s.map f).result ≠ .error (.unexpected u) := by
  intro hm
  apply h
  unfold map at hm
  cases hr : s.result with
  | ok a => simp [hr, Except.map] at hm
  | error e => simpa [hr, Except.map] using hm

theorem Stride.Succeeds.ne_unexpected {s : Stride π σ τ κ ω ε α} (h : s.Succeeds)
    (u : UnexpectedToken σ τ) : s.result ≠ .error (.unexpected u) := by
  obtain ⟨a, ha⟩ := h
  intro hu
  rw [ha] at hu
  cases hu

theorem Run.token_of_cue? {r : Run π σ τ κ ω ε φ} {t : τ} (h : r.cue? = some (.token t)) :
    r.phase = .input ∧ r.input r.asked = some t := by
  unfold cue? at h
  cases hp : r.phase with
  | start => simp [hp] at h
  | done => simp [hp] at h
  | input =>
    simp only [hp, Input.cue] at h
    cases hi : r.input r.asked with
    | none => simp [hi] at h
    | some t' =>
      simp only [hi, Option.some.injEq, Cue.token.injEq] at h
      exact ⟨rfl, congrArg some h⟩

theorem Cue.ofTokens_eq_append {tokens : List τ} {t : τ} {before after : List (Cue τ)}
    (h : ofTokens tokens = before ++ .token t :: after) :
    ∃ a b, tokens = a ++ t :: b ∧ before = .start :: a.map .token := by
  cases before with
  | nil => simp [ofTokens] at h
  | cons q before =>
    simp only [ofTokens, List.cons_append, List.cons.injEq] at h
    obtain ⟨rfl, h⟩ := h
    obtain ⟨as, -, has⟩ | ⟨bs, hmap, hbs⟩ := List.append_eq_append_iff.1 h
    · cases as <;> simp at has
    · obtain ⟨a, b, rfl, rfl, rfl⟩ := List.map_eq_append_iff.1 hmap
      cases b with
      | nil => simp at hbs
      | cons t' b =>
        simp only [List.map_cons, List.cons_append, List.cons.injEq, Cue.token.injEq] at hbs
        exact ⟨a, b, by rw [hbs.1], rfl⟩

variable [DecidableEq σ] [BEq τ] [Pattern π τ]

namespace Machine

variable {m m' : Machine π σ τ κ ω ε φ} {capturing : Bool} {q : Cue τ} {cues : List (Cue τ)}
  {w : Walk π σ τ κ} {u : UnexpectedToken σ τ} {c : κ}

theorem Extends.scan_eq (h : m.Extends m') {s : σ} {t : τ}
    {r : Rule π σ τ (Reaction σ τ κ ω ε)} (hr : (m.table.scan s t).found = some r) :
    m'.table.scan s t = m.table.scan s t := by
  obtain ⟨more, hmore⟩ := h.rules_prefix s
  unfold Table.scan at hr ⊢
  rw [← hmore]
  exact Scan.ofRules_append hr more

/-- The only step that reports an unexpected token is that for a token without a rule, which leaves
the walk where it is. -/
theorem stride_unexpected (h : (m.stride capturing q w).result = .error (.unexpected u)) :
    q = .token u.token ∧ w.state = u.state ∧ w.Abreast (m.stride capturing q w).walk := by
  cases q with
  | start =>
    refine absurd h (Stride.map_ne_unexpected (Stride.map_ne_unexpected ?_ _) _)
    exact Walk.invoke_ne_unexpected
  | finish => exact absurd h Walk.invoke_ne_unexpected
  | token t =>
    unfold stride advance at h ⊢
    cases hf : (m.table.scan w.state t).found with
    | some rule =>
      simp only [hf] at h
      refine absurd h (Stride.map_ne_unexpected (Stride.map_ne_unexpected ?_ _) _)
      exact Walk.invoke_ne_unexpected
    | none =>
      simp only [hf] at h ⊢
      cases h
      exact ⟨rfl, rfl, (Walk.track_note _ rfl).trans (w.track_tested _ t), rfl⟩

theorem Extends.stride_eq (h : m.Extends m')
    (hu : ∀ u, (m.stride capturing q w).result ≠ .error (.unexpected u)) :
    m'.stride capturing q w = m.stride capturing q w := by
  cases q with
  | start => simp only [stride, start, h.initial_eq, h.onStart_eq]
  | finish => simp only [stride, finish, h.onFinish_eq]
  | token t =>
    unfold stride advance at hu ⊢
    cases hf : (m.table.scan w.state t).found with
    | none =>
      simp only [hf] at hu
      exact absurd rfl (hu _)
    | some rule => simp only [h.scan_eq hf]

/-- With more rules behind the others, a walk takes the same steps unless it comes to a token without
a rule. -/
theorem Extends.strides_eq (h : m.Extends m')
    (hu : ∀ u, (m.strides capturing cues w).getLast?.map (·.result) ≠ some (.error (.unexpected u))) :
    m'.strides capturing cues w = m.strides capturing cues w := by
  induction cues generalizing w with
  | nil => rfl
  | cons q rest ih =>
    cases hs : (m.stride capturing q w).result with
    | ok v =>
      rw [strides_cons_of_ok hs] at hu
      have hq : m'.stride capturing q w = m.stride capturing q w :=
        h.stride_eq (Stride.Succeeds.ne_unexpected ⟨v, hs⟩)
      have hrest : m'.strides capturing rest (m.stride capturing q w).walk =
          m.strides capturing rest (m.stride capturing q w).walk :=
        ih fun u hr => hu u (Stride.getLast?_result_cons hr)
      rw [strides_cons_of_ok (hq ▸ hs), strides_cons_of_ok hs, hq, hrest]
    | error e =>
      rw [strides_cons_of_error hs] at hu
      have hq : m'.stride capturing q w = m.stride capturing q w :=
        h.stride_eq fun u hr => hu u (congrArg some hr)
      rw [strides_cons_of_error (hq ▸ hs), strides_cons_of_error hs, hq]

theorem Extends.strides_of_succeeds (h : m.Extends m')
    (hs : ∀ s ∈ m.strides capturing cues w, s.Succeeds) :
    m'.strides capturing cues w = m.strides capturing cues w := by
  refine h.strides_eq fun u hu => ?_
  obtain ⟨s, hlast, hr⟩ := Option.map_eq_some_iff.1 hu
  exact (hs s (List.mem_of_getLast? hlast)).ne_unexpected u hr

end Machine

/-! ## Runs -/

namespace Run

/-- The run with another machine. -/
def under (r : Run π σ τ κ ω ε φ) (m : Machine π σ τ κ ω ε φ) : Run π σ τ κ ω ε φ :=
  { r with machine := m }

/-- The run is in front of the token that the report names, and stays there at the poll that fails. -/
structure Meets (r : Run π σ τ κ ω ε φ) (u : UnexpectedToken σ τ) (after : Run π σ τ κ ω ε φ) :
    Prop where
  phase_eq : r.phase = .input
  pending_eq : r.pending = []
  token_eq : r.input r.asked = some u.token
  state_eq : r.state = u.state
  abreast : r.walk.Abreast after.walk

variable {m' : Machine π σ τ κ ω ε φ} {r after last : Run π σ τ κ ω ε φ} {p : Poll σ τ ω ε}
  {q : Cue τ} {t : τ} {u : UnexpectedToken σ τ} {n : Nat} {xs : List (Except (Failure σ τ ε) ω)}
  {requests : List Request}

theorem stride_under (hm : r.machine.Extends m')
    (hu : ∀ u, (r.stride q).result ≠ .error (.unexpected u)) :
    (r.under m').stride q = r.stride q :=
  hm.stride_eq hu

theorem heed_under (hm : r.machine.Extends m')
    (hu : ∀ u, (r.stride q).result ≠ .error (.unexpected u)) :
    (r.under m').heed q = (r.heed q).under m' := by
  rw [heed, stride_under hm hu]
  rfl

theorem pollsLike_under {v : Option φ} (hm : r.machine.Extends m') (hp : r.pending = [])
    (hq : r.cue? = some q) (hs : (r.stride q).result = .ok v) :
    (r.under m').PollsLike (((r.heed q).withPending (r.stride q).emits).under m') := by
  have hu := Stride.Succeeds.ne_unexpected ⟨v, hs⟩
  have hstride := stride_under hm hu
  have h := pollsLike_of_ok (r := r.under m') hp hq (by rw [hstride]; exact hs)
  rwa [heed_under hm hu, hstride] at h

/-- A poll does the same with more rules behind the others, unless it fails for want of a rule. -/
theorem next_under (hm : r.machine.Extends m')
    (hu : ∀ u, (r.next n).1 ≠ .item (.error (.unexpected u))) :
    (r.under m').next n = ((r.next n).1, (r.next n).2.under m') := by
  have hn := polled_next n r
  generalize (r.next n).1 = p, (r.next n).2 = after at hn hu
  -- told as a relation, the poll can be gone through step by step
  refine Polled.next_eq ?_
  induction hn with
  | give n hp => exact .give n hp
  | work hp => exact .work hp
  | ended n hp hd => exact .ended n hp hd
  | @fill n r after p q v hp hq hs _ ih =>
    have hr := Stride.Succeeds.ne_unexpected ⟨v, hs⟩
    refine .fill (q := q) (v := v) hp hq ?_ ?_
    · rw [stride_under hm hr]
      exact hs
    · rw [heed_under hm hr, stride_under hm hr]
      exact ih hm hu
  | @fail r q e n hp hq hs =>
    have hr : ∀ u, (r.stride q).result ≠ .error (.unexpected u) := by
      intro u h
      rw [hs] at h
      cases h
      exact hu u rfl
    have hf := Polled.fail (r := r.under m') n hp hq (by rw [stride_under hm hr]; exact hs)
    rwa [heed_under hm hr] at hf

theorem Polled.meets (hm : r.machine.Extends m') (h : Polled n r p after)
    (hu : p = .item (.error (.unexpected u))) :
    ∃ r₁, r.PollsLike r₁ ∧ (r.under m').PollsLike (r₁.under m') ∧ r₁.Meets u after := by
  induction h with
  | give => cases hu
  | work => cases hu
  | ended => cases hu
  | fill hp hq hs _ ih =>
    obtain ⟨r₁, hr, hr', hmeets⟩ := ih hm hu
    exact ⟨r₁, (pollsLike_of_ok hp hq hs).trans hr, (pollsLike_under hm hp hq hs).trans hr', hmeets⟩
  | @fail r q e n hp hq hs =>
    cases hu
    obtain ⟨rfl, hstate, habreast⟩ := Machine.stride_unexpected hs
    obtain ⟨hphase, htoken⟩ := token_of_cue? hq
    exact ⟨r, .refl r, .refl _, hphase, hp, htoken, hstate, habreast⟩

theorem answers_unexpected (hm : r.machine.Extends m')
    (h : r.Answers (.item (.error (.unexpected u))) after) :
    ∃ r₁, r.PollsLike r₁ ∧ (r.under m').PollsLike (r₁.under m') ∧ r₁.Meets u after := by
  obtain ⟨-, n, hn⟩ := h
  have hpoll := polled_next n r
  rw [hn] at hpoll
  exact hpoll.meets hm rfl

theorem serve_under (hm : r.machine.Extends m')
    (hx : ∀ x ∈ r.sights requests, ∀ u, x.answer ≠ .item (.error (.unexpected u))) :
    (r.under m').sights requests = r.sights requests ∧
      (r.under m').serve requests = (r.serve requests).under m' ∧
      (r.serve requests).machine = r.machine := by
  induction requests generalizing r with
  | nil => exact ⟨rfl, rfl, rfl⟩
  | cons request rest ih =>
    cases request with
    | poll n =>
      rw [sights, List.forall_mem_cons] at hx
      have hn := next_under hm hx.1
      have hmachine := r.machine_next n
      have hrest := ih (r := (r.next n).2) (by rwa [hmachine]) hx.2
      rw [serve_cons, serve_cons, attend, attend, sights, sights, hn, ← hmachine]
      exact ⟨by rw [hrest.1]; rfl, hrest.2⟩
    | record => exact ih (r := r.recording) hm hx

theorem Answers.under (hm : r.machine.Extends m') (h : r.Answers p after)
    (hu : ∀ u, p ≠ .item (.error (.unexpected u))) : (r.under m').Answers p (after.under m') := by
  obtain ⟨hp, n, hn⟩ := h
  exact ⟨hp, n, by rw [next_under hm (by rwa [hn]), hn]⟩

theorem Drains.under (hm : r.machine.Extends m') (h : r.Drains xs last)
    (hu : ∀ u, .error (.unexpected u) ∉ xs) : (r.under m').Drains xs (last.under m') := by
  induction h with
  | ended ha => exact .ended (ha.under hm nofun)
  | @item r mid last x xs ha _ ih =>
    have hx : ∀ u, Poll.item x ≠ .item (.error (.unexpected u)) := by
      rintro u h
      cases h
      exact hu u List.mem_cons_self
    refine .item (ha.under hm hx) (ih ?_ ?_)
    · rwa [ha.machine_eq]
    · intro u h
      exact hu u (List.mem_cons_of_mem x h)

theorem Plays.under (hm : r.machine.Extends m') (h : r.Plays xs last)
    (hu : ∀ u, .error (.unexpected u) ∉ xs) : (r.under m').Plays xs (last.under m') :=
  ⟨Drains.under (r := r.recording) hm h.recording hu,
    Drains.under (r := r.unrecorded) hm h.unrecorded hu⟩

end Run

/-! ## Tokens that end -/

namespace Machine

variable {m m' : Machine π σ τ κ ω ε φ} {capturing : Bool} {cues : List (Cue τ)}
  {w : Walk π σ τ κ} {u : UnexpectedToken σ τ} {tokens : List τ} {c : κ}

theorem strides_unexpected
    (h : (m.strides capturing cues w).getLast?.map (·.result) = some (.error (.unexpected u))) :
    ∃ before after ss s, cues = before ++ .token u.token :: after ∧
      m.strides capturing before w = ss ∧ (∀ s ∈ ss, s.Succeeds) ∧
      m.strides capturing cues w = ss ++ [s] ∧ (w.after ss).Abreast s.walk := by
  induction cues generalizing w with
  | nil => cases h
  | cons q rest ih =>
    cases hs : (m.stride capturing q w).result with
    | error e =>
      rw [strides_cons_of_error hs] at h ⊢
      have hu : (m.stride capturing q w).result = .error (.unexpected u) := Option.some.inj h
      obtain ⟨rfl, -, hw⟩ := stride_unexpected hu
      exact ⟨[], rest, [], _, rfl, rfl, nofun, rfl, hw⟩
    | ok v =>
      rw [strides_cons_of_ok hs] at h ⊢
      -- the last step fails, so one that succeeds has another behind it
      have hrest : m.strides capturing rest (m.stride capturing q w).walk ≠ [] := by
        intro hn
        rw [hn] at h
        have hr : (m.stride capturing q w).result = .error (.unexpected u) := Option.some.inj h
        rw [hs] at hr
        cases hr
      rw [← List.singleton_append, List.getLast?_append_of_ne_nil _ hrest] at h
      obtain ⟨before, after, ss, s, rfl, hss, hsucceeds, heq, hw⟩ := ih h
      refine ⟨q :: before, after, m.stride capturing q w :: ss, s, rfl, ?_, ?_, ?_, hw⟩
      · rw [strides_cons_of_ok hs, hss]
      · rw [List.forall_mem_cons]
        exact ⟨⟨v, hs⟩, hsucceeds⟩
      · rw [heq, List.cons_append]

/-- A walk over some tokens stops at one without a rule, and with more rules behind the others it
takes the same steps up to there. -/
structure StopsAt (m m' : Machine π σ τ κ ω ε φ) (capturing : Bool) (tokens : List τ)
    (w : Walk π σ τ κ) (u : UnexpectedToken σ τ) (a : List τ)
    (ss : List (Stride π σ τ κ ω ε (Option φ))) (s : Stride π σ τ κ ω ε (Option φ)) : Prop where
  result_eq : s.result = .error (.unexpected u)
  strides_eq : m.strides capturing (Cue.ofTokens tokens) w = ss ++ [s]
  extended : ∃ more, m'.strides capturing (Cue.ofTokens tokens) w = ss ++ more
  unfinished : m'.unfinished.strides capturing (Cue.ofTokens a) w =
    ss ++ [⟨(w.after ss).leave, [], .ok none⟩]
  abreast : (w.after ss).leave.Abreast s.walk

theorem Extends.exists_stopsAt (hm : m.Extends m')
    (h : (m.strides capturing (Cue.ofTokens tokens) w).getLast?.map (·.result) =
      some (.error (.unexpected u))) :
    ∃ a b ss s, tokens = a ++ u.token :: b ∧ m.StopsAt m' capturing tokens w u a ss s := by
  obtain ⟨before, after, ss, s, hcues, hss, hsucceeds, heq, hw⟩ := strides_unexpected h
  obtain ⟨a, b, rfl, rfl⟩ := Cue.ofTokens_eq_append hcues
  have hss' : m'.strides capturing (.start :: a.map .token) w = ss := by
    rw [← hss] at hsucceeds ⊢
    exact hm.strides_of_succeeds hsucceeds
  rw [heq, List.getLast?_concat] at h
  refine ⟨a, b, ss, s, rfl, Option.some.inj h, heq, ?_, ?_, ?_⟩
  · rw [hcues, strides_append (by rwa [hss']), hss']
    exact ⟨_, rfl⟩
  · rw [strides_unfinished (by rwa [hss']), hss']
  · exact ⟨hw.track_eq.trans (Walk.track_note _ rfl).symm, hw.context_eq⟩

theorem result_of_items {oks : List (Except (Failure σ τ ε) ω)} {e : Failure σ τ ε}
    (h : (m.strides capturing cues w).flatMap Stride.items = oks ++ [.error e]) :
    (m.strides capturing cues w).getLast?.map (·.result) = some (.error e) := by
  have hx := m.strides_course capturing cues w
  rw [hx.items_eq, Course.items] at h
  cases hf : (m.plan.course capturing cues w.state w.context).failure with
  | none =>
    rw [hf, Option.map_none, Option.toList_none, List.append_nil] at h
    have hmem : .error e ∈ oks ++ [.error e] := by simp
    rw [← h] at hmem
    simp at hmem
  | some e' =>
    rw [hf] at h
    obtain ⟨-, he⟩ := List.append_inj' h rfl
    obtain rfl : e' = e := by simpa using he
    have hlast := hx.failure_eq.trans hf
    cases hr : (m.strides capturing cues w).getLast?.map (·.result) with
    | none => simp [hr] at hlast
    | some r =>
      rw [hr, Option.bind_some] at hlast
      cases r with
      | ok v => cases hlast
      | error e => rw [Option.some.inj hlast]

/-- A stream that stops at a token without a rule goes on from there with more rules behind the
others: up to it the items and the way are the same. -/
theorem Extends.plays_until (hm : m.Extends m') {oks : List (Except (Failure σ τ ε) ω)}
    {last : Run π σ τ κ ω ε φ}
    (h : (m.run c (.ofList tokens)).Plays (oks ++ [.error (.unexpected u)]) last) :
    ∃ a b ys first last', tokens = a ++ u.token :: b ∧
      (m'.unfinished.run c (.ofList a)).Plays oks first ∧ first.walk.Abreast last.walk ∧
      (m'.run c (.ofList tokens)).Plays (oks ++ ys) last' := by
  obtain ⟨last₀, hplays, hlast⟩ := plays_strides (rfl : m.strides true (Cue.ofTokens tokens)
    (m.walk c).recording = _)
  obtain ⟨hitems, rfl⟩ := h.recording.unique hplays.recording
  obtain ⟨a, b, ss, s, htokens, hstop⟩ := hm.exists_stopsAt (result_of_items hitems.symm)
  obtain ⟨more, hmore⟩ := hstop.extended
  have hfirst := hstop.unfinished
  have hunfinished : m'.unfinished.walk c = m.walk c := hm.walk_eq c
  rw [← hunfinished] at hfirst
  rw [← hm.walk_eq] at hmore
  obtain ⟨first, hplaysFirst, hfirstWalk⟩ := plays_strides hfirst
  obtain ⟨last', hplaysLast, -⟩ := plays_strides hmore
  rw [hstop.strides_eq, List.flatMap_append, List.flatMap_singleton,
    Stride.items_of_error hstop.result_eq] at hitems
  obtain ⟨hoks, -⟩ := List.append_inj' hitems rfl
  refine ⟨a, b, more.flatMap Stride.items, first, last', htokens, ?_, ?_, ?_⟩
  · rw [List.flatMap_append, List.flatMap_singleton, Stride.items_of_ok rfl, List.map_nil,
      List.append_nil] at hplaysFirst
    rwa [hoks]
  · rw [hfirstWalk, hlast, hstop.strides_eq, hunfinished, Walk.after_append, Walk.after_append]
    exact hstop.abreast
  · rwa [hoks, ← List.flatMap_append]

/-! ## Executions -/

attribute [ext] Execution

theorem Extends.drive_eq (hm : m.Extends m')
    (hu : ∀ u, (m.drive tokens w).result ≠ .error (.unexpected u)) :
    m'.drive tokens w = m.drive tokens w := by
  obtain ⟨hwalk, hasked, hresult⟩ := m.drive_comesOf tokens w
  obtain ⟨hwalk', hasked', hresult'⟩ := m'.drive_comesOf tokens w
  have hss : m'.strides false (Cue.ofTokens tokens) w = m.strides false (Cue.ofTokens tokens) w := by
    refine hm.strides_eq fun u h => hu u ?_
    rw [hresult] at h
    exact Option.some.inj h
  rw [hss] at hwalk' hasked' hresult'
  ext1
  · exact hwalk'.trans hwalk.symm
  · exact Nat.succ.inj (hasked'.trans hasked.symm)
  · exact Option.some.inj (hresult'.symm.trans hresult)

theorem Extends.executes_until (hm : m.Extends m')
    (h : (m.executeWithHistory c tokens).result = .error (.unexpected u)) :
    ∃ a b, tokens = a ++ u.token :: b ∧
      let first := m'.unfinished.executeWithHistory c a
      first.result = .ok none ∧ first.walk.Abreast (m.executeWithHistory c tokens).walk := by
  obtain ⟨hwalk, -, hresult⟩ := m.drive_comesOf tokens (m.walk c).recording
  unfold executeWithHistory at h ⊢
  rw [h] at hresult
  obtain ⟨a, b, ss, s, htokens, hstop⟩ := hm.exists_stopsAt hresult
  have hfirst := hstop.unfinished
  have hunfinished : m'.unfinished.walk c = m.walk c := hm.walk_eq c
  obtain ⟨hwalk', -, hresult'⟩ := m'.unfinished.drive_comesOf a (m'.unfinished.walk c).recording
  rw [hunfinished, hfirst] at hwalk' hresult'
  rw [List.getLast?_concat] at hresult'
  refine ⟨a, b, htokens, ?_, ?_⟩
  · rw [hunfinished]
    exact (Option.some.inj hresult').symm
  · rw [hunfinished, hwalk', hwalk, hstop.strides_eq, Walk.after_append, Walk.after_append]
    exact hstop.abreast

end Machine

/-! ## Declared machines -/

namespace Machine

variable [DecidableEq π] [Literal σ] [Literal τ] {items more : List (Item π σ τ κ ω ε φ)}
  {m m' : Machine π σ τ κ ω ε φ}

omit [Pattern π τ] in
theorem exists_ofItems_append (h : ofItems items = .ok m) (hd : .distinctLabels ∉ items)
    (hm : ∀ i ∈ more, i.AddsRules ∧ i.Valid) : ∃ m', ofItems (items ++ more) = .ok m' := by
  obtain ⟨b, hb, -⟩ := exists_build h
  obtain ⟨b', hb'⟩ := b.sayAll_of_valid (0 + items.length) fun i hmem => (hm i hmem).2
  have hsay : Blueprint.ofItems (items ++ more) = .ok b' :=
    (Blueprint.sayAll_append hb more).trans hb'
  refine exists_ofItems (s := m.initial) hsay ?_ ?_
  · rw [lastOf_append fun i hmem => (hm i hmem).1.says_nothing_else.1]
    exact (ofItems_ok h).1
  · intro hmem
    obtain hmem | hmem := List.mem_append.1 hmem
    · exact hd hmem
    · exact (hm _ hmem).1

omit [Pattern π τ] in
theorem extends_of_ofItems (h : ofItems items = .ok m) (hm : ∀ i ∈ more, i.AddsRules)
    (h' : ofItems (items ++ more) = .ok m') : m.Extends m' := by
  obtain ⟨hi, hs, hf, ht⟩ := ofItems_ok h
  obtain ⟨hi', hs', hf', ht'⟩ := ofItems_ok h'
  rw [lastOf_append fun i hmem => (hm i hmem).says_nothing_else.1, hi] at hi'
  rw [lastOf_append fun i hmem => (hm i hmem).says_nothing_else.2.1, ← hs] at hs'
  rw [lastOf_append fun i hmem => (hm i hmem).says_nothing_else.2.2.1, ← hf] at hf'
  refine ⟨(Option.some.inj hi').symm, hs', hf', fun s => ?_⟩
  rw [ht, ht', Table.rules_ofList, Table.rules_ofList, List.flatMap_append, List.filter_append,
    List.map_append]
  exact List.prefix_append _ _

/-- **Declaring more rules at the end is conservative.** Where labels may be repeated, more rules give
a machine again. Whatever its run is asked for, over any input, each poll gives the same and leaves
the same behind as with the rules there were before, as long as those have one for each token; the
poll that fails because they have none goes on from the same place with more rules. Over tokens that
end the stream is the same, or begins with all outputs in front of such a token, and the way up to
there is the same; so it is with executions. -/
theorem ofItems_append (h : ofItems items = .ok m) (hmore : ∀ i ∈ more, i.AddsRules ∧ i.Valid) :
    (.distinctLabels ∉ items → ∃ m', ofItems (items ++ more) = .ok m') ∧
    ∀ m', ofItems (items ++ more) = .ok m' → ∀ c,
      (∀ input requests,
        let r := (m.run c input).serve requests
        (∀ x ∈ (m.run c input).sights requests, ∀ u, x.answer ≠ .item (.error (.unexpected u))) →
          (m'.run c input).sights requests = (m.run c input).sights requests ∧
          (m'.run c input).serve requests = r.under m' ∧
          ∀ u after, r.Answers (.item (.error (.unexpected u))) after →
            ∃ r₁, r.PollsLike r₁ ∧ (r.under m').PollsLike (r₁.under m') ∧ r₁.Meets u after) ∧
      (∀ tokens, ∃ xs last, (m.run c (.ofList tokens)).Plays xs last ∧
        ((∀ u, .error (.unexpected u) ∉ xs) →
          (m'.run c (.ofList tokens)).Plays xs (last.under m')) ∧
        ∀ oks u, xs = oks ++ [.error (.unexpected u)] →
          ∃ a b ys first last', tokens = a ++ u.token :: b ∧
            (m'.unfinished.run c (.ofList a)).Plays oks first ∧ first.walk.Abreast last.walk ∧
            (m'.run c (.ofList tokens)).Plays (oks ++ ys) last') ∧
      ∀ tokens,
        let e := m.executeWithHistory c tokens
        ((∀ u, e.result ≠ .error (.unexpected u)) →
          m'.executeWithHistory c tokens = e ∧ m'.execute c tokens = m.execute c tokens) ∧
        ∀ u, e.result = .error (.unexpected u) →
          ∃ a b, tokens = a ++ u.token :: b ∧
            let first := m'.unfinished.executeWithHistory c a
            first.result = .ok none ∧ first.walk.Abreast e.walk := by
  refine ⟨fun hd => exists_ofItems_append h hd hmore, fun m' h' c => ?_⟩
  have hm : m.Extends m' := extends_of_ofItems h (fun i hmem => (hmore i hmem).1) h'
  have hrun : ∀ input, (m.run c input).under m' = m'.run c input := by
    intro input
    rw [run, run, hm.walk_eq]
    rfl
  refine ⟨?_, ?_, ?_⟩
  · intro input requests r hx
    obtain ⟨hsights, hserve, hmachine⟩ := Run.serve_under (r := m.run c input) hm hx
    rw [hrun] at hsights hserve
    have hr : r.machine.Extends m' := by
      rw [hmachine]
      exact hm
    exact ⟨hsights, hserve, fun u after ha => Run.answers_unexpected hr ha⟩
  · intro tokens
    obtain ⟨last, hplays, -⟩ := plays_strides (rfl : m.strides true (Cue.ofTokens tokens)
      (m.walk c).recording = _)
    refine ⟨_, last, hplays, fun hu => ?_, fun oks u hxs => ?_⟩
    · rw [← hrun]
      exact Run.Plays.under (r := m.run c (.ofList tokens)) hm hplays hu
    · rw [hxs] at hplays
      exact hm.plays_until hplays
  · intro tokens e
    refine ⟨fun hu => ⟨?_, ?_⟩, fun u hu => hm.executes_until hu⟩
    · rw [executeWithHistory, hm.walk_eq]
      exact hm.drive_eq hu
    · rw [execute, hm.walk_eq]
      refine hm.drive_eq fun u h => hu u ?_
      exact (m.execute_endsLike c tokens).result_eq.trans h

/-- A rule behind a wildcard is never followed, and a state that had no rules goes on with its first
one. -/
theorem ofItems_append_wildcard :
    let items : List (Item Empty Bool Nat Nat Nat Nat Nat) :=
      [.initial false, .rule false ⟨.any, true, some fun t _ _ => Action.emit t⟩]
    let more : List (Item Empty Bool Nat Nat Nat Nat Nat) :=
      [.rule false ⟨.exact 3, false, none⟩,
        .transition [.target false, .sources [true], .action fun t _ _ => Action.emit (t + 1)]]
    ∃ m m', ofItems items = .ok m ∧ ofItems (items ++ more) = .ok m' ∧
      (∃ last, (m'.run 0 (.ofList [3])).Plays [.ok 3] last) ∧
      (∃ last, (m.run 0 (.ofList [3, 4])).Plays [.ok 3, .error (.unexpected ⟨true, 4⟩)] last) ∧
      (∃ ys last, (m'.run 0 (.ofList [3, 4])).Plays (.ok 3 :: ys) last) ∧
      m'.executeWithHistory 0 [3] = m.executeWithHistory 0 [3] := by
  intro items more
  have hmore : ∀ i ∈ more, i.AddsRules ∧ i.Valid := by
    simp only [more, List.forall_mem_cons]
    exact ⟨⟨trivial, trivial⟩, ⟨trivial, _, rfl⟩, nofun⟩
  let m : Machine Empty Bool Nat Nat Nat Nat Nat :=
    ⟨false, none, none, .ofList (items.flatMap Item.declared)⟩
  have hm : ofItems items = .ok m := rfl
  obtain ⟨hbuilt, hruns⟩ := ofItems_append hm hmore
  obtain ⟨m', hm'⟩ := hbuilt (by simp [items])
  obtain ⟨-, hstreams, hexecutes⟩ := hruns m' hm' 0
  obtain ⟨xs, last, hplays, hsame, -⟩ := hstreams [3]
  obtain ⟨ys, last₂, hplays₂, -, huntil⟩ := hstreams [3, 4]
  -- what the streams of the first machine are is known from their steps
  obtain ⟨_, hd, -⟩ := plays_strides
    (rfl : m.strides true (Cue.ofTokens [3]) (m.walk 0).recording = _)
  obtain ⟨_, hd₂, -⟩ := plays_strides
    (rfl : m.strides true (Cue.ofTokens [3, 4]) (m.walk 0).recording = _)
  have hxs : xs = [.ok 3] := (hplays.recording.unique hd.recording).1
  have hys : ys = [.ok 3, .error (.unexpected ⟨true, 4⟩)] :=
    (hplays₂.recording.unique hd₂.recording).1
  obtain ⟨_, _, zs, _, last', -, -, -, hlast'⟩ := huntil [.ok 3] ⟨true, 4⟩ hys
  have hu : ∀ u, .error (.unexpected u) ∉ xs := by
    intro u hu
    rw [hxs, List.mem_singleton] at hu
    cases hu
  rw [hxs] at hsame hu
  rw [hys] at hplays₂
  exact ⟨m, m', hm, hm', ⟨_, hsame hu⟩, ⟨_, hplays₂⟩, ⟨zs, last', hlast'⟩,
    ((hexecutes [3]).1 nofun).1⟩

end Machine

end Transducer
