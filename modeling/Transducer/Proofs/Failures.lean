import Transducer.Proofs.Agreement
import Transducer.Proofs.Endings
import Transducer.Proofs.Histories

/-!
# What a failure leaves behind

A failure ends a run where it stands. What has changed by then is told by the kind of the failure.

* `Run.FailsTo`: a step fails, and what it leaves: as it was before a token without a rule, and else
  as the action that failed has left it.
* `Run.Polled.exists_of_error`: **a poll that fails stands, after fewer steps, before the step that
  does.**
* `Run.failsTo`: what the step leaves.
* `Machine.execute_of_failure`: **an execution over the same tokens fails there, too.**
* `Machine.failure_leaves`: **all of this together, wherever a run fails.**
-/

namespace Transducer

variable {π σ τ κ ω ε φ α β : Type}

/-! ## Actions that fail -/

theorem Stride.result_of_map_error {s : Stride π σ τ κ ω ε α} {f : α → β} {e : Failure σ τ ε}
    (h : (s.map f).result = .error e) : s.result = .error e := by
  unfold map at h
  cases hs : s.result with
  | ok v => simp [hs, Except.map] at h
  | error e' => simpa [hs, Except.map] using h

theorem Walk.exists_of_invoke_error {w : Walk π σ τ κ} {i : Invocation σ τ} {capturing : Bool}
    {action : Option (Action κ ω ε α)} {e : Failure σ τ ε}
    (h : (w.invoke i capturing action).result = .error e) :
    ∃ a x, action = some a ∧ (a capturing w.context).result = .error x ∧ e = .raised x ∧
      (w.invoke i capturing action).walk.context = (a capturing w.context).context ∧
      (w.invoke i capturing action).walk.invocations = w.invocations ++ [i] := by
  cases action with
  | none => cases h
  | some a =>
    have hi : (w.note [.invoked i]).invocations = w.invocations ++ [i] := w.invocations_note _
    simp only [invoke] at h ⊢
    cases hr : (a capturing w.context).result with
    | ok v => simp [hr] at h
    | error x =>
      simp only [hr, Except.error.injEq] at h ⊢
      exact ⟨a, x, rfl, hr, h.symm, rfl, hi⟩

variable [DecidableEq σ] [BEq τ] [Pattern π τ]

theorem Machine.advance_error {m : Machine π σ τ κ ω ε φ} {t : τ} {w : Walk π σ τ κ}
    {e : Failure σ τ ε} (h : (m.advance true t w).result = .error e) :
    let after := (m.advance true t w).walk
    (m.table.lookup w.state t = none ∧ e = .unexpected ⟨w.state, t⟩ ∧ after.track = w.track ∧
      after.context = w.context ∧ after.invocations = w.invocations) ∨
    ∃ rule react x, m.table.lookup w.state t = some rule ∧ rule.action = some react ∧
      (react t w.state rule.target true w.context).result = .error x ∧ e = .raised x ∧
      after.track = w.track.move rule.target t ∧
      after.context = (react t w.state rule.target true w.context).context ∧
      after.invocations = w.invocations ++ [.reaction t w.state rule.target] := by
  simp only [advance, Table.lookup] at h ⊢
  cases hf : (m.table.scan w.state t).found with
  | none =>
    simp only [hf] at h ⊢
    refine .inl ⟨trivial, (Except.error.inj h).symm, ?_, rfl, ?_⟩
    · exact (Walk.track_note _ rfl).trans (w.track_tested _ t)
    · rw [Walk.invocations_event, Walk.invocations_tested]
  | some rule =>
    simp only [hf] at h ⊢
    obtain ⟨a, x, ha, hx, he, hc, hi⟩ := Walk.exists_of_invoke_error (Stride.result_of_map_error h)
    obtain ⟨react, hreact, rfl⟩ := Option.map_eq_some_iff.1 ha
    refine .inr ⟨rule, react, x, rfl, hreact, hx, he, ?_, hc, hi.trans ?_⟩
    · exact (Walk.track_invoke ..).trans (by rw [Walk.track_move, Walk.track_tested])
    · rw [Walk.invocations_move, Walk.invocations_tested]

namespace Run

/-- The next step of the run, of the machine over the input, fails, and this is what it leaves. -/
inductive FailsTo (m : Machine π σ τ κ ω ε φ) (input : Input τ) (r after : Run π σ τ κ ω ε φ) :
    Failure σ τ ε → Prop
  /-- No rule is for the token: all is as before it was taken, and no action was invoked for it. -/
  | unexpected {t : τ} (phase_eq : r.phase = .input) (token : input r.asked = some t)
      (rule : m.table.lookup r.state t = none) (state_eq : after.state = r.state)
      (position_eq : after.walk.position = r.walk.position) (history_eq : after.history = r.history)
      (context_eq : after.context = r.context)
      (invocations_eq : after.walk.invocations = r.walk.invocations)
      (asked_eq : after.asked = r.asked + 1) : FailsTo m input r after (.unexpected ⟨after.state, t⟩)
  /-- The action of the rule for the token fails, behind the move to the target. -/
  | reaction {t : τ} {rule : Rule π σ τ (Reaction σ τ κ ω ε)} {react : Reaction σ τ κ ω ε} {x : ε}
      (phase_eq : r.phase = .input) (token : input r.asked = some t)
      (rule_eq : m.table.lookup r.state t = some rule) (action_eq : rule.action = some react)
      (result_eq : (react t r.state rule.target true r.context).result = .error x)
      (state_eq : after.state = rule.target)
      (position_eq : after.walk.position = r.walk.position + 1)
      (history_eq : after.history =
        r.history.map (·.record ⟨r.state, rule.target, r.walk.position⟩))
      (context_eq : after.context = (react t r.state rule.target true r.context).context)
      (invocations_eq :
        after.walk.invocations = r.walk.invocations ++ [.reaction t r.state rule.target])
      (asked_eq : after.asked = r.asked + 1) : FailsTo m input r after (.raised x)
  /-- The action at the start fails, in the first state and before any token. -/
  | start {action : Action κ ω ε Unit} {x : ε} (phase_eq : r.phase = .start)
      (action_eq : m.onStart = some action) (result_eq : (action true r.context).result = .error x)
      (state_eq : after.state = m.initial) (position_eq : after.walk.position = r.walk.position)
      (history_eq : after.history = r.history)
      (context_eq : after.context = (action true r.context).context)
      (invocations_eq : after.walk.invocations = r.walk.invocations ++ [.start])
      (asked_eq : after.asked = r.asked) : FailsTo m input r after (.raised x)
  /-- The action at the end fails, in the state behind the last token. -/
  | finish {action : Action κ ω ε φ} {x : ε} (phase_eq : r.phase = .input)
      (token : input r.asked = none) (action_eq : m.onFinish = some action)
      (result_eq : (action true r.context).result = .error x) (state_eq : after.state = r.state)
      (position_eq : after.walk.position = r.walk.position) (history_eq : after.history = r.history)
      (context_eq : after.context = (action true r.context).context)
      (invocations_eq : after.walk.invocations = r.walk.invocations ++ [.finish])
      (asked_eq : after.asked = r.asked + 1) : FailsTo m input r after (.raised x)

variable {m : Machine π σ τ κ ω ε φ} {c : κ} {input : Input τ} {r after : Run π σ τ κ ω ε φ}
  {q : Cue τ} {e : Failure σ τ ε} {n : Nat} {xs : List (Except (Failure σ τ ε) ω)}

/-- **A poll that fails stands, after fewer steps, before the step that does.** -/
theorem Polled.exists_of_error {p : Poll σ τ ω ε} (h : Polled n r p after)
    (hp : p = .item (.error e)) :
    ∃ k < n, ∃ mid q, r.next k = (.working, mid) ∧ mid.pending = [] ∧ mid.cue? = some q ∧
      (mid.stride q).result = .error e ∧ after = { mid.heed q with phase := .done } := by
  induction h with
  | give n _ => cases hp
  | work _ => cases hp
  | ended n _ _ => cases hp
  | @fill n r after p q v hr hq hs _ ih =>
    obtain ⟨k, hk, mid, q', hmid, hrest⟩ := ih hp
    refine ⟨k + 1, by omega, mid, q', ?_, hrest⟩
    rw [← hmid]
    exact next_of_emits hr (by rw [step_of_cue? hq, hs]; rfl) k
  | @fail r q e' n hr hq hs =>
    cases hp
    exact ⟨0, by omega, r, q, next_zero hr, hr, hq, hs, rfl⟩

theorem failsTo_start (hr : r.phase = .start) (hs : (r.stride .start).result = .error e) :
    r.FailsTo r.machine r.input { r.heed .start with phase := .done } e := by
  have ht := r.machine.track_start true r.walk
  have hv : (r.walk.enter r.machine.initial).invocations = r.walk.invocations :=
    r.walk.invocations_event _
  obtain ⟨a, x, ha, hx, rfl, hc, hi⟩ := Walk.exists_of_invoke_error
    (Stride.result_of_map_error (Stride.result_of_map_error hs))
  refine .start hr ha hx ?_ ?_ ?_ hc (hi.trans (congrArg (· ++ [Invocation.start]) hv)) rfl
  · exact congrArg Track.state ht
  · exact congrArg Track.position ht
  · exact congrArg Track.history ht

theorem failsTo_finish (hr : r.phase = .input) (hi : r.input r.asked = none)
    (hs : (r.stride .finish).result = .error e) :
    r.FailsTo r.machine r.input { r.heed .finish with phase := .done } e := by
  have ht := r.machine.track_finish true r.walk
  obtain ⟨a, x, ha, hx, rfl, hc, hv⟩ := Walk.exists_of_invoke_error hs
  refine .finish hr hi ha hx ?_ ?_ ?_ hc ?_ rfl
  · exact congrArg Track.state ht
  · exact congrArg Track.position ht
  · exact congrArg Track.history ht
  · exact hv.trans (by rw [Walk.invocations_event])

theorem failsTo_token {t : τ} (hr : r.phase = .input) (hi : r.input r.asked = some t)
    (hs : (r.stride (.token t)).result = .error e) :
    r.FailsTo r.machine r.input { r.heed (.token t) with phase := .done } e := by
  obtain ⟨hl, rfl, ht, hc, hv⟩ | ⟨rule, react, x, hl, ha, hx, rfl, ht, hc, hv⟩ :=
    Machine.advance_error (Stride.result_of_map_error hs)
  · have hstate := congrArg Track.state ht
    rw [← show _ = r.walk.state from hstate]
    exact .unexpected hr hi hl hstate (congrArg Track.position ht) (congrArg Track.history ht) hc hv rfl
  · exact .reaction hr hi hl ha hx (congrArg Track.state ht) (congrArg Track.position ht)
      (congrArg Track.history ht) hc hv rfl

theorem failsTo (hq : r.cue? = some q) (hs : (r.stride q).result = .error e) :
    r.FailsTo r.machine r.input { r.heed q with phase := .done } e := by
  cases hr : r.phase with
  | done => exact absurd hr (ne_done_of_cue? hq)
  | start =>
    rw [cue?_of_start hr] at hq
    obtain rfl := Option.some.inj hq
    exact failsTo_start hr hs
  | input =>
    rw [cue?_of_input hr] at hq
    obtain rfl := Option.some.inj hq
    cases hi : r.input r.asked with
    | none =>
      rw [Input.cue_of_none hi] at hs ⊢
      exact failsTo_finish hr hi hs
    | some t =>
      rw [Input.cue_of_some hi] at hs ⊢
      exact failsTo_token hr hi hs

theorem fresh_invariant :
    Invariant fun (_ : List (Except (Failure σ τ ε) ω)) (r : Run π σ τ κ ω ε φ) =>
      r.phase = .start → ∀ h, r.history = some h → h = .empty where
  record {xs r} hr hp h hh := by
    have hs : r.history.getD .empty = h := Option.some.inj hh
    cases hn : r.history with
    | none => rw [← hs, hn, Option.getD_none]
    | some h' => rw [← hs, hn, Option.getD_some, hr hp h' hn]
  give hr _ hp := hr hp
  fill {_ _ q _} _ _ _ _ hp := absurd hp q.phase_ne_start
  fail _ _ _ _ hp := nomatch hp

end Run

/-! ## Executions over the same tokens -/

namespace Machine

variable {m : Machine π σ τ κ ω ε φ} {c : κ} {input : Input τ} {e : Failure σ τ ε}

/-- **An execution over tokens at which a run fails fails there, too.** -/
theorem execute_of_failure (hm : m.Indifferent) {tokens : List τ} {cues rest : List (Cue τ)}
    (ht : Cue.ofTokens tokens = cues ++ rest) {w : Walk π σ τ κ}
    (h : (m.strides true cues w).getLast?.map (·.result) = some (.error e)) :
    let x := m.drive tokens w
    x.walk = w.after (m.strides true cues w) ∧ x.asked + 1 = (m.strides true cues w).length ∧
      x.result = .error e := by
  obtain ⟨hafter, hlength, hresult⟩ := strides_agree hm.agrees cues w
  obtain ⟨hw, ha, hr⟩ := m.drive_comesOf tokens w
  rw [hresult] at h
  have hfails : ¬ ∀ s ∈ m.strides false cues w, s.Succeeds := by
    intro hall
    obtain ⟨s, hs, he⟩ := Option.map_eq_some_iff.1 h
    obtain ⟨v, hv⟩ := hall s (List.mem_of_getLast? hs)
    rw [he] at hv
    cases hv
  rw [ht, strides_append_of_failure hfails] at hw ha hr
  rw [h] at hr
  exact ⟨hw.trans hafter.symm, ha.trans hlength.symm, (Option.some.inj hr).symm⟩

end Machine

namespace Run

variable {m : Machine π σ τ κ ω ε φ} {c : κ} {input : Input τ} {r : Run π σ τ κ ω ε φ}
  {q : Cue τ} {e : Failure σ τ ε} {xs : List (Except (Failure σ τ ε) ω)}

theorem Follows.execute_of_failure (h : r.Follows m c input xs) (hm : m.Indifferent)
    (hp : r.pending = []) (hq : r.cue? = some q) (hs : (r.stride q).result = .error e)
    {tokens : List τ} (ht : ∀ i < r.asked + q.questions, Input.ofList tokens i = input i) :
    let x := m.execute c tokens
    x.walk = (r.heed q).walk.unrecorded ∧ x.asked = r.asked + q.questions ∧ x.result = .error e := by
  have hfails := (follows_invariant m c input).fail h hp hq hs
  have hcues := h.cues_heed hq (p := .done) nofun
  have hstrides := h.strides_concat hq
  have hdone : r.cues ++ [q] = input.cues (r.asked + q.questions) := by
    rw [← hcues, ← h.input_eq]
    rfl
  -- the tokens begin as the input does, so their cues begin with those up to the failure
  obtain ⟨rest, hrest⟩ : ∃ rest, Cue.ofTokens tokens = r.cues ++ [q] ++ rest := by
    rw [hdone]
    refine Cue.exists_ofTokens (fun i hi => h.isSome (ne_done_of_cue? hq) i ?_) ht
    have : q.questions ≤ 1 := by cases q <;> simp [Cue.questions]
    omega
  have hlast : (m.strides true (r.cues ++ [q]) (m.walk c)).getLast?.map (·.result) =
      some (.error e) := by
    rw [hstrides, List.getLast?_concat]
    exact congrArg some hs
  obtain ⟨hwalk, hasked, hresult⟩ := Machine.execute_of_failure hm hrest hlast
  refine ⟨?_, ?_, hresult⟩
  · have hw := hfails.walk_eq
    rw [hcues] at hw
    exact hwalk.trans hw.symm
  · have hlength := congrArg List.length hdone
    rw [List.length_append, Input.length_cues, List.length_singleton] at hlength
    rw [hstrides, List.length_append, Machine.length_strides (h.succeeds (ne_done_of_cue? hq)),
      List.length_singleton, hlength] at hasked
    exact Nat.succ.inj hasked

end Run

namespace Machine

/-- **What a failure leaves behind.** A poll that fails stands, after fewer steps, before the one that
does; all that was given before are outputs of the steps before it, and the run is in the state to
which the rules for the tokens before it lead. A token without a rule leaves all as it was, a reaction
that fails leaves the move to the target and what it has itself made of the context, and so do the
actions at the start, before which nothing has been taken and recorded, and at the end. Whatever has
failed, the run is done, and gives nothing more. If nothing but the outputs depends on whether they
are captured, an execution over tokens that are those the run has asked for ends in the same context
and indeed with the same walk. -/
theorem failure_leaves (m : Machine π σ τ κ ω ε φ) (c : κ) (input : Input τ)
    {xs : List (Except (Failure σ τ ε) ω)} {r after : Run π σ τ κ ω ε φ}
    (h : (m.run c input).Visits xs r) {n : Nat} {e : Failure σ τ ε}
    (hn : r.next n = (.item (.error e), after)) :
    (∃ k < n, ∃ mid, r.next k = (.working, mid) ∧ mid.isDone = false ∧
      mid.FailsTo m input after e ∧
      xs = (m.plan.course true mid.cues m.initial c).outputs.map .ok ∧
      m.stateBefore input mid.asked = some mid.state ∧ mid.walk.position = mid.asked ∧
      (mid.phase = .start → mid.asked = 0 ∧ ∀ h, mid.history = some h → h = .empty)) ∧
    after.isDone = true ∧
    (∀ ys last, after.Visits ys last → ys = [] ∧ (last = after ∨ last = after.recording)) ∧
    (m.Indifferent → ∀ tokens, (∀ i < after.asked, Input.ofList tokens i = input i) →
      let x := m.execute c tokens
      x.walk.context = after.context ∧ x.walk = after.walk.unrecorded ∧ x.asked = after.asked ∧
        x.result = .error e) := by
  have hp := Run.polled_next n r
  rw [hn] at hp
  obtain ⟨k, hk, mid, q, hmid, hpending, hq, hs, rfl⟩ := hp.exists_of_error rfl
  have hv : (m.run c input).Visits xs mid := by
    have hpolled := h.poll k
    rw [hmid] at hpolled
    simpa [Poll.items] using hpolled
  have hd : mid.phase ≠ .done := Run.ne_done_of_cue? hq
  have hf := hv.follows
  have ht := (Run.onTrack_invariant Track.stable_follows).visits (Run.onTrack_run c) hv
  refine ⟨⟨k, hk, mid, hmid, decide_eq_false hd, ?_, ?_, ?_, (ht.asked_eq hd).symm, ?_⟩, rfl, ?_, ?_⟩
  · rw [← hf.machine_eq, ← hf.input_eq]
    exact Run.failsTo hq hs
  · obtain ⟨-, hx, hfailure⟩ := m.follows_course c hf
    rw [hpending, List.map_nil, List.append_nil, Course.items, hfailure (decide_eq_false hd)] at hx
    rw [hx]
    exact List.append_nil _
  · rw [ht.asked_eq hd]
    exact ht.track.state_eq
  · exact fun hr => ⟨hf.asked_eq hr, Run.fresh_invariant.visits (fun _ _ hh => by cases hh) hv hr⟩
  · have ho := hp.isOver rfl
    exact fun ys last hl => ho.visits hl
  · intro hm tokens htokens x
    obtain ⟨hwalk, hasked, hresult⟩ := hf.execute_of_failure hm hpending hq hs htokens
    have hcontext : x.walk.context = (mid.heed q).walk.unrecorded.context :=
      congrArg Walk.context hwalk
    exact ⟨hcontext, hwalk, hasked, hresult⟩

/-- An action that emits and then fails leaves the state it was reached by and the context it has
made, whatever the input would go on to give. -/
theorem failure_leaves_move :
    let m : Machine Empty Bool Nat Nat Nat Nat Nat := ⟨false, none, none, .ofList
      [(false, ⟨.exact 1, true, some fun t _ _ => do Action.modify (· + t); Action.emit t⟩),
        (true, ⟨.any, false, some fun t _ _ => do
          Action.modify (· + t); Action.emit t; Action.fail 9⟩)]⟩
    let input := Input.cycle [1, 2]
    let r := ((m.run 0 input).recording.next 3).2
    let after := (r.next 5).2
    (m.run 0 input).Visits [.ok 1] r ∧ r.next 5 = (.item (.error (.raised 9)), after) ∧
      (∃ mid : Run Empty Bool Nat Nat Nat Nat Nat, mid.isDone = false ∧
        mid.FailsTo m input after (.raised 9)) ∧
      after.state = false ∧ after.history = some ⟨[⟨false, true, 0⟩, ⟨true, false, 1⟩]⟩ ∧
      (∀ ys last, after.Visits ys last → ys = []) ∧ m.Indifferent ∧
      (m.execute 0 [1, 2, 7]).walk.context = 3 := by
  intro m input r after
  have hv : (m.run 0 input).Visits [.ok 1] r := Run.Visits.refl.record.poll 3
  have hn : r.next 5 = (.item (.error (.raised 9)), after) := rfl
  have hm : m.Indifferent := by
    refine ⟨nofun, nofun, fun s rule hr react ha t c => ?_⟩
    cases s with
    | false =>
      obtain rfl := List.mem_singleton.1 hr
      obtain rfl := Option.some.inj ha
      exact ⟨rfl, rfl⟩
    | true =>
      obtain rfl := List.mem_singleton.1 hr
      obtain rfl := Option.some.inj ha
      exact ⟨rfl, rfl⟩
  obtain ⟨⟨k, -, mid, -, hd, hfails, -⟩, -, hover, hexecute⟩ := failure_leaves m 0 input hv hn
  have htokens : ∀ i < after.asked, Input.ofList [1, 2, 7] i = input i := by
    have hasked : after.asked = 2 := rfl
    rw [hasked]
    rintro (_ | _ | i) hi
    · rfl
    · rfl
    · omega
  have hcontext := (hexecute hm [1, 2, 7] htokens).1
  exact ⟨hv, hn, ⟨mid, hd, hfails⟩, rfl, rfl, fun ys last hl => (hover ys last hl).1, hm, hcontext⟩

end Machine

end Transducer
