import Transducer.Proofs.Agreement
import Transducer.Proofs.Resumption

/-!
# Outputs make no difference

What a machine emits goes to those who poll it, and nowhere else: machines that are the same but for
what they emit go the same way.

* `Run.Alike`: runs that have come equally far, whatever waits in them; `Run.Alike.drains`: **polls up
  to the end lead them equally far**, over different outputs to the same failure.
* `Machine.drive_agrees`: executions make no difference between such machines.
* `Action.emit_unheard`: **without capturing, to emit is to do nothing.**
* `Machine.emits_unseen`: **no output makes a difference to anything else.**
-/

namespace Transducer

variable {π σ τ κ ω ω' ε φ α β : Type}

theorem Action.emit_unheard (x : Action κ ω ε α) (output : α → ω) (f : α → Action κ ω ε β) :
    (x >>= fun a => emit (output a) >>= fun _ => f a) false = (x >>= f) false := by
  funext c
  simp only [Bind.bind, Action.bind]
  cases (x false c).result with
  | error e => rfl
  | ok a => rfl

theorem Table.agrees_ofList [DecidableEq σ] {b b' : Bool}
    {rules : List (σ × Rule π σ τ (Reaction σ τ κ ω ε))}
    {rules' : List (σ × Rule π σ τ (Reaction σ τ κ ω' ε))}
    (h : List.Forall₂ (fun r r' => r.1 = r'.1 ∧ r.2.Agrees b b' r.1 r'.2) rules rules') (s : σ) :
    List.Forall₂ (Rule.Agrees b b' s) ((ofList rules).rules s) ((ofList rules').rules s) := by
  rw [rules_ofList, rules_ofList]
  induction h with
  | nil => exact .nil
  | @cons r r' rest rest' hr _ ih =>
    obtain ⟨hsource, hagrees⟩ := hr
    by_cases hs : r.1 = s
    · subst hs
      simp only [List.filter_cons, ← hsource, decide_true, if_true, List.map_cons]
      exact .cons hagrees ih
    · simpa only [List.filter_cons, ← hsource, hs, decide_false, Bool.false_eq_true, if_false]
        using ih

/-! ## Runs -/

/-- The runs have come equally far over the same input, whatever waits. -/
structure Run.Alike (r : Run π σ τ κ ω ε φ) (r' : Run π σ τ κ ω' ε φ) : Prop where
  walk_eq : r'.walk = r.walk
  input_eq : r'.input = r.input
  asked_eq : r'.asked = r.asked
  phase_eq : r'.phase = r.phase

namespace Run.Alike

variable {r last : Run π σ τ κ ω ε φ} {r' : Run π σ τ κ ω' ε φ}

theorem cue?_eq (h : r.Alike r') : r'.cue? = r.cue? := by
  rw [cue?, cue?, h.phase_eq, h.input_eq, h.asked_eq]

variable [DecidableEq σ] [BEq τ] [Pattern π τ]

theorem stride_eq (hm : r.machine.Agrees true true r'.machine) (h : r.Alike r') (q : Cue τ) :
    (r'.stride q).walk = (r.stride q).walk ∧ (r'.stride q).result = (r.stride q).result := by
  have hmute := Machine.stride_mute hm q r.walk
  rw [stride, h.walk_eq]
  exact ⟨(congrArg Stride.walk hmute).symm, (congrArg Stride.result hmute).symm⟩

theorem heed (hm : r.machine.Agrees true true r'.machine) (h : r.Alike r') (q : Cue τ) :
    (r.heed q).Alike (r'.heed q) :=
  ⟨(h.stride_eq hm q).1, h.input_eq, congrArg (· + q.questions) h.asked_eq, rfl⟩

/-- **Polls up to the end lead equally far**, over different outputs to the same failure. -/
theorem drains (hm : r.machine.Agrees true true r'.machine) (h : r.Alike r')
    {xs : List (Except (Failure σ τ ε) ω)} (hd : r.Drains xs last) :
    ∃ (f : Option (Failure σ τ ε)) (ws : List ω) (ws' : List ω') (last' : Run π σ τ κ ω' ε φ),
      xs = ws.map .ok ++ (f.map .error).toList ∧
      r'.Drains (ws'.map .ok ++ (f.map .error).toList) last' ∧ last.Alike last' := by
  rw [drains_iff_drained] at hd
  -- what waits in the other run is given before its next step, and makes no difference to it
  induction hd generalizing r' with
  | @give r last w rest xs hp _ ih =>
    obtain ⟨f, ws, ws', last', rfl, hd', hlast⟩ :=
      ih hm ⟨h.walk_eq, h.input_eq, h.asked_eq, h.phase_eq⟩
    exact ⟨f, w :: ws, ws', last', rfl, hd', hlast⟩
  | @ended r hp hdone =>
    have ha : (r'.withPending []).Drains [] (r'.withPending []) :=
      .ended (answers_of_done rfl (h.phase_eq.trans hdone))
    refine ⟨none, [], r'.pending, _, rfl, ha.of_pending r'.pending, ?_⟩
    exact ⟨h.walk_eq, h.input_eq, h.asked_eq, h.phase_eq⟩
  | @fill r last xs q v hp hq hs _ ih =>
    obtain ⟨-, hresult⟩ := h.stride_eq hm q
    have hnext := h.heed hm q
    have hfilled : ((r.heed q).withPending (r.stride q).emits).Alike
        ((r'.heed q).withPending (r'.stride q).emits) :=
      ⟨hnext.walk_eq, hnext.input_eq, hnext.asked_eq, hnext.phase_eq⟩
    obtain ⟨f, ws, ws', last', rfl, hd', hlast⟩ := ih (by exact hm) hfilled
    have ha : (r'.withPending []).Drains (ws'.map .ok ++ (f.map .error).toList) last' :=
      (pollsLike_of_ok (r := r'.withPending []) rfl (h.cue?_eq.trans hq)
        (hresult.trans hs)).drains hd'
    refine ⟨f, ws, r'.pending ++ ws', last', rfl, ?_, hlast⟩
    rw [List.map_append, List.append_assoc]
    exact ha.of_pending r'.pending
  | @fail r q e hp hq hs =>
    obtain ⟨-, hresult⟩ := h.stride_eq hm q
    have hnext := h.heed hm q
    have ha : (r'.withPending []).Answers (.item (.error e))
        { (r'.withPending []).heed q with phase := .done } :=
      answers_of_error rfl (h.cue?_eq.trans hq) (hresult.trans hs)
    have hd' := Drains.of_pending (.item ha (.ended (answers_of_done rfl rfl))) r'.pending
    exact ⟨some e, [], r'.pending, _, rfl, hd', hnext.walk_eq, hnext.input_eq, hnext.asked_eq, rfl⟩

end Run.Alike

/-! ## Executions -/

namespace Machine

variable [DecidableEq σ] [BEq τ] [Pattern π τ] {m : Machine π σ τ κ ω ε φ}
  {m' : Machine π σ τ κ ω' ε φ}

theorem drive_agrees (h : m.Agrees false false m') (tokens : List τ) (w : Walk π σ τ κ) :
    m'.drive tokens w = m.drive tokens w := by
  obtain ⟨hw, ha, hr⟩ := m.drive_comesOf tokens w
  obtain ⟨hw', ha', hr'⟩ := m'.drive_comesOf tokens w
  obtain ⟨hafter, hlength, hlast⟩ := strides_agree h (Cue.ofTokens tokens) w
  have hwalk : (m'.drive tokens w).walk = (m.drive tokens w).walk := by rw [hw, hw', hafter]
  have hasked : (m'.drive tokens w).asked = (m.drive tokens w).asked := by
    rw [← hlength, ← ha] at ha'
    exact Nat.succ.inj ha'
  have hresult : (m'.drive tokens w).result = (m.drive tokens w).result := by
    rw [← hlast, hr] at hr'
    exact (Option.some.inj hr').symm
  calc m'.drive tokens w
    _ = ⟨(m'.drive tokens w).walk, (m'.drive tokens w).asked, (m'.drive tokens w).result⟩ := rfl
    _ = m.drive tokens w := by rw [hwalk, hasked, hresult]

theorem plays_agrees (h : m.Agrees true true m') {c : κ} {input : Input τ}
    {xs : List (Except (Failure σ τ ε) ω)} {last : Run π σ τ κ ω ε φ}
    (hd : (m.run c input).Plays xs last) :
    ∃ (f : Option (Failure σ τ ε)) (ws : List ω) (ws' : List ω') (last' : Run π σ τ κ ω' ε φ),
      xs = ws.map .ok ++ (f.map .error).toList ∧
      (m'.run c input).Plays (ws'.map .ok ++ (f.map .error).toList) last' ∧ last.Alike last' := by
  have hwalk : (m'.walk c).recording = (m.walk c).recording := by rw [h.walk_eq]
  have hstart : (m.run c input).recording.Alike (m'.run c input).recording := ⟨hwalk, rfl, rfl, rfl⟩
  obtain ⟨f, ws, ws', last', hxs, hd', hlast⟩ := hstart.drains h hd.recording
  exact ⟨f, ws, ws', last', hxs, hd'.plays, hlast⟩

/-- **What a machine emits makes no difference to anything else.** Two machines that are the same but
for what their actions emit, be it more, less or nothing, come to the same by execution, with the
same context, state, history and result. Polled up to the end, recording or not, both or neither of
them come to it, and then with the same context, state and history, as many questions to the input and
the same failure, if any. Where outputs are not captured, to emit one is to do nothing. -/
theorem emits_unseen (h : ∀ b, m.Agrees b b m') (c : κ) :
    (∀ tokens, m'.execute c tokens = m.execute c tokens ∧
      m'.executeWithHistory c tokens = m.executeWithHistory c tokens) ∧
    (∀ input,
      ((∃ xs last, (m.run c input).Plays xs last) ↔ ∃ xs' last', (m'.run c input).Plays xs' last') ∧
      ∀ xs last xs' last', (m.run c input).Plays xs last → (m'.run c input).Plays xs' last' →
        last'.walk = last.walk ∧ last'.asked = last.asked ∧
        ∃ (f : Option (Failure σ τ ε)) (ws : List ω) (ws' : List ω'),
          xs = ws.map .ok ++ (f.map .error).toList ∧ xs' = ws'.map .ok ++ (f.map .error).toList) ∧
    ∀ {α β : Type} (x : Action κ ω ε α) (output : α → ω) (f : α → Action κ ω ε β),
      (x >>= fun a => Action.emit (output a) >>= fun _ => f a) false = (x >>= f) false := by
  refine ⟨fun tokens => ?_, fun input => ⟨⟨?_, ?_⟩, ?_⟩, Action.emit_unheard⟩
  · rw [execute, execute, executeWithHistory, executeWithHistory, (h false).walk_eq]
    exact ⟨drive_agrees (h false) tokens _, drive_agrees (h false) tokens _⟩
  · rintro ⟨xs, last, hd⟩
    obtain ⟨_, _, _, last', -, hd', -⟩ := plays_agrees (h true) hd
    exact ⟨_, last', hd'⟩
  · rintro ⟨xs', last', hd'⟩
    obtain ⟨_, _, _, last, -, hd, -⟩ := plays_agrees (h true).symm hd'
    exact ⟨_, last, hd⟩
  · intro xs last xs' last' hd hd'
    obtain ⟨f, ws, ws', last₁, hxs, hd₁, hlast⟩ := plays_agrees (h true) hd
    obtain ⟨rfl, rfl⟩ := hd'.recording.unique hd₁.recording
    exact ⟨hlast.walk_eq, hlast.asked_eq, f, ws, ws', hxs, rfl⟩

open Demo.Counter in
/-- A counter that speaks at each one, and not at its end, counts and fails as the silent one does. -/
theorem emits_unseen_counter :
    let spoken : Reaction String UInt8 Nat String Unexpected := fun _ _ _ => do
      Action.emit "one"
      Action.modify (· + 1)
      Action.emit "more"
    let speaking : Machine Empty String UInt8 Nat String Unexpected Nat :=
      ⟨counting, some (do Action.emit "zero"; Action.modify fun _ => 0), some Action.context,
        .ofList [(counting, ⟨.exact 0, closed, none⟩), (counting, ⟨.exact 1, counting, some spoken⟩),
          (closed, ⟨.any, closed, none⟩)]⟩
    (∀ b, counter.Agrees b b speaking) ∧
      (speaking.execute 7 [1, 1, 0]).result = .ok (some 2) ∧
      (∃ last last', (counter.run 7 (.ofList [1, 1, 0])).Plays [.ok 2] last ∧
        (speaking.run 7 (.ofList [1, 1, 0])).Plays
          [.ok "zero", .ok "one", .ok "more", .ok "one", .ok "more"] last' ∧
        last'.walk = last.walk ∧ last'.asked = last.asked) ∧
      ∃ last last', (counter.run 7 (.ofList [1, 2])).Plays [.error (.unexpected ⟨counting, 2⟩)] last ∧
        (speaking.run 7 (.ofList [1, 2])).Plays
          [.ok "zero", .ok "one", .ok "more", .error (.unexpected ⟨counting, 2⟩)] last' ∧
        last'.walk = last.walk ∧ last'.asked = last.asked := by
  intro spoken speaking
  have h : ∀ b, counter.Agrees b b speaking := fun b =>
    ⟨rfl, .some fun c => ⟨rfl, rfl⟩, .some fun c => ⟨rfl, rfl⟩, Table.agrees_ofList
      (.cons ⟨rfl, rfl, rfl, fun t => .none⟩
        (.cons ⟨rfl, rfl, rfl, fun t => .some fun c => ⟨rfl, rfl⟩⟩
          (.cons ⟨rfl, rfl, rfl, fun t => .none⟩ .nil)))⟩
  obtain ⟨hexecute, hrun, -⟩ := emits_unseen h 7
  have hplays : ∀ tokens,
      (∃ last, (counter.run 7 (.ofList tokens)).Plays
        (counter.plan.course true (Cue.ofTokens tokens) counting 7).items last) ∧
      ∃ last', (speaking.run 7 (.ofList tokens)).Plays
        (speaking.plan.course true (Cue.ofTokens tokens) counting 7).items last' := fun tokens =>
    ⟨⟨_, ((counter.run 7 _).recording.drains_items rfl rfl tokens (Input.gives_ofList tokens)).plays⟩,
      _, ((speaking.run 7 _).recording.drains_items rfl rfl tokens (Input.gives_ofList tokens)).plays⟩
  refine ⟨h, (congrArg Execution.result (hexecute [1, 1, 0]).1).trans rfl, ?_, ?_⟩
  · obtain ⟨⟨last, hd⟩, last', hd'⟩ := hplays [1, 1, 0]
    obtain ⟨hw, ha, -⟩ := (hrun _).2 _ _ _ _ hd hd'
    exact ⟨last, last', hd, hd', hw, ha⟩
  · obtain ⟨⟨last, hd⟩, last', hd'⟩ := hplays [1, 2]
    obtain ⟨hw, ha, -⟩ := (hrun _).2 _ _ _ _ hd hd'
    exact ⟨last, last', hd, hd', hw, ha⟩

end Machine

end Transducer
