import Transducer.Proofs.Laziness
import Transducer.Proofs.Requests
import Transducer.Demo.Counter

/-!
# The end of a run

A run ends once: at a failure, or at the end of its input and then behind the outputs of its last
action.

* `Poll.isLast`, `Run.IsOver`: the answer that ends a run, and a run that has given it;
  `Run.IsOver.visits`: **it gives nothing more, and no poll changes it.**
* `Run.Visits.spends`: **what a run that is done goes on to give is what waits, and nothing else
  happens.**
* `Invocation.cue`, `Plan.cue_invocations_sublist`: **each cue has at most one action invoked for
  it.**
* `Run.Closes`, `Run.Visits.closes`: each question is asked only while tokens come and nothing fails,
  and a run that is done without a failure has met the end of its input.
* `Machine.run_ends_once`: **a run ends once and stays ended.**
-/

namespace Transducer

variable {π σ τ κ ω ε φ : Type}

/-- The answer is the last one, or there is none to come. -/
def Poll.isLast : Poll σ τ ω ε → Bool
  | .item (.error _) => true
  | .ended => true
  | _ => false

namespace Cue

/-- The cue is the start. -/
def isStart : Cue τ → Bool
  | .start => true
  | _ => false

/-- The cue is the end of the input. -/
def isFinish : Cue τ → Bool
  | .finish => true
  | _ => false

end Cue

/-- The cue for which the action is invoked. -/
def Invocation.cue : Invocation σ τ → Cue τ
  | .start => .start
  | .reaction t _ _ => .token t
  | .finish => .finish

namespace Run

/-- Nothing waits, and nothing is to come. -/
structure IsOver (r : Run π σ τ κ ω ε φ) : Prop where
  pending_eq : r.pending = []
  phase_eq : r.phase = .done

theorem IsOver.recording {r : Run π σ τ κ ω ε φ} (h : r.IsOver) : r.recording.IsOver :=
  ⟨h.pending_eq, h.phase_eq⟩

/-- A run has come from another one, which is done, by giving items, and nothing else has
happened. -/
structure Spends (r : Run π σ τ κ ω ε φ) (ys : List (Except (Failure σ τ ε) ω))
    (last : Run π σ τ κ ω ε φ) : Prop where
  items_eq : ys ++ last.pending.map .ok = r.pending.map .ok
  unrecorded_eq : last.unrecorded = (r.withPending last.pending).unrecorded

theorem Spends.phase_eq {r last : Run π σ τ κ ω ε φ} {ys : List (Except (Failure σ τ ε) ω)}
    (h : r.Spends ys last) : last.phase = r.phase := by
  have hu := congrArg phase h.unrecorded_eq
  exact hu

end Run

/-! ## Cues and their actions -/

namespace Plan

variable (p : Plan π σ τ κ ω ε φ) (capturing : Bool)

theorem cue_acting {α : Type} (move : Option (σ × σ × τ)) (i : Invocation σ τ) (s : σ) (c : κ)
    (action : Option (Action κ ω ε α)) :
    ((Leg.acting move i s capturing c action).invocation.toList.map Invocation.cue).Sublist
      [i.cue] := by
  cases action with
  | none => exact List.nil_sublist _
  | some a => exact List.Sublist.refl _

theorem cue_leg (q : Cue τ) (s : σ) (c : κ) :
    ((p.leg capturing s c q).invocation.toList.map Invocation.cue).Sublist [q] := by
  cases q with
  | start => exact cue_acting ..
  | finish => exact cue_acting ..
  | token t =>
    rw [leg]
    cases p.rule? s t with
    | none => exact List.nil_sublist _
    | some rule => exact cue_acting ..

theorem cue_invocations_sublist (cues : List (Cue τ)) (s : σ) (c : κ) :
    ((p.course capturing cues s c).invocations.map Invocation.cue).Sublist cues := by
  induction cues generalizing s c with
  | nil => exact List.Sublist.refl _
  | cons q rest ih =>
    have hq := p.cue_leg capturing q s c
    rw [course]
    cases hr : (p.leg capturing s c q).result with
    | error e => exact hq.trans (List.singleton_sublist.2 List.mem_cons_self)
    | ok ws =>
      simp only [List.map_append]
      exact hq.append (ih _ _)

end Plan

namespace Input

variable {input : Input τ} {i n : Nat}

theorem isStart_cue (input : Input τ) (i : Nat) : (input.cue i).isStart = false := by
  unfold cue
  cases input i <;> rfl

theorem isFinish_cue : (input.cue i).isFinish = (input i).isNone := by
  unfold cue
  cases input i <;> rfl

theorem eq_none_of_phase_cue (h : (input.cue i).phase = .done) : input i = none := by
  unfold cue at h
  cases hi : input i with
  | none => rfl
  | some t => rw [hi] at h; cases h

theorem countP_isStart_cues : (input.cues n).countP Cue.isStart = 1 := by
  rw [cues, List.countP_cons_of_pos rfl, List.countP_eq_zero.2]
  intro q hq
  obtain ⟨i, -, rfl⟩ := List.mem_map.1 hq
  rw [isStart_cue]
  exact Bool.false_ne_true

theorem countP_isFinish_cues (h : ∀ i < n, (input i).isSome) :
    (input.cues n).countP Cue.isFinish = 0 := by
  rw [cues, List.countP_cons_of_neg Bool.false_ne_true, List.countP_eq_zero]
  intro q hq
  obtain ⟨i, hi, rfl⟩ := List.mem_map.1 hq
  rw [isFinish_cue, Option.isNone_iff_eq_none]
  exact Option.isSome_iff_ne_none.1 (h i (List.mem_range.1 hi))

end Input

variable [DecidableEq σ] [BEq τ] [Pattern π τ]

namespace Run

variable {r after last : Run π σ τ κ ω ε φ} {p : Poll σ τ ω ε} {q : Cue τ} {w : ω} {ws : List ω}
  {xs ys : List (Except (Failure σ τ ε) ω)}

/-! ## Runs that are done -/

theorem Polled.isOver {n : Nat} (h : Polled n r p after) (hp : p.isLast = true) :
    after.IsOver := by
  induction h with
  | give n _ => cases hp
  | work _ => cases hp
  | ended n hr hd => exact ⟨hr, hd⟩
  | fill _ _ _ _ ih => exact ih hp
  | fail n hr _ _ => exact ⟨hr, rfl⟩

theorem Answers.isOver (h : r.Answers p after) (hp : p.isLast = true) : after.IsOver := by
  obtain ⟨-, n, hn⟩ := h
  have ho := polled_next n r
  rw [hn] at ho
  exact ho.isOver hp

theorem Drains.isOver (h : r.Drains xs last) : last.IsOver := by
  induction h with
  | ended ha => exact ha.isOver rfl
  | item _ _ ih => exact ih

theorem IsOver.next_eq (h : r.IsOver) (n : Nat) : (r.next n).1.items = [] ∧ (r.next n).2 = r := by
  cases n with
  | zero => rw [next_zero h.pending_eq]; exact ⟨rfl, rfl⟩
  | succ n => rw [next_of_done h.pending_eq h.phase_eq]; exact ⟨rfl, rfl⟩

/-- A run that is over gives nothing, and no poll changes it. -/
theorem IsOver.visits (h : r.IsOver) (hv : r.Visits ys last) :
    ys = [] ∧ (last = r ∨ last = r.recording) := by
  induction hv with
  | refl => exact ⟨rfl, .inl rfl⟩
  | record _ ih =>
    obtain ⟨hy, rfl | rfl⟩ := ih
    · exact ⟨hy, .inr rfl⟩
    · exact ⟨hy, .inr (recording_of_history rfl)⟩
  | @poll xs mid n _ ih =>
    obtain ⟨rfl, hm⟩ := ih
    have ho : mid.IsOver := by
      obtain rfl | rfl := hm
      · exact h
      · exact h.recording
    obtain ⟨hi, hn⟩ := ho.next_eq n
    rw [hi, hn]
    exact ⟨rfl, hm⟩

theorem IsOver.answers_iff (h : r.IsOver) : r.Answers p after ↔ p = .ended ∧ after = r := by
  have ha := answers_of_done h.pending_eq h.phase_eq
  exact ⟨fun h' => h'.unique ha, by rintro ⟨rfl, rfl⟩; exact ha⟩

theorem spends_invariant (hr : r.phase = .done) : Invariant r.Spends where
  record h := ⟨h.items_eq, h.unrecorded_eq⟩
  give {ys last w ws} h hp := by
    have hi := h.items_eq
    rw [hp, List.map_cons, List.append_cons] at hi
    exact ⟨hi, congrArg (fun r' : Run π σ τ κ ω ε φ => r'.withPending ws) h.unrecorded_eq⟩
  fill h _ hq _ := absurd (h.phase_eq.trans hr) (ne_done_of_cue? hq)
  fail h _ hq _ := absurd (h.phase_eq.trans hr) (ne_done_of_cue? hq)

/-- **What a run that is done goes on to give is what waits, and nothing else happens.** -/
theorem Visits.spends (h : r.Visits ys last) (hr : r.phase = .done) : r.Spends ys last :=
  (spends_invariant hr).visits ⟨rfl, rfl⟩ h

/-! ## Whatever the run does -/

/-- Each question was asked while tokens came and nothing failed. If the run is done and nothing has
failed, the input was at its end, and what waits are outputs of the action that came then. -/
structure Closes (m : Machine π σ τ κ ω ε φ) (c : κ) (input : Input τ)
    (xs : List (Except (Failure σ τ ε) ω)) (r : Run π σ τ κ ω ε φ) : Prop
    extends r.Follows m c input xs where
  before : ∀ n, r.asked = n + 1 → (∀ i < n, (input i).isSome) ∧ (m.upTo c input n).failure = none
  ends : r.phase = .done → (∀ s ∈ m.strides true r.cues (m.walk c), s.Succeeds) →
    ∃ n read, r.asked = n + 1 ∧ input n = none ∧
      xs = ((m.upTo c input n).outputs ++ read).map .ok ∧
      (m.plan.leg true (m.upTo c input n).state (m.upTo c input n).context .finish).result =
        .ok (read ++ r.pending)

variable {m : Machine π σ τ κ ω ε φ} {c : κ} {input : Input τ} {e : Failure σ τ ε} {v : Option φ}

theorem Follows.cues_of_asked (h : r.Follows m c input xs) (hq : r.cue? = some q) {n : Nat}
    (hn : r.asked + q.questions = n + 1) :
    r.cues = input.cues n ∧ q = input.cue n ∧ r.asked = n := by
  cases hr : r.phase with
  | done => exact absurd hr (ne_done_of_cue? hq)
  | start =>
    rw [cue?_of_start hr] at hq
    obtain rfl := Option.some.inj hq
    rw [h.asked_eq hr] at hn
    cases hn
  | input =>
    rw [cue?_of_input hr] at hq
    obtain rfl := Option.some.inj hq
    rw [Input.questions_cue] at hn
    obtain rfl := Nat.succ.inj hn
    rw [cues, hr, h.input_eq]
    exact ⟨rfl, rfl, rfl⟩

theorem Follows.before_heed (h : r.Follows m c input xs) (hq : r.cue? = some q) {n : Nat}
    (hn : r.asked + q.questions = n + 1) :
    (∀ i < n, (input i).isSome) ∧ (m.upTo c input n).failure = none := by
  have hr := ne_done_of_cue? hq
  obtain ⟨hc, -, rfl⟩ := h.cues_of_asked hq hn
  have hf := (m.follows_course c h).2.2 (decide_eq_false hr)
  rw [hc] at hf
  exact ⟨h.isSome hr, hf⟩

theorem Follows.items_upTo (h : r.Follows m c input xs) (hp : r.pending = []) (hr : r.phase ≠ .done)
    {n : Nat} (hc : r.cues = input.cues n) : xs = (m.upTo c input n).outputs.map .ok := by
  obtain ⟨-, hx, hf⟩ := m.follows_course c h
  rw [hp, List.map_nil, List.append_nil, Course.items, hf (decide_eq_false hr), hc] at hx
  rw [hx]
  exact List.append_nil _

theorem Follows.result_stride (h : r.Follows m c input xs) {n : Nat} (hc : r.cues = input.cues n)
    (q : Cue τ) :
    ((r.stride q).result.map fun _ => (r.stride q).emits) =
      (m.plan.leg true (m.upTo c input n).state (m.upTo c input n).context q).result := by
  obtain ⟨hw, -, -⟩ := m.follows_course c h
  have hl := (m.stride_shows true q r.walk).result_eq
  rw [hw.state_eq, hw.context_eq, hc] at hl
  rw [stride, h.machine_eq]
  exact hl

theorem Closes.fill (h : r.Closes m c input xs) (hp : r.pending = []) (hq : r.cue? = some q)
    (hs : (r.stride q).result = .ok v) :
    Closes m c input xs ((r.heed q).withPending (r.stride q).emits) where
  toFollows := (follows_invariant m c input).fill h.toFollows hp hq hs
  before n hn := h.toFollows.before_heed hq hn
  ends hd _ := by
    have hd' : q.phase = .done := hd
    have hn : r.asked + q.questions = r.asked + 1 := by
      cases q with
      | finish => rfl
      | start => cases hd'
      | token t => cases hd'
    obtain ⟨hc, rfl, -⟩ := h.cues_of_asked hq hn
    have hi : input r.asked = none := Input.eq_none_of_phase_cue hd'
    rw [Input.cue_of_none hi] at hs ⊢
    refine ⟨r.asked, [], rfl, hi, ?_, ?_⟩
    · rw [List.append_nil]
      exact h.items_upTo hp (ne_done_of_cue? hq) hc
    · rw [← h.result_stride hc, hs]
      rfl

theorem closes_invariant (m : Machine π σ τ κ ω ε φ) (c : κ) (input : Input τ) :
    Invariant (Closes m c input) where
  record h := ⟨(follows_invariant m c input).record h.toFollows, h.before, h.ends⟩
  give {xs r w ws} h hp := by
    refine ⟨(follows_invariant m c input).give h.toFollows hp, h.before, fun hd hs => ?_⟩
    obtain ⟨n, read, hn, hi, hx, hl⟩ := h.ends hd hs
    refine ⟨n, read ++ [w], hn, hi, ?_, ?_⟩
    · rw [hx]
      simp only [List.map_append, List.map_singleton, List.append_assoc]
    · rw [hl, hp, List.append_assoc]
      rfl
  fill := Closes.fill
  fail {xs r q e} h hp hq hs := by
    have hf := (follows_invariant m c input).fail h.toFollows hp hq hs
    refine ⟨hf, fun n hn => h.toFollows.before_heed hq hn, fun _ hall => ?_⟩
    rw [h.cues_heed hq (p := .done) nofun, h.strides_concat hq] at hall
    obtain ⟨v, hv⟩ := hall _ (List.mem_append_right _ (List.mem_singleton.2 rfl))
    rw [show ((r.stride q).unrecorded).result = .error e from hs] at hv
    cases hv

theorem Visits.closes (h : (m.run c input).Visits xs r) : r.Closes m c input xs :=
  (closes_invariant m c input).visits ⟨follows_run, nofun, nofun⟩ h

/-! ## What has been asked and invoked -/

theorem Follows.cues_eq (h : r.Follows m c input xs) :
    r.cues = [] ∨ r.cues = input.cues r.asked := by
  rw [cues, h.input_eq]
  cases r.phase with
  | start => exact .inl rfl
  | input => exact .inr rfl
  | done => exact .inr rfl

theorem Follows.invocations_sublist (h : r.Follows m c input xs) :
    (r.walk.invocations.map Invocation.cue).Sublist r.cues := by
  rw [(m.follows_course c h).1.invocations_eq]
  exact m.plan.cue_invocations_sublist true r.cues m.initial c

theorem Follows.countP_start_le (h : r.Follows m c input xs) :
    r.walk.invocations.countP (·.cue.isStart) ≤ 1 := by
  have hl := h.invocations_sublist.countP_le (p := Cue.isStart)
  rw [List.countP_map] at hl
  refine hl.trans ?_
  obtain hc | hc := h.cues_eq
  · rw [hc]
    exact Nat.zero_le 1
  · rw [hc, Input.countP_isStart_cues]

namespace Closes

theorem before_of_lt (h : r.Closes m c input xs) {i : Nat} (hi : i < r.asked) :
    (∀ j < i, (input j).isSome) ∧ (m.upTo c input i).failure = none := by
  obtain ⟨n, hn⟩ := Nat.exists_eq_succ_of_ne_zero (Nat.ne_zero_of_lt hi)
  obtain ⟨hb, hf⟩ := h.before n hn
  rw [hn] at hi
  have hin : i ≤ n := Nat.le_of_lt_succ hi
  exact ⟨fun j hj => hb j (Nat.lt_of_lt_of_le hj hin), Machine.failure_of_le hin hf⟩

/-- The end of the input is met at most once, and then by the last question. -/
theorem countP_isFinish_cues (h : r.Closes m c input xs) :
    r.cues.countP Cue.isFinish = 0 ∨
      ∃ n, r.asked = n + 1 ∧ input n = none ∧ r.cues.countP Cue.isFinish = 1 := by
  obtain hc | hc := h.cues_eq
  · rw [hc]
    exact .inl rfl
  rw [hc]
  cases hn : r.asked with
  | zero => exact .inl (Input.countP_isFinish_cues nofun)
  | succ n =>
    rw [Input.cues_succ, List.countP_append, Input.countP_isFinish_cues (h.before n hn).1,
      List.countP_singleton, Input.isFinish_cue]
    cases hi : input n with
    | none => exact .inr ⟨n, rfl, hi, rfl⟩
    | some t => exact .inl rfl

theorem countP_finish_le (h : r.Closes m c input xs) :
    r.walk.invocations.countP (·.cue.isFinish) ≤ r.cues.countP Cue.isFinish := by
  have hl := h.invocations_sublist.countP_le (p := Cue.isFinish)
  rwa [List.countP_map] at hl

theorem countP_finish_le_one (h : r.Closes m c input xs) :
    r.walk.invocations.countP (·.cue.isFinish) ≤ 1 := by
  refine h.countP_finish_le.trans ?_
  obtain hc | ⟨n, -, -, hc⟩ := h.countP_isFinish_cues <;> rw [hc]
  exact Nat.zero_le 1

theorem of_finish_mem (h : r.Closes m c input xs) (hf : .finish ∈ r.walk.invocations) :
    ∃ n, r.asked = n + 1 ∧ input n = none ∧ (m.upTo c input n).failure = none := by
  have hpos : 0 < r.walk.invocations.countP (·.cue.isFinish) :=
    List.countP_pos_iff.2 ⟨.finish, hf, rfl⟩
  obtain hc | ⟨n, hn, hi, -⟩ := h.countP_isFinish_cues
  · have hle := h.countP_finish_le
    omega
  · exact ⟨n, hn, hi, (h.before n hn).2⟩

/-- A run that is done has failed, and then nothing waits, or has met the end of its input, and then
it gives the outputs of the action there. -/
theorem of_done (h : r.Closes m c input xs) (hd : r.phase = .done) :
    ((∃ e, .error e ∈ xs) ∧ r.pending = []) ∨
      ∃ n read, r.asked = n + 1 ∧ input n = none ∧
        xs = ((m.upTo c input n).outputs ++ read).map .ok ∧
        (m.plan.leg true (m.upTo c input n).state (m.upTo c input n).context .finish).result =
          .ok (read ++ r.pending) := by
  obtain ⟨-, hx, -⟩ := m.follows_course c h.toFollows
  cases hf : (m.plan.course true r.cues m.initial c).failure with
  | none => exact .inr (h.ends hd ((m.strides_course true r.cues (m.walk c)).succeeds_iff.2 hf))
  | some e =>
    refine .inl ?_
    -- the failure is the last of the items, and what waits is behind it
    rw [Course.items, hf] at hx
    obtain hp | ⟨ws, w, hp⟩ := List.eq_nil_or_concat r.pending
    · rw [hp, List.map_nil, List.append_nil] at hx
      exact ⟨⟨e, hx ▸ List.mem_append_right _ (List.mem_singleton.2 rfl)⟩, hp⟩
    · rw [hp, List.concat_eq_append, List.map_append, ← List.append_assoc] at hx
      cases (List.append_inj' hx rfl).2

end Closes

end Run

namespace Machine

variable (m : Machine π σ τ κ ω ε φ) (c : κ) (input : Input τ)

/-- **A run ends once and stays ended**, whatever its input answers behind its first end. Once a poll
has given a failure or said that there is nothing more, nothing happens: each later poll says so and
leaves the run as it is, and to ask it to record does that alone. The input is asked only while it
has given tokens and nothing has failed; the action at the start is invoked at most once, and so is
the one at the end, behind the end of the input and no failure. A run that is done stays done, and
what it has yet to give waits already: nothing if it has failed, and else the outputs of the action
at the end that have not been given. -/
theorem run_ends_once :
    (∀ xs r p after, (m.run c input).Visits xs r → r.Answers p after → p.isLast = true →
      ∀ ys last, after.Visits ys last → ys = [] ∧ (last = after ∨ last = after.recording) ∧
        ∀ p' r', last.Answers p' r' ↔ p' = .ended ∧ r' = last) ∧
    ∀ xs r, (m.run c input).Visits xs r →
      (∀ i < r.asked, (∀ j < i, (input j).isSome) ∧ (m.upTo c input i).failure = none) ∧
      r.walk.invocations.countP (·.cue.isStart) ≤ 1 ∧
      r.walk.invocations.countP (·.cue.isFinish) ≤ 1 ∧
      (.finish ∈ r.walk.invocations →
        ∃ n, r.asked = n + 1 ∧ input n = none ∧ (m.upTo c input n).failure = none) ∧
      (r.isDone = true →
        (∀ ys last, r.Visits ys last → last.isDone = true ∧ r.Spends ys last) ∧
        (∃ last, r.Drains (r.pending.map .ok) last) ∧
        ((∃ e, .error e ∈ xs) ∧ r.pending = [] ∨
          ∃ n read, r.asked = n + 1 ∧ input n = none ∧
            let x := m.upTo c input n
            xs = (x.outputs ++ read).map .ok ∧
              (m.plan.leg true x.state x.context .finish).result = .ok (read ++ r.pending))) := by
  refine ⟨fun xs r p after _ ha hp ys last hl => ?_, fun xs r h => ?_⟩
  · have ho := ha.isOver hp
    obtain ⟨hy, hlast⟩ := ho.visits hl
    refine ⟨hy, hlast, fun p' r' => Run.IsOver.answers_iff ?_⟩
    obtain rfl | rfl := hlast
    · exact ho
    · exact ho.recording
  · have hc := h.closes
    refine ⟨fun i => hc.before_of_lt, hc.countP_start_le, hc.countP_finish_le_one,
      hc.of_finish_mem, fun hd => ⟨fun ys last hl => ?_, ?_, ?_⟩⟩
    · have hs := hl.spends (of_decide_eq_true hd)
      exact ⟨decide_eq_true (hs.phase_eq.trans (of_decide_eq_true hd)), hs⟩
    · have ha := Run.answers_of_done (r := r.withPending []) rfl (of_decide_eq_true hd)
      have hw := (Run.Drains.ended ha).of_pending r.pending
      rw [List.append_nil] at hw
      exact ⟨_, hw⟩
    · exact hc.of_done (of_decide_eq_true hd)

open Demo.Counter in
/-- The counter that has given its number never asks for the zero that comes behind the end. -/
theorem run_ends_once_counter :
    let input := Input.ofSegments [[1], [0]]
    let r := ((counter.run 0 input).next 4).2
    input 2 = some 0 ∧ (counter.run 0 input).Visits [.ok 1] r ∧ r.Answers .ended r ∧
      r.isDone = true ∧ .finish ∈ r.walk.invocations ∧
      (∀ ys last, r.Visits ys last → ys = [] ∧ last.asked = 2) ∧
      (∃ last, r.Drains [] last) ∧ (counter.upTo 0 input 1).failure = none := by
  intro input r
  have hv : (counter.run 0 input).Visits [.ok 1] r := Run.Visits.refl.poll 4
  have ha : r.Answers .ended r := ⟨nofun, 1, rfl⟩
  have hi : r.walk.invocations = [.start, .reaction 1 counting counting, .finish] := rfl
  have hf : .finish ∈ r.walk.invocations := by simp [hi]
  obtain ⟨hover, hall⟩ := run_ends_once counter 0 input
  obtain ⟨-, -, -, hfinish, hdone⟩ := hall _ r hv
  obtain ⟨n, hn, -, hfail⟩ := hfinish hf
  obtain rfl : n = 1 := Nat.succ.inj hn.symm
  refine ⟨rfl, hv, ha, rfl, hf, fun ys last hl => ?_, (hdone rfl).2.1, hfail⟩
  obtain ⟨hy, rfl | rfl, -⟩ := hover _ r _ _ hv ha rfl ys last hl
  · exact ⟨hy, rfl⟩
  · exact ⟨hy, rfl⟩

end Machine

end Transducer
