import Transducer.Proofs.Endings

/-!
# When a poll comes to an end

A poll has no counter: it goes on over tokens for which nothing is emitted. What it has to come to is
the end of the input, or a token that leads to an output or a failure.

* `Input.Starts`: the input gives the tokens of a list next.
* `Run.ahead`, `Run.prospect`: the cues of a run to which some tokens are given next, and what they
  lead to.
* `Run.next_of_cue`: **a poll comes to an end if it does behind its first step**, and from it
  `Run.next_of_gives`, `Run.next_of_prospect`: how many steps it has to go.
* `Run.Concludes`, `Run.Polled.concludes`: the input is at its end after some tokens, or some tokens
  lead to an item; a poll that answers has come to one of these.
* `Run.Polled.asked_le`: a poll asks once more than it takes tokens, if so often.
* `Run.polls_end`: **when a poll answers, and within how many steps, questions and actions.**
-/

namespace Transducer

variable {π σ τ κ ω ε φ : Type}

/-! ## Tokens to come -/

namespace Input

/-- From a question on, the input gives the tokens of a list. -/
def Starts (input : Input τ) : Nat → List τ → Prop
  | _, [] => True
  | i, t :: rest => input i = some t ∧ input.Starts (i + 1) rest

theorem given_succ (input : Input τ) (n : Nat) :
    input.given (n + 1) = input.given n + (input.cue n).token?.toList.length := by
  rw [given, List.range_succ, List.countP_append, List.countP_singleton, given, cue]
  cases input n <;> rfl

end Input

namespace Run

/-- The cues of a run to which the tokens are given next. -/
def ahead (r : Run π σ τ κ ω ε φ) (tokens : List τ) : List (Cue τ) :=
  match r.phase with
  | .start => .start :: tokens.map .token
  | .input => tokens.map .token
  | .done => []

theorem given_questions {r : Run π σ τ κ ω ε φ} {q : Cue τ} (hq : r.cue? = some q) :
    r.input.given (r.asked + q.questions) = r.input.given r.asked + q.token?.toList.length := by
  cases hr : r.phase with
  | start =>
    rw [cue?_of_start hr] at hq
    obtain rfl := Option.some.inj hq
    rfl
  | input =>
    rw [cue?_of_input hr] at hq
    obtain rfl := Option.some.inj hq
    rw [Input.questions_cue, Input.given_succ]
  | done => exact absurd hr (ne_done_of_cue? hq)

variable [DecidableEq σ] [BEq τ] [Pattern π τ]

/-- What the tokens lead to if they are given next. -/
def prospect (r : Run π σ τ κ ω ε φ) (tokens : List τ) : Course σ τ κ ω ε :=
  r.machine.plan.course true (r.ahead tokens) r.state r.context

/-- The input is at its end after some tokens, or some tokens lead to an output or a failure. -/
def Concludes (r : Run π σ τ κ ω ε φ) : Prop :=
  (∃ tokens, r.input.Gives r.asked tokens) ∨
    ∃ tokens, r.input.Starts r.asked tokens ∧ (r.prospect tokens).items ≠ []

variable {r after : Run π σ τ κ ω ε φ} {p : Poll σ τ ω ε} {q : Cue τ} {v : Option φ}
  {e : Failure σ τ ε} {t : τ} {tokens rest : List τ} {n : Nat}

/-- The run behind a step, with nothing waiting. -/
abbrev behind (r : Run π σ τ κ ω ε φ) (q : Cue τ) : Run π σ τ κ ω ε φ := (r.heed q).withPending []

theorem ahead_of_start (hr : r.phase = .start) (tokens : List τ) :
    r.ahead tokens = .start :: (r.behind .start).ahead tokens := by
  rw [ahead, hr]
  rfl

theorem ahead_of_input (hr : r.phase = .input) (t : τ) (rest : List τ) :
    r.ahead (t :: rest) = .token t :: (r.behind (.token t)).ahead rest := by
  rw [ahead, hr]
  rfl

theorem items_prospect (r : Run π σ τ κ ω ε φ) (tokens : List τ) :
    (r.prospect tokens).items =
      (r.machine.strides true (r.ahead tokens) r.walk).flatMap Stride.items :=
  (r.machine.strides_course true (r.ahead tokens) r.walk).items_eq.symm

theorem items_prospect_of_ok (hq : r.ahead tokens = q :: (r.behind q).ahead rest)
    (hs : (r.stride q).result = .ok v) :
    (r.prospect tokens).items =
      (r.stride q).emits.map .ok ++ ((r.behind q).prospect rest).items := by
  rw [items_prospect, hq, Machine.strides_cons_of_ok hs, List.flatMap_cons, Stride.items_of_ok hs,
    items_prospect]
  rfl

theorem items_prospect_of_error (hq : r.ahead tokens = q :: (r.behind q).ahead rest)
    (hs : (r.stride q).result = .error e) : (r.prospect tokens).items = [.error e] := by
  rw [items_prospect, hq, Machine.strides_cons_of_error hs, List.flatMap_singleton,
    Stride.items_of_error hs]

/-! ## Polls that come to an end -/

theorem next_of_waiting (hp : r.pending ≠ []) (n : Nat) : (r.next n).1 ≠ .working := by
  obtain ⟨w, ws, hw⟩ := List.exists_cons_of_ne_nil hp
  rw [next_of_pending hw]
  nofun

theorem next_of_end (hd : r.phase = .done) (n : Nat) : (r.next (n + 1)).1 ≠ .working := by
  by_cases hp : r.pending = []
  · rw [next_of_done hp hd]
    nofun
  · exact next_of_waiting hp _

/-- **A poll comes to an end if it does behind its first step**, or if the step fails. -/
theorem next_of_cue (hq : r.cue? = some q)
    (h : ∀ v, (r.stride q).result = .ok v →
      (((r.heed q).withPending (r.stride q).emits).next n).1 ≠ .working) :
    (r.next (n + 1)).1 ≠ .working := by
  by_cases hp : r.pending = []
  · cases hs : (r.stride q).result with
    | ok v =>
      rw [next_of_emits hp (by rw [step_of_cue? hq, hs]; rfl)]
      exact h v hs
    | error e =>
      rw [next_of_failure hp (by rw [step_of_cue? hq, hs]; rfl)]
      nofun
  · exact next_of_waiting hp _

theorem next_mono {k : Nat} (h : (r.next n).1 ≠ .working) (hk : n ≤ k) : (r.next k).1 ≠ .working := by
  rwa [next_of_le h hk]

theorem next_of_gives_input (hr : r.phase = .input) (h : r.input.Gives r.asked tokens) :
    (r.next (tokens.length + 2)).1 ≠ .working := by
  induction tokens generalizing r with
  | nil =>
    have hq : r.cue? = some .finish := by rw [cue?_of_input hr, Input.cue_of_none h]
    exact next_of_cue hq fun _ _ => next_of_end rfl 0
  | cons t rest ih =>
    have hq : r.cue? = some (.token t) := by rw [cue?_of_input hr, Input.cue_of_some h.1]
    exact next_of_cue hq fun _ _ => ih rfl h.2

/-- Where so many tokens and then the end of the input are to come, a poll has three steps more to
go: the start, the end of the input, and the one that says that there is nothing more. -/
theorem next_of_gives (h : r.input.Gives r.asked tokens) :
    (r.next (tokens.length + 3)).1 ≠ .working := by
  cases hr : r.phase with
  | start => exact next_of_cue (cue?_of_start hr) fun _ _ => next_of_gives_input rfl h
  | input => exact next_mono (next_of_gives_input hr h) (Nat.le_succ _)
  | done => exact next_of_end hr _

theorem next_of_cue_prospect (hq : r.cue? = some q)
    (ha : r.ahead tokens = q :: (r.behind q).ahead rest) (hx : (r.prospect tokens).items ≠ [])
    (h : ((r.behind q).prospect rest).items ≠ [] → ((r.behind q).next n).1 ≠ .working) :
    (r.next (n + 1)).1 ≠ .working := by
  refine next_of_cue hq fun v hs => ?_
  by_cases hemits : (r.stride q).emits = []
  · rw [items_prospect_of_ok ha hs, hemits, List.map_nil, List.nil_append] at hx
    rw [hemits]
    exact h hx
  · exact next_of_waiting hemits n

theorem next_of_prospect_input (hr : r.phase = .input) (h : r.input.Starts r.asked tokens)
    (hx : (r.prospect tokens).items ≠ []) : (r.next tokens.length).1 ≠ .working := by
  induction tokens generalizing r with
  | nil =>
    rw [items_prospect, ahead, hr] at hx
    exact absurd rfl hx
  | cons t rest ih =>
    have hq : r.cue? = some (.token t) := by rw [cue?_of_input hr, Input.cue_of_some h.1]
    exact next_of_cue_prospect hq (ahead_of_input hr t rest) hx fun hx' => ih rfl h.2 hx'

theorem next_of_prospect (h : r.input.Starts r.asked tokens) (hx : (r.prospect tokens).items ≠ []) :
    (r.next (tokens.length + 1)).1 ≠ .working := by
  cases hr : r.phase with
  | start =>
    exact next_of_cue_prospect (cue?_of_start hr) (ahead_of_start hr tokens) hx fun hx' =>
      next_of_prospect_input rfl h hx'
  | input => exact next_mono (next_of_prospect_input hr h hx) (Nat.le_succ _)
  | done =>
    rw [items_prospect, ahead, hr] at hx
    exact absurd rfl hx

/-! ## What a poll comes to -/

theorem concludes_of_front (front : List τ)
    (hahead : ∀ rest, r.ahead (front ++ rest) = q :: (r.behind q).ahead rest)
    (hgives : ∀ rest, r.input.Gives (r.behind q).asked rest → r.input.Gives r.asked (front ++ rest))
    (hstarts : ∀ rest, r.input.Starts (r.behind q).asked rest →
      r.input.Starts r.asked (front ++ rest))
    (h : ∀ v, (r.stride q).result = .ok v → (r.stride q).emits ≠ [] ∨ (r.behind q).Concludes) :
    r.Concludes := by
  cases hs : (r.stride q).result with
  | error e =>
    refine .inr ⟨front ++ [], hstarts [] trivial, ?_⟩
    rw [items_prospect_of_error (hahead []) hs]
    exact List.cons_ne_nil _ _
  | ok v =>
    obtain hemits | ⟨rest, hg⟩ | ⟨rest, hb, hx⟩ := h v hs
    · refine .inr ⟨front ++ [], hstarts [] trivial, ?_⟩
      rw [items_prospect_of_ok (hahead []) hs]
      exact List.append_ne_nil_of_left_ne_nil (mt List.map_eq_nil_iff.1 hemits) _
    · exact .inl ⟨front ++ rest, hgives rest hg⟩
    · refine .inr ⟨front ++ rest, hstarts rest hb, ?_⟩
      rw [items_prospect_of_ok (hahead rest) hs]
      exact List.append_ne_nil_of_right_ne_nil _ hx

theorem concludes_of_cue (hq : r.cue? = some q)
    (h : ∀ v, (r.stride q).result = .ok v →
      q.phase = .done ∨ (r.stride q).emits ≠ [] ∨ (r.behind q).Concludes) : r.Concludes := by
  cases hr : r.phase with
  | start =>
    rw [cue?_of_start hr] at hq
    obtain rfl := Option.some.inj hq
    exact concludes_of_front [] (ahead_of_start hr) (fun _ hg => hg) (fun _ hb => hb)
      fun v hv => (h v hv).resolve_left nofun
  | input =>
    rw [cue?_of_input hr] at hq
    obtain rfl := Option.some.inj hq
    cases hi : r.input r.asked with
    | none => exact .inl ⟨[], hi⟩
    | some t =>
      rw [Input.cue_of_some hi] at h
      exact concludes_of_front [t] (ahead_of_input hr t) (fun _ hg => ⟨hi, hg⟩)
        (fun _ hb => ⟨hi, hb⟩) fun v hv => (h v hv).resolve_left nofun
  | done => exact absurd hr (ne_done_of_cue? hq)

/-- A poll that answers has come to what waits, to what is at its end, or to what concludes. -/
theorem Polled.concludes (h : Polled n r p after) (hp : p ≠ .working) :
    r.pending ≠ [] ∨ r.phase = .done ∨ r.Concludes := by
  induction h with
  | give n hw => exact .inl (by rw [hw]; exact List.cons_ne_nil _ _)
  | work _ => exact absurd rfl hp
  | ended n _ hd => exact .inr (.inl hd)
  | @fill n r after p q v hr hq hs _ ih =>
    refine .inr (.inr (concludes_of_cue hq fun v' _ => ?_))
    by_cases hemits : (r.stride q).emits = []
    · rw [hemits] at ih
      obtain hw | hd | hc := ih hp
      · exact absurd rfl hw
      · exact .inl hd
      · exact .inr (.inr hc)
    · exact .inr (.inl hemits)
  | fail n hr hq hs =>
    refine .inr (.inr (concludes_of_cue hq fun v hv => ?_))
    rw [hs] at hv
    cases hv

/-! ## How often a poll asks -/

theorem Polled.input_eq (h : Polled n r p after) : after.input = r.input := by
  induction h with
  | fill _ _ _ _ ih => exact ih
  | _ => rfl

theorem Polled.asked_of_done (h : Polled n r p after) (hd : r.phase = .done) :
    after.asked = r.asked := by
  cases h with
  | fill _ hq => exact absurd hd (ne_done_of_cue? hq)
  | fail _ _ hq => exact absurd hd (ne_done_of_cue? hq)
  | _ => rfl

/-- **A poll asks for the tokens that it takes, and at most once more.** -/
theorem Polled.asked_le (h : Polled n r p after) :
    r.input.given r.asked ≤ r.input.given after.asked ∧
      after.asked + r.input.given r.asked ≤ r.asked + r.input.given after.asked + 1 := by
  induction h with
  | @fill n r after p q v _ hq hs hpolled ih =>
    have hgiven := given_questions hq
    simp only [withPending, heed] at ih
    cases q with
    | start | token t =>
      simp only [Cue.questions, Cue.token?, Option.toList, List.length_nil, List.length_singleton]
        at hgiven ih
      omega
    | finish =>
      -- behind the end of the input nothing more is asked
      have hasked : after.asked = r.asked + 1 := hpolled.asked_of_done rfl
      simp only [Cue.questions, Cue.token?, Option.toList, List.length_nil] at hgiven
      rw [hasked]
      omega
  | @fail r q e n _ hq _ =>
    have hgiven := given_questions hq
    simp only [heed]
    cases q <;>
      simp only [Cue.questions, Cue.token?, Option.toList, List.length_nil, List.length_singleton]
        at hgiven ⊢ <;> omega
  | _ => exact ⟨Nat.le_refl _, Nat.le_succ _⟩

/-! ## The actions of a whole run -/

theorem length_invocations_after (r : Run π σ τ κ ω ε φ) (cues : List (Cue τ)) :
    (r.walk.after (r.machine.strides true cues r.walk)).invocations.length ≤
      r.walk.invocations.length + cues.length := by
  have hle := (r.machine.plan.cue_invocations_sublist true cues r.walk.state
    r.walk.context).length_le
  rw [List.length_map] at hle
  rw [(r.machine.strides_course true cues r.walk).invocations_eq, List.length_append]
  exact Nat.add_le_add_left hle _

theorem drains_of_gives (h : r.input.Gives r.asked tokens) :
    ∃ xs last, r.Drains xs last ∧
      last.walk.invocations.length ≤ r.walk.invocations.length + tokens.length + 2 := by
  suffices hs : ∃ xs last, (r.withPending []).Drains xs last ∧
      last.walk.invocations.length ≤ r.walk.invocations.length + tokens.length + 2 by
    obtain ⟨xs, last, hd, hle⟩ := hs
    exact ⟨_, last, hd.of_pending r.pending, hle⟩
  cases hr : r.phase with
  | start =>
    have hle := r.length_invocations_after (Cue.ofTokens tokens)
    rw [Cue.length_ofTokens] at hle
    exact ⟨_, _, drains_start (r := r.withPending []) rfl hr tokens h, hle⟩
  | input =>
    have hle := r.length_invocations_after (tokens.map .token ++ [.finish])
    rw [List.length_append, List.length_map, List.length_singleton] at hle
    exact ⟨_, _, drains_tokens (r := r.withPending []) rfl hr tokens h, Nat.le_succ_of_le hle⟩
  | done => exact ⟨_, _, .ended (answers_of_done rfl hr), by simp only [withPending]; omega⟩

/-- **When a poll comes to an end.** A poll of a run in any state answers just if an output waits, the
run is done, the input is at its end after some tokens, or some tokens lead to an output or a failure,
whatever the rules. With however many steps to go, it asks its input for the tokens that it takes and
at most once more. Where tokens lead to an output or a failure it has a step for each of them to go
and one for the start; where they end it has two more, for the end and to say that there is nothing
more, and the run drains, with an action for each token and two more if so many. -/
theorem polls_end (r : Run π σ τ κ ω ε φ) :
    ((∃ p after, r.Answers p after) ↔ r.pending ≠ [] ∨ r.isDone = true ∨ r.Concludes) ∧
    (∀ n, let after := (r.next n).2
      r.taken ≤ after.taken ∧ after.asked ≤ r.asked + (after.taken - r.taken) + 1) ∧
    (∀ tokens, r.input.Starts r.asked tokens → (r.prospect tokens).items ≠ [] →
      (r.next (tokens.length + 1)).1 ≠ .working) ∧
    ∀ tokens, r.input.Gives r.asked tokens → (r.next (tokens.length + 3)).1 ≠ .working ∧
      ∃ xs last, r.Drains xs last ∧
        last.walk.invocations.length ≤ r.walk.invocations.length + tokens.length + 2 := by
  have hanswers : ∀ n, (r.next n).1 ≠ .working → ∃ p after, r.Answers p after :=
    fun n hn => ⟨_, _, hn, n, rfl⟩
  refine ⟨⟨?_, ?_⟩, fun n => ?_, fun tokens h hx => next_of_prospect h hx,
    fun tokens h => ⟨next_of_gives h, drains_of_gives h⟩⟩
  · rintro ⟨p, after, hw, n, hn⟩
    have hp := polled_next n r
    rw [hn] at hp
    obtain hwaits | hd | hc := hp.concludes hw
    · exact .inl hwaits
    · exact .inr (.inl (decide_eq_true hd))
    · exact .inr (.inr hc)
  · rintro (hwaits | hd | ⟨tokens, h⟩ | ⟨tokens, h, hx⟩)
    · exact hanswers 0 (next_of_waiting hwaits 0)
    · exact hanswers 1 (next_of_end (of_decide_eq_true hd) 0)
    · exact hanswers _ (next_of_gives h)
    · exact hanswers _ (next_of_prospect h hx)
  · have hp := polled_next n r
    obtain ⟨hle, hasked⟩ := hp.asked_le
    simp only [taken, hp.input_eq]
    exact ⟨hle, by omega⟩

section

open Demo.Counter

theorem items_ones {tokens : List UInt8} (h : ∀ t ∈ tokens, t = 1) (c : Nat) :
    (counter.plan.course true (tokens.map .token) counting c).items = [] := by
  induction tokens generalizing c with
  | nil => rfl
  | cons t rest ih =>
    obtain ⟨rfl, hrest⟩ := List.forall_mem_cons.1 h
    have hl : (counter.plan.leg true counting c (.token 1)).result = .ok [] := rfl
    rw [List.map_cons, Plan.course_cons_of_ok hl]
    exact ih hrest (c + 1)

/-- Over ones without end the counter never answers; over ones and twos the first two is a failure,
and over three tokens that end it has five actions to invoke at most. -/
theorem polls_end_counter :
    let ones : Input UInt8 := fun _ => some 1
    (¬ ∃ p after, (counter.run 7 ones).Answers p after) ∧
      ((counter.run 7 (.cycle [1, 2])).next 3).1 ≠ .working ∧
      ((counter.run 7 (.ofList [1, 1, 0])).next 6).1 ≠ .working ∧
      ∃ xs last, (counter.run 7 (.ofList [1, 1, 0])).Drains xs last ∧
        last.walk.invocations.length ≤ 5 := by
  intro ones
  have hgives : ∀ tokens i, ¬ ones.Gives i tokens := fun tokens => by
    induction tokens with
    | nil => exact fun i h => nomatch h
    | cons t rest ih => exact fun i h => ih (i + 1) h.2
  have hstarts : ∀ tokens i, ones.Starts i tokens → ∀ t ∈ tokens, t = 1 := fun tokens => by
    induction tokens with
    | nil => exact fun i _ => nofun
    | cons t rest ih =>
      exact fun i h => List.forall_mem_cons.2 ⟨(Option.some.inj h.1).symm, ih (i + 1) h.2⟩
  refine ⟨fun ha => ?_, ?_, ?_⟩
  · obtain hw | hd | ⟨tokens, h⟩ | ⟨tokens, h, hx⟩ := (polls_end (counter.run 7 ones)).1.1 ha
    · exact hw rfl
    · cases hd
    · exact hgives _ _ h
    · have hl : (counter.plan.leg true counting 7 .start).result = .ok [] := rfl
      refine hx ?_
      change (counter.plan.course true (.start :: tokens.map .token) counting 7).items = []
      rw [Plan.course_cons_of_ok hl]
      exact items_ones (hstarts _ _ h) 0
  · exact (polls_end (counter.run 7 (.cycle [1, 2]))).2.2.1 [1, 2] ⟨rfl, rfl, trivial⟩
      (List.cons_ne_nil _ _)
  · exact (polls_end (counter.run 7 (.ofList [1, 1, 0]))).2.2.2 [1, 1, 0] (Input.gives_ofList _)

end

end Run

end Transducer
