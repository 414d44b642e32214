import Transducer.Proofs.Steps

/-!
# Polls

What a run gives to those who poll it, with as many steps for each poll as it takes.

* `Run.Answers`: a poll gives an answer and leads to a run; `Run.Answers.unique`: to one answer
  only.
* `Run.Yields`, `Run.Drains`: polls that give items, and those up to the end.
* `Run.PollsLike`: two runs that no poll tells apart.
* `Run.cue?`, `Run.heed`: the cue that the next step is for, and the run after it.
* `Run.answers_of_pending`, `Run.pollsLike_of_ok`, `Run.answers_of_error`, `Run.answers_of_done`:
  **what a poll does, case by case.**
* `Run.Polled`, `Run.polled_next`: a poll as the steps it takes; `Run.Drained`,
  `Run.drains_iff_drained`: polls up to the end as the steps they take.
* `Run.Visits`, `Run.Invariant`: the runs that polls and calls to record lead to, and what holds of
  all of them.
-/

namespace Transducer

variable {π σ τ κ ω ε φ : Type}

/-- The items that a poll gives. -/
def Poll.items : Poll σ τ ω ε → List (Except (Failure σ τ ε) ω)
  | .item x => [x]
  | _ => []

namespace Run

/-- The cue that the next step is for. -/
def cue? (r : Run π σ τ κ ω ε φ) : Option (Cue τ) :=
  match r.phase with
  | .start => some .start
  | .input => some (r.input.cue r.asked)
  | .done => none

theorem cue?_eq_none_iff {r : Run π σ τ κ ω ε φ} : r.cue? = none ↔ r.phase = .done := by
  unfold cue?
  cases r.phase <;> simp

theorem ne_done_of_cue? {r : Run π σ τ κ ω ε φ} {q : Cue τ} (h : r.cue? = some q) :
    r.phase ≠ .done := fun hd => by
  rw [cue?_eq_none_iff.2 hd] at h
  cases h

theorem cue?_of_start {r : Run π σ τ κ ω ε φ} (h : r.phase = .start) : r.cue? = some .start := by
  rw [cue?, h]

theorem cue?_of_input {r : Run π σ τ κ ω ε φ} (h : r.phase = .input) :
    r.cue? = some (r.input.cue r.asked) := by
  rw [cue?, h]

end Run

namespace Cue

/-- How often the input is asked for the cue. -/
def questions : Cue τ → Nat
  | .start => 0
  | _ => 1

/-- How far a run is after the step for the cue. -/
def phase : Cue τ → Phase
  | .finish => .done
  | _ => .input

theorem phase_ne_start (q : Cue τ) : q.phase ≠ .start := by
  cases q <;> nofun

end Cue

@[simp] theorem Input.questions_cue (input : Input τ) (i : Nat) : (input.cue i).questions = 1 := by
  unfold cue
  cases input i <;> rfl

theorem Input.isSome_of_phase_cue {input : Input τ} {i : Nat} (h : (input.cue i).phase ≠ .done) :
    (input i).isSome := by
  unfold cue at h
  cases hi : input i with
  | none => rw [hi] at h; exact absurd rfl h
  | some t => rfl

namespace Run

variable [DecidableEq σ] [BEq τ] [Pattern π τ]

/-- The step of a run for a cue. -/
abbrev stride (r : Run π σ τ κ ω ε φ) (q : Cue τ) : Stride π σ τ κ ω ε (Option φ) :=
  r.machine.stride true q r.walk

/-- The run after the step for a cue. -/
def heed (r : Run π σ τ κ ω ε φ) (q : Cue τ) : Run π σ τ κ ω ε φ :=
  { r with walk := (r.stride q).walk, asked := r.asked + q.questions, phase := q.phase }

/-- The run with other outputs waiting. -/
def withPending (r : Run π σ τ κ ω ε φ) (ws : List ω) : Run π σ τ κ ω ε φ := { r with pending := ws }

/-- A poll with steps enough gives the answer, and leads to the run after it. -/
def Answers (r : Run π σ τ κ ω ε φ) (p : Poll σ τ ω ε) (after : Run π σ τ κ ω ε φ) : Prop :=
  p ≠ .working ∧ ∃ n, r.next n = (p, after)

/-- Polls, one after the other, give the items. -/
inductive Yields : Run π σ τ κ ω ε φ → List (Except (Failure σ τ ε) ω) → Run π σ τ κ ω ε φ → Prop
  | nil (r : Run π σ τ κ ω ε φ) : Yields r [] r
  | cons {r mid last : Run π σ τ κ ω ε φ} {x : Except (Failure σ τ ε) ω}
      {xs : List (Except (Failure σ τ ε) ω)} :
      r.Answers (.item x) mid → Yields mid xs last → Yields r (x :: xs) last

/-- Polls up to the one that says that there is nothing more give the items. -/
inductive Drains : Run π σ τ κ ω ε φ → List (Except (Failure σ τ ε) ω) → Run π σ τ κ ω ε φ → Prop
  | ended {r last : Run π σ τ κ ω ε φ} : r.Answers .ended last → Drains r [] last
  | item {r mid last : Run π σ τ κ ω ε φ} {x : Except (Failure σ τ ε) ω}
      {xs : List (Except (Failure σ τ ε) ω)} :
      r.Answers (.item x) mid → Drains mid xs last → Drains r (x :: xs) last

/-- No poll tells the runs apart. -/
def PollsLike (r r' : Run π σ τ κ ω ε φ) : Prop := ∀ p after, r.Answers p after ↔ r'.Answers p after

variable {r r' mid after last last' : Run π σ τ κ ω ε φ} {p p' : Poll σ τ ω ε} {q : Cue τ}
  {w : ω} {ws : List ω} {xs ys : List (Except (Failure σ τ ε) ω)} {e : Failure σ τ ε} {v : Option φ}

/-! ## One answer only -/

theorem next_of_le {n k : Nat} (h : (r.next n).1 ≠ .working) (hk : n ≤ k) : r.next k = r.next n := by
  obtain ⟨d, rfl⟩ := Nat.exists_eq_add_of_le hk
  clear hk
  induction d with
  | zero => rfl
  | succ d ih => rw [← Nat.add_assoc, next_succ_of_ne_working (by rwa [ih]), ih]

theorem Answers.unique (h : r.Answers p last) (h' : r.Answers p' last') : p = p' ∧ last = last' := by
  obtain ⟨hp, n, hn⟩ := h
  obtain ⟨hp', n', hn'⟩ := h'
  have e₁ := next_of_le (r := r) (by rwa [hn]) (Nat.le_max_left n n')
  have e₂ := next_of_le (r := r) (by rwa [hn']) (Nat.le_max_right n n')
  rw [e₁, hn, hn'] at e₂
  exact Prod.mk.inj e₂

theorem Yields.unique (h : r.Yields xs last) (h' : r.Yields ys last')
    (hl : xs.length = ys.length) : xs = ys ∧ last = last' := by
  induction h generalizing ys with
  | nil r =>
    cases h' with
    | nil => exact ⟨rfl, rfl⟩
    | cons => cases hl
  | cons ha _ ih =>
    cases h' with
    | nil => cases hl
    | cons ha' hy =>
      obtain ⟨hx, rfl⟩ := ha.unique ha'
      obtain ⟨rfl, rfl⟩ := ih hy (Nat.succ.inj hl)
      exact ⟨by rw [Poll.item.inj hx], rfl⟩

theorem Drains.unique (h : r.Drains xs last) (h' : r.Drains ys last') : xs = ys ∧ last = last' := by
  induction h generalizing ys with
  | ended ha =>
    cases h' with
    | ended ha' => exact ⟨rfl, (ha.unique ha').2⟩
    | item ha' _ => cases (ha.unique ha').1
  | item ha _ ih =>
    cases h' with
    | ended ha' => cases (ha.unique ha').1
    | item ha' hd =>
      obtain ⟨hx, rfl⟩ := ha.unique ha'
      obtain ⟨rfl, rfl⟩ := ih hd
      exact ⟨by rw [Poll.item.inj hx], rfl⟩

theorem Drains.iff (h : r.Drains xs last) : r.Drains ys last' ↔ ys = xs ∧ last' = last :=
  ⟨fun h' => h'.unique h, by rintro ⟨rfl, rfl⟩; exact h⟩

theorem Yields.append (h : r.Yields xs mid) (h' : mid.Yields ys last) :
    r.Yields (xs ++ ys) last := by
  induction h with
  | nil => exact h'
  | cons ha _ ih => exact .cons ha (ih h')

/-! ## Runs that no poll tells apart -/

theorem PollsLike.refl (r : Run π σ τ κ ω ε φ) : r.PollsLike r := fun _ _ => Iff.rfl

theorem PollsLike.trans (h : r.PollsLike mid) (h' : mid.PollsLike r') : r.PollsLike r' :=
  fun p after => (h p after).trans (h' p after)

theorem PollsLike.drains (h : r.PollsLike r') (hd : r'.Drains xs last) : r.Drains xs last := by
  cases hd with
  | ended ha => exact .ended ((h _ _).2 ha)
  | item ha hd => exact .item ((h _ _).2 ha) hd

theorem PollsLike.yields (h : r.PollsLike r') (hy : r'.Yields xs last) (hx : xs ≠ []) :
    r.Yields xs last := by
  cases hy with
  | nil => exact absurd rfl hx
  | cons ha hy => exact .cons ((h _ _).2 ha) hy

/-! ## What a poll does -/

theorem step_of_cue? (h : r.cue? = some q) :
    r.step = (some ((r.stride q).result.map fun _ => (r.stride q).emits), r.heed q) := by
  unfold cue? at h
  rw [step]
  cases hp : r.phase with
  | start =>
    rw [hp] at h
    cases h
    simp only [absorb, heed, stride, Machine.stride, Stride.map]
    cases (r.machine.start true r.walk).result <;> rfl
  | input =>
    rw [hp] at h
    cases hi : r.input r.asked with
    | some t =>
      have hq : q = .token t := by rw [← Input.cue_of_some hi]; exact (Option.some.inj h).symm
      subst hq
      simp only [absorb, heed, stride, Machine.stride, Stride.map]
      cases (r.machine.advance true t r.walk).result <;> rfl
    | none =>
      have hq : q = .finish := by rw [← Input.cue_of_none hi]; exact (Option.some.inj h).symm
      subst hq
      rfl
  | done =>
    rw [hp] at h
    cases h

theorem answers_of_pending (h : r.pending = w :: ws) :
    r.Answers (.item (.ok w)) (r.withPending ws) :=
  ⟨nofun, 0, next_of_pending h 0⟩

/-- A poll goes on behind a step that succeeds. -/
theorem pollsLike_of_ok (hp : r.pending = []) (hq : r.cue? = some q)
    (hs : (r.stride q).result = .ok v) :
    r.PollsLike ((r.heed q).withPending (r.stride q).emits) := by
  have hstep : r.step = (some (.ok (r.stride q).emits), r.heed q) := by
    rw [step_of_cue? hq, hs]; rfl
  intro p after
  constructor
  · rintro ⟨hw, n, hn⟩
    cases n with
    | zero =>
      rw [next_zero hp] at hn
      exact absurd (congrArg Prod.fst hn).symm hw
    | succ n => exact ⟨hw, n, by rw [← hn, next_of_emits hp hstep]; rfl⟩
  · rintro ⟨hw, n, hn⟩
    exact ⟨hw, n + 1, by rw [next_of_emits hp hstep, ← hn]; rfl⟩

theorem answers_of_error (hp : r.pending = []) (hq : r.cue? = some q)
    (hs : (r.stride q).result = .error e) :
    r.Answers (.item (.error e)) { r.heed q with phase := .done } := by
  have hstep : r.step = (some (.error e), r.heed q) := by
    rw [step_of_cue? hq, hs]; rfl
  exact ⟨nofun, 1, next_of_failure hp hstep 0⟩

theorem answers_of_done (hp : r.pending = []) (hd : r.phase = .done) : r.Answers .ended r :=
  ⟨nofun, 1, next_of_done hp hd 0⟩

/-- A poll of so many steps, as the steps it takes. -/
inductive Polled :
    Nat → Run π σ τ κ ω ε φ → Poll σ τ ω ε → Run π σ τ κ ω ε φ → Prop
  | give {r : Run π σ τ κ ω ε φ} {w : ω} {ws : List ω} (n : Nat) :
      r.pending = w :: ws → Polled n r (.item (.ok w)) (r.withPending ws)
  | work {r : Run π σ τ κ ω ε φ} : r.pending = [] → Polled 0 r .working r
  | ended {r : Run π σ τ κ ω ε φ} (n : Nat) :
      r.pending = [] → r.phase = .done → Polled (n + 1) r .ended r
  | fill {n : Nat} {r after : Run π σ τ κ ω ε φ} {p : Poll σ τ ω ε} {q : Cue τ} {v : Option φ} :
      r.pending = [] → r.cue? = some q → (r.stride q).result = .ok v →
        Polled n ((r.heed q).withPending (r.stride q).emits) p after → Polled (n + 1) r p after
  | fail {r : Run π σ τ κ ω ε φ} {q : Cue τ} {e : Failure σ τ ε} (n : Nat) :
      r.pending = [] → r.cue? = some q → (r.stride q).result = .error e →
        Polled (n + 1) r (.item (.error e)) { r.heed q with phase := .done }

theorem polled_next (n : Nat) (r : Run π σ τ κ ω ε φ) : Polled n r (r.next n).1 (r.next n).2 := by
  induction n generalizing r with
  | zero =>
    cases hp : r.pending with
    | nil => rw [next_zero hp]; exact .work hp
    | cons w ws => rw [next_of_pending hp]; exact .give 0 hp
  | succ n ih =>
    cases hp : r.pending with
    | cons w ws => rw [next_of_pending hp]; exact .give (n + 1) hp
    | nil =>
      cases hq : r.cue? with
      | none =>
        have hd := cue?_eq_none_iff.1 hq
        rw [next_of_done hp hd]
        exact .ended n hp hd
      | some q =>
        cases hs : (r.stride q).result with
        | ok v =>
          rw [next_of_emits hp (by rw [step_of_cue? hq, hs]; rfl)]
          exact .fill hp hq hs (ih _)
        | error e =>
          rw [next_of_failure hp (by rw [step_of_cue? hq, hs]; rfl)]
          exact .fail n hp hq hs

theorem Polled.next_eq {n : Nat} (h : Polled n r p after) : r.next n = (p, after) := by
  induction h with
  | give n hp => exact next_of_pending hp n
  | work hp => exact next_zero hp
  | ended n hp hd => exact next_of_done hp hd n
  | fill hp hq hs _ ih =>
    rw [next_of_emits hp (by rw [step_of_cue? hq, hs]; rfl)]
    exact ih
  | fail n hp hq hs => exact next_of_failure hp (by rw [step_of_cue? hq, hs]; rfl) n

theorem Polled.machine_eq {n : Nat} (h : Polled n r p after) : after.machine = r.machine := by
  induction h with
  | fill _ _ _ _ ih => exact ih
  | _ => rfl

theorem machine_next (r : Run π σ τ κ ω ε φ) (n : Nat) : (r.next n).2.machine = r.machine :=
  (polled_next n r).machine_eq

theorem Answers.machine_eq (h : r.Answers p after) : after.machine = r.machine := by
  obtain ⟨-, n, hn⟩ := h
  rw [← r.machine_next n, hn]

theorem Drains.machine_eq (h : r.Drains xs last) : last.machine = r.machine := by
  induction h with
  | ended ha => exact ha.machine_eq
  | item ha _ ih => exact ih.trans ha.machine_eq

/-! ## Outputs that wait -/

theorem yields_pending (ws : List ω) (more : List ω) :
    (r.withPending (ws ++ more)).Yields (ws.map .ok) (r.withPending more) := by
  induction ws with
  | nil => exact .nil _
  | cons w ws ih => exact .cons (answers_of_pending rfl) ih

theorem PollsLike.yields_take (h : r.PollsLike (r'.withPending ws)) {j : Nat} (hj : ws.take j ≠ []) :
    r.Yields ((ws.take j).map .ok) (r'.withPending (ws.drop j)) := by
  have hy := yields_pending (r := r') (ws.take j) (ws.drop j)
  rw [List.take_append_drop] at hy
  exact h.yields hy fun he => hj (List.map_eq_nil_iff.1 he)

/-- Polls of the run give the outputs, and then go on as those of another run. -/
def Leads (r : Run π σ τ κ ω ε φ) (ws : List ω) (r' : Run π σ τ κ ω ε φ) : Prop :=
  ∃ mid, r.Yields (ws.map .ok) mid ∧ mid.PollsLike r'

theorem Leads.yields {vs : List ω} (h : r.Leads ws mid) (hy : mid.Yields (vs.map .ok) last)
    (hv : vs ≠ []) : r.Yields ((ws ++ vs).map .ok) last := by
  obtain ⟨r', hr, hp⟩ := h
  rw [List.map_append]
  exact hr.append (hp.yields hy fun hn => hv (List.map_eq_nil_iff.1 hn))

theorem Leads.trans {vs : List ω} (h : r.Leads ws mid) (h' : mid.Leads vs r') :
    r.Leads (ws ++ vs) r' := by
  obtain ⟨r₂, hr₂, hp₂⟩ := h'
  by_cases hv : vs = []
  · obtain ⟨r₁, hr₁, hp₁⟩ := h
    subst hv
    cases hr₂
    exact ⟨r₁, by rwa [List.append_nil], hp₁.trans hp₂⟩
  · exact ⟨r₂, h.yields hr₂ hv, hp₂⟩

theorem PollsLike.leads (h : r.PollsLike (r'.withPending ws)) : r.Leads ws (r'.withPending []) := by
  by_cases hw : ws = []
  · subst hw
    exact ⟨r, .nil r, h⟩
  · have hy := h.yields_take (by rwa [List.take_length])
    rw [List.take_length, List.drop_length] at hy
    exact ⟨_, hy, .refl _⟩

theorem Drains.of_pending (h : (r.withPending []).Drains xs last) (ws : List ω) :
    (r.withPending ws).Drains (ws.map .ok ++ xs) last := by
  induction ws with
  | nil => exact h
  | cons w ws ih => exact .item (answers_of_pending rfl) ih

/-! ## Polls up to the end -/

/-- Polls up to the end, as the steps they take. -/
inductive Drained :
    Run π σ τ κ ω ε φ → List (Except (Failure σ τ ε) ω) → Run π σ τ κ ω ε φ → Prop
  | give {r last : Run π σ τ κ ω ε φ} {w : ω} {ws : List ω} {xs : List (Except (Failure σ τ ε) ω)} :
      r.pending = w :: ws → Drained (r.withPending ws) xs last → Drained r (.ok w :: xs) last
  | ended {r : Run π σ τ κ ω ε φ} : r.pending = [] → r.phase = .done → Drained r [] r
  | fill {r last : Run π σ τ κ ω ε φ} {xs : List (Except (Failure σ τ ε) ω)} {q : Cue τ}
      {v : Option φ} :
      r.pending = [] → r.cue? = some q → (r.stride q).result = .ok v →
        Drained ((r.heed q).withPending (r.stride q).emits) xs last → Drained r xs last
  | fail {r : Run π σ τ κ ω ε φ} {q : Cue τ} {e : Failure σ τ ε} :
      r.pending = [] → r.cue? = some q → (r.stride q).result = .error e →
        Drained r [.error e] { r.heed q with phase := .done }

theorem Polled.drained {n : Nat} {x : Except (Failure σ τ ε) ω} (h : Polled n r p after)
    (hx : p = .item x) (hd : after.Drained xs last) : r.Drained (x :: xs) last := by
  induction h with
  | give n hp =>
    obtain rfl := Poll.item.inj hx
    exact .give hp hd
  | work hp => cases hx
  | ended n hp hdone => cases hx
  | fill hp hq hs _ ih => exact .fill hp hq hs (ih hx hd)
  | @fail r q e n hp hq hs =>
    obtain rfl := Poll.item.inj hx
    -- behind the failure nothing waits, and nothing is to come
    cases hd with
    | ended => exact .fail hp hq hs
    | give hp' => rw [show r.pending = _ from hp'] at hp; cases hp
    | fill _ hq' => cases hq'
    | fail _ hq' => cases hq'

theorem Polled.drained_of_ended {n : Nat} (h : Polled n r p last) (hp : p = .ended) :
    r.Drained [] last := by
  induction h with
  | give n hr => cases hp
  | work hr => cases hp
  | ended n hr hd => exact .ended hr hd
  | fill hr hq hs _ ih => exact .fill hr hq hs (ih hp)
  | fail n hr hq hs => cases hp

/-- Polls up to the end give what their steps give. -/
theorem drains_iff_drained : r.Drains xs last ↔ r.Drained xs last := by
  constructor
  · intro h
    induction h with
    | @ended r last ha =>
      obtain ⟨-, n, hn⟩ := ha
      have hp := polled_next n r
      rw [hn] at hp
      exact hp.drained_of_ended rfl
    | @item r mid last x xs ha _ ih =>
      obtain ⟨-, n, hn⟩ := ha
      have hp := polled_next n r
      rw [hn] at hp
      exact hp.drained rfl ih
  · intro h
    induction h with
    | give hp _ ih => exact .item (answers_of_pending hp) ih
    | ended hp hd => exact .ended (answers_of_done hp hd)
    | fill hp hq hs _ ih => exact (pollsLike_of_ok hp hq hs).drains ih
    | fail hp hq hs => exact .item (answers_of_error hp hq hs) (.ended (answers_of_done hp rfl))

/-! ## Whatever the run does -/

/-- The runs that polls, of so many steps each, and calls to record lead to, with the items that the
polls have given. -/
inductive Visits (r : Run π σ τ κ ω ε φ) :
    List (Except (Failure σ τ ε) ω) → Run π σ τ κ ω ε φ → Prop
  | refl : Visits r [] r
  | record {xs : List (Except (Failure σ τ ε) ω)} {mid : Run π σ τ κ ω ε φ} :
      Visits r xs mid → Visits r xs mid.recording
  | poll {xs : List (Except (Failure σ τ ε) ω)} {mid : Run π σ τ κ ω ε φ} (n : Nat) :
      Visits r xs mid → Visits r (xs ++ (mid.next n).1.items) (mid.next n).2

/-- What holds of a run and the items it has given, and goes on to hold whatever the run does. -/
structure Invariant (P : List (Except (Failure σ τ ε) ω) → Run π σ τ κ ω ε φ → Prop) : Prop where
  record {xs : List (Except (Failure σ τ ε) ω)} {r : Run π σ τ κ ω ε φ} :
    P xs r → P xs r.recording
  give {xs : List (Except (Failure σ τ ε) ω)} {r : Run π σ τ κ ω ε φ} {w : ω} {ws : List ω} :
    P xs r → r.pending = w :: ws → P (xs ++ [.ok w]) (r.withPending ws)
  fill {xs : List (Except (Failure σ τ ε) ω)} {r : Run π σ τ κ ω ε φ} {q : Cue τ} {v : Option φ} :
    P xs r → r.pending = [] → r.cue? = some q → (r.stride q).result = .ok v →
      P xs ((r.heed q).withPending (r.stride q).emits)
  fail {xs : List (Except (Failure σ τ ε) ω)} {r : Run π σ τ κ ω ε φ} {q : Cue τ}
    {e : Failure σ τ ε} :
    P xs r → r.pending = [] → r.cue? = some q → (r.stride q).result = .error e →
      P (xs ++ [.error e]) { r.heed q with phase := .done }

variable {P : List (Except (Failure σ τ ε) ω) → Run π σ τ κ ω ε φ → Prop}

theorem Invariant.next (hP : Invariant P) (h : P xs r) (n : Nat) :
    P (xs ++ (r.next n).1.items) (r.next n).2 := by
  have hn := polled_next n r
  generalize (r.next n).1 = p, (r.next n).2 = after at hn
  induction hn with
  | give n hp => exact hP.give h hp
  | work hp => simpa [Poll.items] using h
  | ended n hp hd => simpa [Poll.items] using h
  | fill hp hq hs _ ih => exact ih (hP.fill h hp hq hs)
  | fail n hp hq hs => exact hP.fail h hp hq hs

/-- What is preserved holds wherever polls and calls to record lead. -/
theorem Invariant.visits (hP : Invariant P) (h₀ : P [] r) (h : r.Visits xs last) : P xs last := by
  induction h with
  | refl => exact h₀
  | record _ ih => exact hP.record ih
  | poll n _ ih => exact hP.next ih n

theorem Visits.trans (h : r.Visits xs mid) (h' : mid.Visits ys last) : r.Visits (xs ++ ys) last := by
  induction h' with
  | refl => rwa [List.append_nil]
  | record _ ih => exact ih.record
  | poll n _ ih =>
    rw [← List.append_assoc]
    exact ih.poll n

theorem Answers.visits (h : r.Answers p after) : r.Visits p.items after := by
  obtain ⟨-, n, hn⟩ := h
  have hv := (Visits.refl (r := r)).poll n
  rwa [hn, List.nil_append] at hv

theorem Yields.visits (h : r.Yields xs last) : r.Visits xs last := by
  induction h with
  | nil => exact .refl
  | cons ha _ ih => exact ha.visits.trans ih

theorem Drains.visits (h : r.Drains xs last) : r.Visits xs last := by
  induction h with
  | ended ha => exact ha.visits
  | item ha _ ih => exact ha.visits.trans ih

end Run

end Transducer
