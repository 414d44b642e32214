import Mathlib.Data.List.Forall2
import Transducer.Proofs.Requests

/-!
# Simulations

Two machines that go the same way, each in its own states: what they do to walks that correspond
leads to walks that correspond.

* `Stride.Matches`, `Machine.Simulates`: steps that do the same to walks that correspond, and machines
  whose steps do, whatever the cue.
* `Run.Matches`, `Run.Matches.next`: **a poll of runs that correspond gives the same**, but for how a
  failure is put.
* `Run.Matches.serve`, `Run.Matches.sights`, `Run.Matches.drains`: so do all requests, and polls up to
  the end; `Run.Matches.drains_back`: and what the second gives, the first does.
* `Machine.Simulates.drive`: **executions from walks that correspond come to the same.**
-/

namespace Transducer

variable {π σ σ' τ κ ω ε φ α β : Type}

/-- What a poll gives, with a failure put another way. -/
def Poll.mapError (g : Failure σ τ ε → Failure σ' τ ε) : Poll σ τ ω ε → Poll σ' τ ω ε
  | .item x => .item (x.mapError g)
  | .ended => .ended
  | .working => .working

/-- What is seen at a poll, with the state and a failure put another way. -/
def Sight.map (f : σ → σ') (g : Failure σ τ ε → Failure σ' τ ε) (x : Sight σ τ κ ω ε) :
    Sight σ' τ κ ω ε :=
  ⟨x.answer.mapError g, x.context, f x.state, x.isDone, x.asked⟩

theorem Poll.mapError_ne_working {g : Failure σ τ ε → Failure σ' τ ε} {p : Poll σ τ ω ε}
    (h : p ≠ .working) : p.mapError g ≠ .working := by
  cases p with
  | working => exact absurd rfl h
  | _ => nofun

/-! ## Matching steps -/

section

variable {R : Walk π σ τ κ → Walk π σ' τ κ → Prop} {g : Failure σ τ ε → Failure σ' τ ε}

/-- The steps emit the same and have the same result, but for how a failure is put, and lead to walks
that correspond. -/
structure Stride.Matches (R : Walk π σ τ κ → Walk π σ' τ κ → Prop)
    (g : Failure σ τ ε → Failure σ' τ ε) (s : Stride π σ τ κ ω ε α) (s' : Stride π σ' τ κ ω ε α) :
    Prop where
  walk : R s.walk s'.walk
  emits_eq : s'.emits = s.emits
  result_eq : s'.result = s.result.mapError g

namespace Stride

variable {s : Stride π σ τ κ ω ε α} {s' : Stride π σ' τ κ ω ε α}
  {ss : List (Stride π σ τ κ ω ε α)} {ss' : List (Stride π σ' τ κ ω ε α)}

theorem Matches.map (h : s.Matches R g s') (f : α → β) : (s.map f).Matches R g (s'.map f) := by
  refine ⟨h.walk, h.emits_eq, ?_⟩
  rw [Stride.map, Stride.map, h.result_eq]
  cases s.result <;> rfl

theorem result_of_matches (h : List.Forall₂ (Matches R g) ss ss') :
    ss'.getLast?.map (·.result) = ss.getLast?.map fun s => s.result.mapError g := by
  induction h with
  | nil => rfl
  | @cons s s' rest rest' hs hrest ih =>
    cases hrest with
    | nil => simp [hs.result_eq]
    | cons => simpa using ih

theorem after_of_matches {w : Walk π σ τ κ} {w' : Walk π σ' τ κ} (hw : R w w')
    (h : List.Forall₂ (Matches R g) ss ss') : R (w.after ss) (w'.after ss') := by
  induction h generalizing w w' with
  | nil => exact hw
  | cons hs _ ih => exact ih hs.walk

end Stride

end

variable [DecidableEq σ] [DecidableEq σ'] [BEq τ] [Pattern π τ]

/-- From walks that correspond the machines take matching steps, and recording keeps walks that
correspond. -/
structure Machine.Simulates (R : Walk π σ τ κ → Walk π σ' τ κ → Prop)
    (g : Failure σ τ ε → Failure σ' τ ε) (m : Machine π σ τ κ ω ε φ) (m' : Machine π σ' τ κ ω ε φ) :
    Prop where
  stride {w : Walk π σ τ κ} {w' : Walk π σ' τ κ} (capturing : Bool) (q : Cue τ) :
    R w w' → (m.stride capturing q w).Matches R g (m'.stride capturing q w')
  record {w : Walk π σ τ κ} {w' : Walk π σ' τ κ} : R w w' → R w.recording w'.recording

variable {R : Walk π σ τ κ → Walk π σ' τ κ → Prop} {g : Failure σ τ ε → Failure σ' τ ε}

/-! ## Runs -/

namespace Run

omit [DecidableEq σ] [DecidableEq σ'] [BEq τ] [Pattern π τ] in
/-- The runs have come equally far, over the same input, with walks that correspond. -/
structure Matches (R : Walk π σ τ κ → Walk π σ' τ κ → Prop) (r : Run π σ τ κ ω ε φ)
    (r' : Run π σ' τ κ ω ε φ) : Prop where
  walk : R r.walk r'.walk
  input_eq : r'.input = r.input
  asked_eq : r'.asked = r.asked
  pending_eq : r'.pending = r.pending
  phase_eq : r'.phase = r.phase

theorem simulates_serve {r : Run π σ τ κ ω ε φ} {r' : Run π σ' τ κ ω ε φ}
    (hm : r.machine.Simulates R g r'.machine) (requests : List Request) :
    (r.serve requests).machine.Simulates R g (r'.serve requests).machine := by
  rw [machine_serve, machine_serve]
  exact hm

namespace Matches

variable {r after last : Run π σ τ κ ω ε φ} {r' : Run π σ' τ κ ω ε φ} {p : Poll σ τ ω ε} {n : Nat}
  {xs : List (Except (Failure σ τ ε) ω)}

omit [DecidableEq σ] [DecidableEq σ'] [BEq τ] [Pattern π τ] in
theorem cue?_eq (h : r.Matches R r') : r'.cue? = r.cue? := by
  rw [cue?, cue?, h.phase_eq, h.input_eq, h.asked_eq]

theorem heed (hm : r.machine.Simulates R g r'.machine) (h : r.Matches R r') (q : Cue τ) :
    (r.heed q).Matches R (r'.heed q) :=
  ⟨(hm.stride true q h.walk).walk, h.input_eq, congrArg (· + q.questions) h.asked_eq, h.pending_eq,
    rfl⟩

theorem polled (hm : r.machine.Simulates R g r'.machine) (h : r.Matches R r')
    (hp : Polled n r p after) :
    ∃ after', Polled n r' (p.mapError g) after' ∧ after.Matches R after' := by
  induction hp generalizing r' with
  | @give r w ws n hp =>
    refine ⟨r'.withPending ws, .give n (h.pending_eq.trans hp), ?_⟩
    exact ⟨h.walk, h.input_eq, h.asked_eq, rfl, h.phase_eq⟩
  | work hp => exact ⟨r', .work (h.pending_eq.trans hp), h⟩
  | ended n hp hd => exact ⟨r', .ended n (h.pending_eq.trans hp) (h.phase_eq.trans hd), h⟩
  | @fill n r after p q v hp hq hs _ ih =>
    have hstride : (r.stride q).Matches R g (r'.stride q) := hm.stride true q h.walk
    have hnext : ((r.heed q).withPending (r.stride q).emits).Matches R
        ((r'.heed q).withPending (r'.stride q).emits) := by
      have hh := h.heed hm q
      exact ⟨hh.walk, hh.input_eq, hh.asked_eq, hstride.emits_eq, rfl⟩
    obtain ⟨after', hafter, hmatch⟩ := ih (by exact hm) hnext
    refine ⟨after', .fill (v := v) (h.pending_eq.trans hp) (h.cue?_eq.trans hq) ?_ hafter, hmatch⟩
    rw [hstride.result_eq, hs]
    rfl
  | @fail r q e n hp hq hs =>
    have hresult : (r'.stride q).result = .error (g e) := by
      rw [(hm.stride true q h.walk).result_eq]
      exact congrArg (Except.mapError g) hs
    have hh := h.heed hm q
    exact ⟨_, .fail n (h.pending_eq.trans hp) (h.cue?_eq.trans hq) hresult,
      hh.walk, hh.input_eq, hh.asked_eq, hh.pending_eq, rfl⟩

/-- **A poll of runs that correspond gives the same**, and leads to runs that correspond. -/
theorem next (hm : r.machine.Simulates R g r'.machine) (h : r.Matches R r') (n : Nat) :
    (r'.next n).1 = (r.next n).1.mapError g ∧ (r.next n).2.Matches R (r'.next n).2 := by
  obtain ⟨after', hp, hmatch⟩ := h.polled hm (polled_next n r)
  rw [hp.next_eq]
  exact ⟨rfl, hmatch⟩

theorem answers (hm : r.machine.Simulates R g r'.machine) (h : r.Matches R r')
    (ha : r.Answers p after) :
    ∃ after', r'.Answers (p.mapError g) after' ∧ after.Matches R after' := by
  obtain ⟨hp, n, hn⟩ := ha
  obtain ⟨hanswer, hmatch⟩ := h.next hm n
  rw [hn] at hanswer hmatch
  exact ⟨_, ⟨Poll.mapError_ne_working hp, n, Prod.ext hanswer rfl⟩, hmatch⟩

theorem drains (hm : r.machine.Simulates R g r'.machine) (h : r.Matches R r')
    (hd : r.Drains xs last) :
    ∃ last', r'.Drains (xs.map (Except.mapError g)) last' ∧ last.Matches R last' := by
  induction hd generalizing r' with
  | ended ha =>
    obtain ⟨last', ha', hmatch⟩ := h.answers hm ha
    exact ⟨last', .ended ha', hmatch⟩
  | @item r mid last x xs ha _ ih =>
    obtain ⟨mid', ha', hmid⟩ := h.answers hm ha
    have hm' : mid.machine.Simulates R g mid'.machine := by
      rw [ha.machine_eq, ha'.machine_eq]
      exact hm
    obtain ⟨last', hd', hmatch⟩ := ih hm' hmid
    exact ⟨last', .item ha' hd', hmatch⟩

theorem answers_back (hm : r.machine.Simulates R g r'.machine) (h : r.Matches R r')
    {p' : Poll σ' τ ω ε} {after' : Run π σ' τ κ ω ε φ} (ha : r'.Answers p' after') :
    ∃ p after, r.Answers p after ∧ p' = p.mapError g ∧ after.Matches R after' := by
  obtain ⟨hp, n, hn⟩ := ha
  obtain ⟨hanswer, hmatch⟩ := h.next hm n
  rw [hn] at hanswer hmatch
  exact ⟨_, _, ⟨fun hw => hp (hanswer.trans (congrArg _ hw)), n, rfl⟩, hanswer, hmatch⟩

/-- The second run gives nothing up to its end that the first one does not give. -/
theorem drains_back (hm : r.machine.Simulates R g r'.machine) (h : r.Matches R r')
    {ys : List (Except (Failure σ' τ ε) ω)} {last' : Run π σ' τ κ ω ε φ} (hd : r'.Drains ys last') :
    ∃ xs last, r.Drains xs last ∧ ys = xs.map (Except.mapError g) ∧ last.Matches R last' := by
  induction hd generalizing r with
  | ended ha =>
    obtain ⟨p, last, ha₁, hp, hmatch⟩ := h.answers_back hm ha
    cases p with
    | ended => exact ⟨[], last, .ended ha₁, rfl, hmatch⟩
    | _ => cases hp
  | @item r' mid' last' y ys ha _ ih =>
    obtain ⟨p, mid, ha₁, hp, hmid⟩ := h.answers_back hm ha
    cases p with
    | item x =>
      have hm' : mid.machine.Simulates R g mid'.machine := by
        rw [ha₁.machine_eq, ha.machine_eq]
        exact hm
      obtain ⟨xs, last, hd₁, hxs, hmatch⟩ := ih hm' hmid
      refine ⟨x :: xs, last, .item ha₁ hd₁, ?_, hmatch⟩
      rw [List.map_cons, Poll.item.inj hp, hxs]
    | _ => cases hp

theorem attend (hm : r.machine.Simulates R g r'.machine) (h : r.Matches R r') (request : Request) :
    (r.attend request).Matches R (r'.attend request) := by
  cases request with
  | poll n => exact (h.next hm n).2
  | record => exact ⟨hm.record h.walk, h.input_eq, h.asked_eq, h.pending_eq, h.phase_eq⟩

theorem serve (hm : r.machine.Simulates R g r'.machine) (h : r.Matches R r')
    (requests : List Request) : (r.serve requests).Matches R (r'.serve requests) := by
  induction requests generalizing r r' with
  | nil => exact h
  | cons request rest ih =>
    refine ih ?_ (h.attend hm request)
    rw [machine_attend, machine_attend]
    exact hm

theorem sights {f : σ → σ'} (hm : r.machine.Simulates R g r'.machine) (h : r.Matches R r')
    (hR : ∀ w w', R w w' → w'.state = f w.state ∧ w'.context = w.context) (requests : List Request) :
    r'.sights requests = (r.sights requests).map (Sight.map f g) := by
  induction requests generalizing r r' with
  | nil => rfl
  | cons request rest ih =>
    cases request with
    | poll n =>
      obtain ⟨hanswer, hmatch⟩ := h.next hm n
      obtain ⟨hstate, hcontext⟩ := hR _ _ hmatch.walk
      have hrest := ih (by rw [machine_next, machine_next]; exact hm) hmatch
      rw [Run.sights, Run.sights, List.map_cons, hrest]
      simp only [Sight.map, hanswer, Run.context, Run.state, Run.isDone, hstate, hcontext,
        hmatch.asked_eq, hmatch.phase_eq]
    | record => exact ih (by exact hm) (h.attend hm .record)

end Matches

end Run

/-! ## Executions -/

omit [DecidableEq σ] [DecidableEq σ'] [BEq τ] [Pattern π τ] in
/-- The executions have asked as often and have the same result, but for how a failure is put, with
walks that correspond. -/
structure Execution.Matches (R : Walk π σ τ κ → Walk π σ' τ κ → Prop)
    (g : Failure σ τ ε → Failure σ' τ ε) (e : Execution π σ τ κ ε φ) (e' : Execution π σ' τ κ ε φ) :
    Prop where
  walk : R e.walk e'.walk
  asked_eq : e'.asked = e.asked
  result_eq : e'.result = e.result.mapError g

namespace Machine

variable {m : Machine π σ τ κ ω ε φ} {m' : Machine π σ' τ κ ω ε φ} {w : Walk π σ τ κ}
  {w' : Walk π σ' τ κ}

theorem Simulates.strides (hm : m.Simulates R g m') (hw : R w w') (capturing : Bool)
    (cues : List (Cue τ)) :
    List.Forall₂ (Stride.Matches R g) (m.strides capturing cues w)
      (m'.strides capturing cues w') := by
  induction cues generalizing w w' with
  | nil => exact .nil
  | cons q rest ih =>
    have hq := hm.stride capturing q hw
    have hresult := hq.result_eq
    cases hs : (m.stride capturing q w).result with
    | ok v =>
      rw [hs] at hresult
      rw [strides_cons_of_ok hs, strides_cons_of_ok hresult]
      exact .cons hq (ih hq.walk)
    | error e =>
      rw [hs] at hresult
      rw [strides_cons_of_error hs, strides_cons_of_error hresult]
      exact .cons hq .nil

/-- **Executions from walks that correspond come to the same.** -/
theorem Simulates.drive (hm : m.Simulates R g m') (hw : R w w') (tokens : List τ) :
    (m.drive tokens w).Matches R g (m'.drive tokens w') := by
  obtain ⟨hwalk, hasked, hresult⟩ := m.drive_comesOf tokens w
  obtain ⟨hwalk', hasked', hresult'⟩ := m'.drive_comesOf tokens w'
  have hss := hm.strides hw false (Cue.ofTokens tokens)
  refine ⟨?_, ?_, ?_⟩
  · rw [hwalk, hwalk']
    exact Stride.after_of_matches hw hss
  · rw [← hss.length_eq] at hasked'
    exact Nat.succ.inj (hasked'.trans hasked.symm)
  · have hlast := Stride.result_of_matches hss
    rw [hresult', ← Function.comp_def (Except.mapError g), ← Option.map_map, hresult] at hlast
    exact Option.some.inj hlast

end Machine

end Transducer
