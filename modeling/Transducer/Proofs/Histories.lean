import Mathlib.Data.List.Chain
import Transducer.Proofs.Courses
import Transducer.Proofs.Requests
import Transducer.Demo.Counter

/-!
# Recorded histories

What a history says, whenever it was begun: the transitions that the table gives for the tokens from
there on.

* `Machine.stateBefore`, `Machine.transition?`: the state before each token of an input and the
  transition for it, by the rules of the table alone.
* `Track`: what a walk says of the way it has come; `Machine.advance_cases`: **what a token does to
  it.**
* `Track.Follows`, `Track.Records`: the track is the way over an input, recorded from a place on.
* `Track.Stable`, `Run.OnTrack.serve`: **what one move preserves holds of the track of every run.**
* `History.Tells`: what a history says of the transitions from one place to another.
* `Machine.history_tells`: **a history tells of the transitions since recording began.**
-/

namespace Transducer

variable {π σ τ κ ω ε φ α : Type}

/-! ## The way over an input -/

section

variable [DecidableEq σ] [BEq τ] [Pattern π τ]

namespace Machine

variable (m : Machine π σ τ κ ω ε φ) (input : Input τ)

/-- The state before a token, if there is a rule for each of the tokens before it. -/
def stateBefore : Nat → Option σ
  | 0 => some m.initial
  | i + 1 => do
    let s ← stateBefore i
    let t ← input i
    let rule ← m.table.lookup s t
    return rule.target

/-- The transition for a token, if there is a rule for it and for each of those before it. -/
def transition? (i : Nat) : Option (Transition σ) := do
  let s ← m.stateBefore input i
  let t ← input i
  let rule ← m.table.lookup s t
  return ⟨s, rule.target, i⟩

variable {m input} {i : Nat} {s : σ} {t : τ} {rule : Rule π σ τ (Reaction σ τ κ ω ε)}
  {e : Transition σ}

theorem stateBefore_succ :
    m.stateBefore input (i + 1) = (m.transition? input i).map (·.target) := by
  simp only [stateBefore, transition?, Option.bind_eq_bind, Option.map_bind, Option.pure_def,
    Function.comp_def, Option.map_some]

theorem transition?_eq_some (hs : m.stateBefore input i = some s) (ht : input i = some t)
    (hr : m.table.lookup s t = some rule) :
    m.transition? input i = some ⟨s, rule.target, i⟩ := by
  simp only [transition?, hs, ht, hr, Option.bind_eq_bind, Option.bind_some, Option.pure_def]

theorem exists_of_transition? (h : m.transition? input i = some e) :
    ∃ s t rule, m.stateBefore input i = some s ∧ input i = some t ∧
      m.table.lookup s t = some rule ∧ e = ⟨s, rule.target, i⟩ := by
  simp only [transition?, Option.bind_eq_bind, Option.pure_def, Option.bind_eq_some_iff] at h
  obtain ⟨s, hs, t, ht, rule, hr, he⟩ := h
  exact ⟨s, t, rule, hs, ht, hr, (Option.some.inj he).symm⟩

end Machine

end

/-! ## Tracks -/

/-- What a walk says of the way it has come. -/
structure Track (σ τ : Type) where
  state : σ
  position : Nat
  history : Option (History σ)
  /-- The moves made, as the journal has them. -/
  moves : List (σ × σ × τ)

/-- The track with one move more. -/
def Track.move (k : Track σ τ) (target : σ) (token : τ) : Track σ τ :=
  ⟨target, k.position + 1, k.history.map (·.record ⟨k.state, target, k.position⟩),
    k.moves ++ [(k.state, target, token)]⟩

namespace Walk

/-- The track of the walk. -/
def track (w : Walk π σ τ κ) : Track σ τ := ⟨w.state, w.position, w.history, w.moves⟩

variable (w : Walk π σ τ κ)

theorem track_note {entries : List (Entry π σ τ)} (h : entries.filterMap Entry.move? = []) :
    (w.note entries).track = w.track := by
  have hm : (w.note entries).moves = w.moves := by rw [moves_note, h, List.append_nil]
  exact congrArg (Track.mk w.state w.position w.history) hm

theorem track_invoke (i : Invocation σ τ) (capturing : Bool) (action : Option (Action κ ω ε α)) :
    (w.invoke i capturing action).walk.track = w.track := by
  cases action with
  | none => rfl
  | some a =>
    have hn : (w.note [.invoked i]).track = w.track := w.track_note rfl
    simp only [invoke]
    cases (a capturing w.context).result <;> exact hn

theorem track_tested (labels : List (Label π τ)) (t : τ) :
    (w.note (labels.map (.tested · t))).track = w.track :=
  w.track_note (by simp [List.filterMap_eq_nil_iff, Entry.move?])

theorem track_move (s : σ) (t : τ) : (w.move s t).track = w.track.move s t :=
  congrArg _ (w.moves_move s t)

end Walk

namespace Machine

variable (m : Machine π σ τ κ ω ε φ) (capturing : Bool) (w : Walk π σ τ κ)

theorem track_start :
    (m.start capturing w).walk.track = { w.track with state := m.initial } := by
  have hn : (w.note [.event (.started m.initial)]).track = w.track := w.track_note rfl
  exact (Walk.track_invoke ..).trans (congrArg (fun k => { k with state := m.initial }) hn)

theorem track_finish : (m.finish capturing w).walk.track = w.track :=
  (Walk.track_invoke ..).trans (w.track_note rfl)

variable [DecidableEq σ] [BEq τ] [Pattern π τ]

/-- A token leads along the rule found for it, whatever its action does. Without a rule the token
leads nowhere, and the step fails. -/
theorem advance_cases (t : τ) :
    (∃ rule, m.table.lookup w.state t = some rule ∧
      (m.advance capturing t w).walk.track = w.track.move rule.target t) ∨
    ((m.advance capturing t w).walk.track = w.track ∧
      ∃ e, (m.advance capturing t w).result = .error e) := by
  simp only [advance, Table.lookup]
  cases (m.table.scan w.state t).found with
  | none => exact .inr ⟨(Walk.track_note _ rfl).trans (w.track_tested _ t), _, rfl⟩
  | some rule =>
    refine .inl ⟨rule, rfl, (Walk.track_invoke ..).trans ?_⟩
    rw [Walk.track_move, Walk.track_tested]

end Machine

/-! ## Tracks over an input -/

variable [DecidableEq σ] [BEq τ] [Pattern π τ] {m : Machine π σ τ κ ω ε φ} {input : Input τ}

namespace Track

/-- The track is the way of the machine over the input. -/
structure Follows (k : Track σ τ) (m : Machine π σ τ κ ω ε φ) (input : Input τ) : Prop where
  position_eq : k.position = k.moves.length
  state_eq : m.stateBefore input k.position = some k.state

/-- The track is the way of the machine over the input, recorded from a place on. -/
structure Records (k : Track σ τ) (m : Machine π σ τ κ ω ε φ) (input : Input τ) (p : Nat) : Prop
    extends k.Follows m input where
  le : p ≤ k.position
  history_eq : ∃ h, k.history = some h ∧
    h.transitions.map some = (List.range' p (k.position - p)).map (m.transition? input)

/-- What holds of a track goes on to hold of it whatever a walk does. -/
structure Stable (m : Machine π σ τ κ ω ε φ) (input : Input τ) (P : Track σ τ → Prop) : Prop where
  enter {k : Track σ τ} : P k → k.position = 0 → P { k with state := m.initial }
  move {k : Track σ τ} {t : τ} {rule : Rule π σ τ (Reaction σ τ κ ω ε)} :
    P k → input k.position = some t → m.table.lookup k.state t = some rule →
      P (k.move rule.target t)
  record {k : Track σ τ} : P k → P { k with history := some (k.history.getD .empty) }

variable {k : Track σ τ} {t : τ} {rule : Rule π σ τ (Reaction σ τ κ ω ε)} {p : Nat}

theorem Follows.stateBefore_moves (h : k.Follows m input) :
    m.stateBefore input k.moves.length = some k.state := by
  rw [← h.position_eq, h.state_eq]

theorem Follows.move (h : k.Follows m input) (ht : input k.position = some t)
    (hr : m.table.lookup k.state t = some rule) : (k.move rule.target t).Follows m input where
  position_eq := by
    rw [Track.move, List.length_append, ← h.position_eq]
    rfl
  state_eq := by
    change m.stateBefore input (k.position + 1) = some rule.target
    rw [Machine.stateBefore_succ, Machine.transition?_eq_some h.state_eq ht hr, Option.map_some]

theorem Records.move (h : k.Records m input p) (ht : input k.position = some t)
    (hr : m.table.lookup k.state t = some rule) : (k.move rule.target t).Records m input p := by
  obtain ⟨hs, hk, hh⟩ := h.history_eq
  have hle := h.le
  refine ⟨h.toFollows.move ht hr, Nat.le_succ_of_le hle,
    hs.record ⟨k.state, rule.target, k.position⟩, congrArg (Option.map _) hk, ?_⟩
  have hn : k.position + 1 - p = k.position - p + 1 := by omega
  have hp : p + (k.position - p) = k.position := by omega
  change _ = (List.range' p (k.position + 1 - p)).map _
  rw [History.transitions_record, List.map_append, hh, hn, List.range'_1_concat, List.map_append, hp,
    List.map_singleton, List.map_singleton, Machine.transition?_eq_some h.state_eq ht hr]

theorem stable_follows : Stable m input fun k => k.Follows m input where
  enter {k} h hp := ⟨h.position_eq, by
    change m.stateBefore input k.position = some m.initial
    rw [hp, Machine.stateBefore]⟩
  move := Follows.move
  record h := ⟨h.position_eq, h.state_eq⟩

theorem stable_records : Stable m input fun k => k.Records m input p where
  enter h hp := ⟨stable_follows.enter h.toFollows hp, h.le, h.history_eq⟩
  move := Records.move
  record {k} h := by
    obtain ⟨hs, hk, hh⟩ := h.history_eq
    exact ⟨stable_follows.record h.toFollows, h.le, hs, by rw [hk, Option.getD_some], hh⟩

theorem Follows.records (h : k.Follows m input) (hk : k.history = none) :
    ({ k with history := some (k.history.getD .empty) } : Track σ τ).Records m input k.position where
  toFollows := stable_follows.record h
  le := Nat.le_refl _
  history_eq := ⟨.empty, by rw [hk, Option.getD_none], by simp⟩

end Track

namespace Run

/-- Something holds of the track of a run of the machine over the input, and the next token to be
taken is the one that the track has come to. -/
structure OnTrack (m : Machine π σ τ κ ω ε φ) (input : Input τ) (P : Track σ τ → Prop)
    (r : Run π σ τ κ ω ε φ) : Prop where
  machine_eq : r.machine = m
  input_eq : r.input = input
  track : P r.walk.track
  position_eq : r.phase = .start → r.walk.position = 0
  asked_eq : r.phase ≠ .done → r.asked = r.walk.position

variable {P : Track σ τ → Prop} {r : Run π σ τ κ ω ε φ} {q : Cue τ}

theorem OnTrack.track_start (h : r.OnTrack m input P) :
    (r.stride .start).walk.track = { r.walk.track with state := m.initial } := by
  rw [← h.machine_eq]
  exact r.machine.track_start true r.walk

theorem OnTrack.token (hP : Track.Stable m input P) (h : r.OnTrack m input P)
    (ha : r.asked = r.walk.position) {t : τ} (hi : r.input r.asked = some t) :
    P (r.stride (.token t)).walk.track ∧ ((r.stride (.token t)).Succeeds →
      (r.stride (.token t)).walk.position = r.walk.position + 1) := by
  have hs : (r.stride (.token t)).walk.track = (m.advance true t r.walk).walk.track := by
    rw [stride, h.machine_eq]
    rfl
  obtain ⟨rule, hl, ht⟩ | ⟨ht, e, he⟩ := m.advance_cases true r.walk t
  · rw [ht] at hs
    have hk : input r.walk.track.position = some t := by
      rw [← h.input_eq, ← hi, ha]
      rfl
    exact ⟨by rw [hs]; exact hP.move h.track hk hl, fun _ => congrArg Track.position hs⟩
  · rw [ht] at hs
    refine ⟨by rw [hs]; exact h.track, fun hsucceeds => ?_⟩
    obtain ⟨v, hv⟩ := hsucceeds
    have hf : (r.stride (.token t)).result = .error e := by
      rw [stride, h.machine_eq]
      exact congrArg (Except.map _) he
    rw [hf] at hv
    cases hv

theorem OnTrack.heed (hP : Track.Stable m input P) (h : r.OnTrack m input P) (hq : r.cue? = some q)
    {p : Phase} (hp : p ≠ .start) (ws : List ω)
    (hd : p ≠ .done → (r.stride q).Succeeds ∧ q.phase ≠ .done) :
    OnTrack m input P { r.heed q with phase := p, pending := ws } := by
  suffices hs : P (r.stride q).walk.track ∧
      (p ≠ .done → r.asked + q.questions = (r.stride q).walk.position) from
    ⟨h.machine_eq, h.input_eq, hs.1, fun hn => absurd hn hp, hs.2⟩
  cases hr : r.phase with
  | done => exact absurd hr (ne_done_of_cue? hq)
  | start =>
    rw [cue?_of_start hr] at hq
    obtain rfl := Option.some.inj hq
    have ht := h.track_start
    rw [ht]
    refine ⟨hP.enter h.track (h.position_eq hr), fun _ => ?_⟩
    exact (h.asked_eq (by rw [hr]; nofun)).trans (congrArg Track.position ht).symm
  | input =>
    have ha : r.asked = r.walk.position := h.asked_eq (by rw [hr]; nofun)
    rw [cue?_of_input hr] at hq
    obtain rfl := Option.some.inj hq
    cases hi : r.input r.asked with
    | none =>
      -- behind the end of the input the run is done
      rw [Input.cue_of_none hi] at hd ⊢
      have ht : (r.stride .finish).walk.track = r.walk.track := r.machine.track_finish true r.walk
      exact ⟨by rw [ht]; exact h.track, fun hn => absurd rfl (hd hn).2⟩
    | some t =>
      rw [Input.cue_of_some hi] at hd ⊢
      obtain ⟨ht, hn⟩ := h.token hP ha hi
      exact ⟨ht, fun hnd => (congrArg (· + 1) ha).trans (hn (hd hnd).1).symm⟩

theorem onTrack_invariant (hP : Track.Stable m input P) :
    Invariant fun (_ : List (Except (Failure σ τ ε) ω)) r => r.OnTrack m input P where
  record h := ⟨h.machine_eq, h.input_eq, hP.record h.track, h.position_eq, h.asked_eq⟩
  give h _ := ⟨h.machine_eq, h.input_eq, h.track, h.position_eq, h.asked_eq⟩
  fill {_ _ q v} h _ hq hs := h.heed hP hq q.phase_ne_start _ fun hd => ⟨⟨v, hs⟩, hd⟩
  fail {_ r q _} h hp hq _ := by
    have hr : { r.heed q with phase := .done, pending := [] } = { r.heed q with phase := .done } := by
      rw [← hp]
      rfl
    have ht := h.heed hP hq (p := .done) nofun [] fun hd => absurd rfl hd
    rwa [hr] at ht

/-- **What one move preserves holds of the track of a run, whatever the run is asked for.** -/
theorem OnTrack.serve (hP : Track.Stable m input P) (h : r.OnTrack m input P)
    (requests : List Request) : (r.serve requests).OnTrack m input P := by
  obtain ⟨xs, hv⟩ := Visits.refl.serve (r := r) requests
  exact (onTrack_invariant hP).visits h hv

theorem onTrack_run (c : κ) : (m.run c input).OnTrack m input fun k => k.Follows m input :=
  ⟨rfl, rfl, ⟨rfl, rfl⟩, fun _ => rfl, fun _ => rfl⟩

theorem OnTrack.recording (h : r.OnTrack m input fun k => k.Follows m input)
    (hr : r.history = none) :
    r.recording.OnTrack m input fun k => k.Records m input r.walk.position :=
  ⟨h.machine_eq, h.input_eq, h.track.records hr, h.position_eq, h.asked_eq⟩

end Run

namespace Machine

variable {P : Track σ τ → Prop}

theorem consume_track (hP : Track.Stable m input P) {tokens : List τ} {w : Walk π σ τ κ}
    (h : P w.track) (hi : input.Gives w.position tokens) (asked : Nat) :
    let x := m.consume tokens asked w
    P x.walk.track ∧ ∀ v, x.result = .ok v → x.walk.position = w.position + tokens.length := by
  induction tokens generalizing w asked with
  | nil =>
    have ht := m.track_finish false w
    exact ⟨by rw [consume, ht]; exact h, fun _ _ => congrArg Track.position ht⟩
  | cons t rest ih =>
    rw [consume]
    obtain ⟨rule, hl, ht⟩ | ⟨ht, e, he⟩ := m.advance_cases false w t
    · have hk : P (m.advance false t w).walk.track := by
        rw [ht]
        exact hP.move h hi.1 hl
      have hp : (m.advance false t w).walk.position = w.position + 1 := congrArg Track.position ht
      cases hs : (m.advance false t w).result with
      | error e => exact ⟨hk, fun _ hv => by cases hv⟩
      | ok a =>
        obtain ⟨hx, hv⟩ := ih hk (by rw [hp]; exact hi.2) (asked + 1)
        refine ⟨hx, fun v hr => (hv v hr).trans ?_⟩
        rw [hp, List.length_cons]
        omega
    · simp only [he]
      exact ⟨by rw [ht]; exact h, fun _ hv => by cases hv⟩

/-- What one move preserves holds of the track of an execution; one that does not fail has made a
move for each token. -/
theorem drive_track (hP : Track.Stable m input P) {tokens : List τ} {w : Walk π σ τ κ}
    (h : P w.track) (hw : w.position = 0) (hi : input.Gives 0 tokens) :
    let x := m.drive tokens w
    P x.walk.track ∧ ∀ v, x.result = .ok v → x.walk.position = tokens.length := by
  have ht := m.track_start false w
  have hk : P (m.start false w).walk.track := by
    rw [ht]
    exact hP.enter h hw
  have hp : (m.start false w).walk.position = 0 := (congrArg Track.position ht).trans hw
  rw [drive]
  cases hs : (m.start false w).result with
  | error e => exact ⟨hk, fun _ hv => by cases hv⟩
  | ok a =>
    have hx := consume_track hP hk (by rw [hp]; exact hi) 0
    rwa [hp, Nat.zero_add] at hx

end Machine

/-! ## What a history tells -/

namespace History

/-- The history tells of the transitions of the machine over the input, from the one for the token
at a place to the one before another place. -/
structure Tells (h : History σ) (m : Machine π σ τ κ ω ε φ) (input : Input τ) (p n : Nat) : Prop where
  length_eq : h.length = n - p
  /-- An entry has the state before its token, the target of the rule found for it, and its place. -/
  entry : ∀ j < n - p, ∃ s t rule, m.stateBefore input (p + j) = some s ∧
    input (p + j) = some t ∧ m.table.lookup s t = some rule ∧
    h.transitions[j]? = some ⟨s, rule.target, p + j⟩
  /-- Each entry begins where the one before it ends. -/
  chain : h.transitions.IsChain fun a b => b.source = a.target
  path_eq : h.path.map some =
    if n = p then [] else (List.range' p (n - p + 1)).map (m.stateBefore input)
  lastState?_eq : p < n → h.lastState? = m.stateBefore input n

section

variable {h : History σ} {p k : Nat}
  (hh : h.transitions.map some = (List.range' p k).map (m.transition? input))

include hh

theorem length_of_transitions : h.transitions.length = k := by
  have hl := congrArg List.length hh
  rwa [List.length_map, List.length_map, List.length_range'] at hl

theorem transition?_getElem (j : Nat) (hj : j < h.transitions.length) :
    m.transition? input (p + j) = some h.transitions[j] := by
  have hg := congrArg (·[j]?) hh
  simp only [List.getElem?_map, List.getElem?_eq_getElem hj,
    List.getElem?_range' (length_of_transitions hh ▸ hj), Option.map_some, Nat.one_mul,
    Option.some.injEq] at hg
  exact hg.symm

theorem stateBefore_source (j : Nat) (hj : j < h.transitions.length) :
    m.stateBefore input (p + j) = some h.transitions[j].source := by
  obtain ⟨s, t, rule, hs, -, -, he⟩ := Machine.exists_of_transition? (transition?_getElem hh j hj)
  rw [hs, he]

theorem stateBefore_target (j : Nat) (hj : j < h.transitions.length) :
    m.stateBefore input (p + j + 1) = some h.transitions[j].target := by
  rw [Machine.stateBefore_succ, transition?_getElem hh j hj, Option.map_some]

theorem chain_of_transitions : h.transitions.IsChain fun a b => b.source = a.target := by
  rw [List.isChain_iff_getElem]
  intro j hj
  have ht := stateBefore_target hh j (by omega)
  rw [Nat.add_assoc, stateBefore_source hh (j + 1) hj] at ht
  exact Option.some.inj ht

theorem path_of_transitions :
    h.path.map some =
      if k = 0 then [] else (List.range' p (k + 1)).map (m.stateBefore input) := by
  have hl := length_of_transitions hh
  have htargets : (h.transitions.map (·.target)).map some =
      (List.range' (p + 1) k).map (m.stateBefore input) := by
    refine List.ext_getElem (by simp [hl]) fun j hj hj' => ?_
    have ht := stateBefore_target hh j (by simpa using hj)
    simp only [List.getElem_map, List.getElem_range', Nat.one_mul]
    rw [← ht, Nat.add_right_comm]
  rw [path, List.map_append, htargets]
  by_cases hk : k = 0
  · have hnil : h.transitions = [] := List.eq_nil_of_length_eq_zero (hl.trans hk)
    rw [if_pos hk, hnil, hk]
    rfl
  · have h0 : 0 < h.transitions.length := by omega
    rw [if_neg hk, List.range'_succ, List.map_cons, List.head?_eq_getElem?,
      List.getElem?_eq_getElem h0, show m.stateBefore input p = _ from stateBefore_source hh 0 h0]
    rfl

theorem lastState?_of_transitions (hk : 0 < k) :
    h.lastState? = m.stateBefore input (p + k) := by
  have hl := length_of_transitions hh
  have hlast := stateBefore_target hh (h.transitions.length - 1) (by omega)
  rw [show p + (h.transitions.length - 1) + 1 = p + k by omega] at hlast
  rw [hlast, lastState?, List.getLast?_eq_getElem?, List.getElem?_eq_getElem (by omega),
    Option.map_some]

end

/-- A history is known from the transitions for the tokens at its places. -/
theorem tells_of_transitions {h : History σ} {p n : Nat} (hle : p ≤ n)
    (hh : h.transitions.map some = (List.range' p (n - p)).map (m.transition? input)) :
    h.Tells m input p n := by
  have hl := length_of_transitions hh
  refine ⟨hl, fun j hj => ?_, chain_of_transitions hh, ?_, fun hlt => ?_⟩
  · have hj' : j < h.transitions.length := hl ▸ hj
    obtain ⟨s, t, rule, hs, ht, hr, he⟩ :=
      Machine.exists_of_transition? (transition?_getElem hh j hj')
    exact ⟨s, t, rule, hs, ht, hr, by rw [List.getElem?_eq_getElem hj', he]⟩
  · have hn : n - p = 0 ↔ n = p := by omega
    rw [path_of_transitions hh]
    simp only [hn]
  · rw [lastState?_of_transitions hh (Nat.sub_pos_of_lt hlt), Nat.add_sub_cancel' hle]

end History

/-! ## Histories of runs and executions -/

theorem Run.history_serve_polls {r : Run π σ τ κ ω ε φ} (hr : r.unrecorded = r)
    (budgets : List Nat) : (r.serve (budgets.map .poll)).history = none := by
  have hp : (budgets.map Request.poll).filter Request.isPoll = budgets.map .poll := by
    refine List.filter_eq_self.2 fun request hr => ?_
    obtain ⟨n, -, rfl⟩ := List.mem_map.1 hr
    rfl
  have hu := r.serve_unrecorded (budgets.map .poll)
  rw [hr, hp] at hu
  exact (congrArg Run.history hu).symm

theorem Run.moves_serve_recording (r : Run π σ τ κ ω ε φ) (requests more : List Request) :
    (r.recording.serve (requests ++ more)).walk.moves =
      ((r.serve requests).recording.serve more).walk.moves := by
  have hu : (r.recording.serve (requests ++ more)).unrecorded =
      ((r.serve requests).recording.serve more).unrecorded := by
    rw [serve_unrecorded, serve_unrecorded, unrecorded_recording, unrecorded_recording,
      serve_unrecorded, List.filter_append, serve_append]
  exact congrArg (·.walk.moves) hu

theorem Track.Records.tells {k : Track σ τ} {p : Nat} (h : k.Records m input p) :
    ∃ hs, k.history = some hs ∧ hs.Tells m input p k.moves.length ∧
      hs.transitions.map some = (List.range' p (k.moves.length - p)).map (m.transition? input) := by
  obtain ⟨hs, hk, hh⟩ := h.history_eq
  rw [h.position_eq] at hh
  exact ⟨hs, hk, History.tells_of_transitions (by rw [← h.position_eq]; exact h.le) hh, hh⟩

namespace Machine

/-- **A history tells of the transitions since recording began.** Of a run that has been polled, is
then asked to record and goes on in any way, it tells of the transitions from the state in which it
was asked to up to the state that has been reached; to ask again changes nothing, and what the
history does not tell is the beginning of the history of a run that has recorded from its start. The
history of an execution that does not fail tells of the transitions for all of its tokens. -/
theorem history_tells (m : Machine π σ τ κ ω ε φ) (c : κ) (input : Input τ) :
    (∀ (budgets : List Nat) (requests : List Request),
      let polls := budgets.map Request.poll
      let r := (m.run c input).serve polls
      let after := r.recording.serve requests
      let full := (m.run c input).recording.serve (polls ++ requests)
      let p := r.walk.moves.length
      let n := after.walk.moves.length
      r.history = none ∧ p ≤ n ∧
        m.stateBefore input p = some r.state ∧ m.stateBefore input n = some after.state ∧
        ∃ h₀ h, full.history = some h₀ ∧ h₀.Tells m input 0 n ∧ after.history = some h ∧
          h.Tells m input p n ∧ h.transitions = h₀.transitions.drop p ∧ after.recording = after) ∧
    ∀ tokens v, (m.executeWithHistory c tokens).result = .ok v →
      (m.executeWithHistory c tokens).history.Tells m (.ofList tokens) 0 tokens.length := by
  refine ⟨fun budgets requests => ?_, fun tokens v hv => ?_⟩
  · intro polls r after full p n
    have hr : r.OnTrack m input fun k => k.Follows m input :=
      (Run.onTrack_run c).serve Track.stable_follows polls
    have hnone : r.history = none := Run.history_serve_polls (r := m.run c input) rfl budgets
    have hafter : after.walk.track.Records m input p := by
      have hp : r.walk.position = p := hr.track.position_eq
      rw [← hp]
      exact ((hr.recording hnone).serve Track.stable_records requests).track
    have hfull : full.walk.track.Records m input 0 :=
      (((Run.onTrack_run c).recording rfl).serve Track.stable_records (polls ++ requests)).track
    have hn : full.walk.moves.length = n :=
      congrArg List.length ((m.run c input).moves_serve_recording polls requests)
    obtain ⟨h, hh, ht, he⟩ := hafter.tells
    obtain ⟨h₀, hh₀, ht₀, he₀⟩ := hfull.tells
    have hle : p ≤ n := Nat.le_trans hafter.le (Nat.le_of_eq hafter.position_eq)
    refine ⟨hnone, hle, hr.track.stateBefore_moves, hafter.stateBefore_moves, h₀, h, hh₀, hn ▸ ht₀,
      hh, ht, ?_, Run.recording_of_history hh⟩
    -- each history holds the transitions at its places, and those of the one end those of the other
    have hdrop : (h₀.transitions.drop p).map some = h.transitions.map some := by
      rw [List.map_drop, he₀, he, ← List.map_drop, List.drop_range', Nat.zero_add, Nat.mul_one,
        Nat.sub_zero, show full.walk.track.moves.length = after.walk.track.moves.length from hn]
    exact ((List.map_inj_right fun _ _ => Option.some.inj).1 hdrop).symm
  · have hw : (m.walk c).recording.track.Records m (.ofList tokens) 0 :=
      ((Run.onTrack_run c).recording rfl).track
    obtain ⟨hx, hp⟩ := drive_track Track.stable_records hw rfl (Input.gives_ofList tokens)
    obtain ⟨h, hh, ht, -⟩ := hx.tells
    have hn : (m.executeWithHistory c tokens).walk.moves.length = tokens.length :=
      hx.position_eq.symm.trans (hp v hv)
    have hhist : (m.executeWithHistory c tokens).history = h :=
      congrArg (fun o : Option (History σ) => o.getD .empty) hh
    rw [hhist, ← hn]
    exact ht

open Demo.Counter in
/-- The counter goes on at its start with each one, and leaves it with the zero: asked to record
between the ones it tells of the last two tokens, and executed it tells of all three. -/
theorem history_tells_counter :
    let r := (counter.run 7 (.ofList [1, 1, 0])).serve [.poll 2]
    (∃ h, (r.recording.serve [.poll 2, .record]).history = some h ∧
        h.Tells counter (.ofList [1, 1, 0]) 1 3 ∧ h.path = ["start", "start", "end"]) ∧
      (counter.executeWithHistory 7 [1, 1, 0]).result = .ok (some 2) ∧
      (counter.executeWithHistory 7 [1, 1, 0]).history.Tells counter (.ofList [1, 1, 0]) 0 3 ∧
      (counter.executeWithHistory 7 [1, 1, 0]).history.path = ["start", "start", "start", "end"] := by
  intro r
  obtain ⟨hr, he⟩ := history_tells counter 7 (.ofList [1, 1, 0])
  obtain ⟨-, -, -, -, -, h, -, -, hh, ht, -⟩ := hr [2] [.poll 2, .record]
  have hx : (counter.executeWithHistory 7 [1, 1, 0]).result = .ok (some 2) := rfl
  refine ⟨⟨h, hh, ht, ?_⟩, hx, he [1, 1, 0] (some 2) hx, rfl⟩
  obtain rfl := Option.some.inj hh
  rfl

end Machine

end Transducer
