import Transducer.Execution
import Transducer.Run

/-!
# The steps of a walk

A walk is driven by cues: the start, then what the input answers to each question. Both ways to
run a machine take its steps in this order, so what they do is read off the list of the steps.

* `Cue`, `Input.cues`, `Cue.ofTokens`: what a walk is driven by.
* `Input.Gives`: the input gives the tokens of a list, and then its end.
* `Machine.stride`, `Machine.strides`: the step for a cue, and the steps for a list of cues, up to
  the first that fails.
* `Cue.exists_ofTokens`: the cues of tokens that begin as an input does.
* `Walk.after`: the walk after some steps.
* `Machine.strides_append`: **if no step fails, the steps for more cues go on from where they led.**
* `Machine.take_strides`, `Machine.succeeds_take`: the first steps are those for the first cues, and
  only the last step can fail.
* `Machine.drive_comesOf`: **an executed run is the list of its steps.**
-/

namespace Transducer

/-- What a walk is driven by. -/
inductive Cue (τ : Type) where
  | start
  | token (token : τ)
  | finish

variable {π σ τ κ ω ε φ α : Type}

/-- The cues of a whole run over a list of tokens. -/
def Cue.ofTokens (tokens : List τ) : List (Cue τ) := .start :: (tokens.map .token ++ [.finish])

namespace Input

/-- The cue that the answer to a question is. -/
def cue (input : Input τ) (i : Nat) : Cue τ :=
  match input i with
  | some t => .token t
  | none => .finish

/-- The start, and the answers to the first questions. -/
def cues (input : Input τ) (n : Nat) : List (Cue τ) := .start :: (List.range n).map input.cue

/-- From a question on, the input gives the tokens of a list, and then says that it is at its
end. -/
def Gives (input : Input τ) : Nat → List τ → Prop
  | i, [] => input i = none
  | i, t :: rest => input i = some t ∧ input.Gives (i + 1) rest

variable {input input' : Input τ} {i n : Nat} {t : τ}

theorem cue_of_some (h : input i = some t) : input.cue i = .token t := by
  rw [cue, h]

theorem cue_of_none (h : input i = none) : input.cue i = .finish := by
  rw [cue, h]

theorem cues_succ (n : Nat) : input.cues (n + 1) = input.cues n ++ [input.cue n] := by
  simp [cues, List.range_succ]

theorem length_cues (input : Input τ) (n : Nat) : (input.cues n).length = n + 1 := by
  simp [cues]

theorem cues_congr (h : ∀ i < n, input' i = input i) : input'.cues n = input.cues n := by
  induction n with
  | zero => rfl
  | succ n ih =>
    rw [cues_succ, cues_succ, ih fun i hi => h i (by omega), cue, cue, h n (by omega)]

theorem map_cue_range' (h : ∀ j < n, (input (i + j)).isSome) :
    (List.range' i n).map input.cue = (input.tokensFrom i n).map .token := by
  induction n generalizing i with
  | zero => rfl
  | succ n ih =>
    obtain ⟨t, ht⟩ := Option.isSome_iff_exists.1 (h 0 n.succ_pos)
    have hrest := ih (i := i + 1) fun j hj => by
      rw [Nat.add_right_comm]
      exact h (j + 1) (Nat.succ_lt_succ hj)
    rw [Nat.add_zero] at ht
    rw [List.range'_succ, List.map_cons, hrest, cue_of_some ht, tokensFrom, ht, List.map_cons]

theorem tokensFrom_succ_of_none (h : input (i + n) = none) :
    input.tokensFrom i (n + 1) = input.tokensFrom i n := by
  induction n generalizing i with
  | zero => simp only [tokensFrom, show input i = none from h]
  | succ n ih =>
    have hrest := ih (i := i + 1) (by rwa [Nat.add_assoc, Nat.add_comm 1])
    rw [tokensFrom, hrest]
    rfl

theorem front_succ_of_none (h : input n = none) : input.front (n + 1) = input.front n :=
  tokensFrom_succ_of_none (by rwa [Nat.zero_add])

theorem cues_of_isSome (h : ∀ i < n, (input i).isSome) :
    input.cues n = .start :: (input.front n).map .token := by
  rw [cues, List.range_eq_range', map_cue_range' fun j hj => by rw [Nat.zero_add]; exact h j hj]
  rfl

theorem gives_ofList_drop (tokens : List τ) (n : Nat) :
    (ofList tokens).Gives n (tokens.drop n) := by
  induction hd : tokens.drop n generalizing n with
  | nil =>
    rw [List.drop_eq_nil_iff] at hd
    exact List.getElem?_eq_none hd
  | cons t rest ih =>
    have ht : tokens[n]? = some t := by rw [← List.head?_drop, hd]; rfl
    have hrest : tokens.drop (n + 1) = rest := by rw [← List.tail_drop, hd]; rfl
    exact ⟨ht, ih (n + 1) hrest⟩

theorem gives_ofList (tokens : List τ) : (ofList tokens).Gives 0 tokens :=
  gives_ofList_drop tokens 0

theorem given_of_isSome (h : ∀ i < n, (input i).isSome) : input.given n = n := by
  rw [given, List.countP_eq_length.2 fun i hi => h i (List.mem_range.1 hi), List.length_range]

theorem isSome_ofList (tokens : List τ) (i : Nat) (hi : i < tokens.length) :
    (ofList tokens i).isSome := by
  rw [ofList_apply, List.getElem?_eq_getElem hi]
  rfl

end Input

theorem Input.exists_cues_of_le (input : Input τ) {k n : Nat} (h : n ≤ k) :
    ∃ rest, input.cues k = input.cues n ++ rest := by
  induction h with
  | refl => exact ⟨[], (List.append_nil _).symm⟩
  | @step k _ ih =>
    obtain ⟨rest, hr⟩ := ih
    exact ⟨rest ++ [input.cue k], by rw [cues_succ, hr, List.append_assoc]⟩

theorem Input.take_cues (input : Input τ) {k n : Nat} (h : k ≤ n) :
    (input.cues n).take (k + 1) = input.cues k := by
  obtain ⟨rest, hr⟩ := input.exists_cues_of_le h
  rw [hr, List.take_left' (input.length_cues k)]

theorem Cue.length_ofTokens (tokens : List τ) : (ofTokens tokens).length = tokens.length + 2 := by
  rw [ofTokens, List.length_cons, List.length_append, List.length_map, List.length_singleton]

theorem Cue.ofTokens_eq_cues (tokens : List τ) :
    ofTokens tokens = (Input.ofList tokens).cues (tokens.length + 1) := by
  have hend : Input.ofList tokens tokens.length = none := List.getElem?_eq_none (Nat.le_refl _)
  rw [Input.cues_succ, Input.cues_of_isSome (Input.isSome_ofList tokens), Input.front_ofList, List.take_length,
    Input.cue_of_none hend]
  rfl

/-- The cues of tokens that are those of an input up to a question begin with the cues of the input
up to there. -/
theorem Cue.exists_ofTokens {input : Input τ} {tokens : List τ} {n : Nat}
    (hs : ∀ i, i + 1 < n → (input i).isSome) (ht : ∀ i < n, Input.ofList tokens i = input i) :
    ∃ rest, ofTokens tokens = input.cues n ++ rest := by
  have hn : n ≤ tokens.length + 1 := by
    refine Nat.le_of_not_lt fun hlt => ?_
    have hend : Input.ofList tokens tokens.length = none := List.getElem?_eq_none (Nat.le_refl _)
    have hsome := hs tokens.length (by omega)
    rw [← ht _ (by omega), hend] at hsome
    cases hsome
  obtain ⟨rest, hr⟩ := (Input.ofList tokens).exists_cues_of_le hn
  exact ⟨rest, by rw [ofTokens_eq_cues, hr, Input.cues_congr ht]⟩

/-! ## One step -/

/-- The failure that a result is, if it is one. -/
def Failure.of? : Except (Failure σ τ ε) α → Option (Failure σ τ ε)
  | .ok _ => none
  | .error e => some e

namespace Stride

/-- The step does not fail. -/
def Succeeds (s : Stride π σ τ κ ω ε α) : Prop := ∃ a, s.result = .ok a

/-- What the step makes a run give: its outputs, or its failure alone. -/
def items (s : Stride π σ τ κ ω ε α) : List (Except (Failure σ τ ε) ω) :=
  match s.result with
  | .ok _ => s.emits.map .ok
  | .error e => [.error e]

variable {s : Stride π σ τ κ ω ε α} {a : α} {e : Failure σ τ ε}

theorem items_of_ok (h : s.result = .ok a) : s.items = s.emits.map .ok := by
  rw [items, h]

theorem items_of_error (h : s.result = .error e) : s.items = [.error e] := by
  rw [items, h]

theorem flatMap_items {ss : List (Stride π σ τ κ ω ε α)} (h : ∀ s ∈ ss, s.Succeeds) :
    ss.flatMap items = (ss.flatMap (·.emits)).map .ok := by
  have hi : ∀ s ∈ ss, s.items = s.emits.map .ok := fun s hs =>
    let ⟨_, ha⟩ := h s hs
    items_of_ok ha
  rw [List.map_flatMap, List.flatMap_def, List.map_congr_left hi, ← List.flatMap_def]

theorem getLast?_result_cons {ss : List (Stride π σ τ κ ω ε α)} {r : Except (Failure σ τ ε) α}
    (h : ss.getLast?.map (·.result) = some r) : (s :: ss).getLast?.map (·.result) = some r := by
  cases ss with
  | nil => cases h
  | cons s' ss => rwa [List.getLast?_cons_cons]

theorem failure?_cons {ss : List (Stride π σ τ κ ω ε α)} (h : s.result = .ok a) :
    ((s :: ss).getLast?.map (·.result)).bind Failure.of? =
      (ss.getLast?.map (·.result)).bind Failure.of? := by
  cases ss with
  | nil => simp [h, Failure.of?]
  | cons s' ss => rw [List.getLast?_cons_cons]

end Stride

namespace Walk

/-- The walk that has entered a state, before anything is done there. -/
def enter (w : Walk π σ τ κ) (s : σ) : Walk π σ τ κ :=
  { w.note [.event (.started s)] with state := s }

/-- The walk at the end of the input, before anything is done there. -/
def leave (w : Walk π σ τ κ) : Walk π σ τ κ := w.note [.event (.finished w.state w.position)]

/-- The walk after some steps. -/
def after (w : Walk π σ τ κ) (ss : List (Stride π σ τ κ ω ε α)) : Walk π σ τ κ :=
  ss.foldl (fun _ s => s.walk) w

variable {w : Walk π σ τ κ} {s : Stride π σ τ κ ω ε α} {ss more : List (Stride π σ τ κ ω ε α)}

@[simp] theorem after_nil : w.after ([] : List (Stride π σ τ κ ω ε α)) = w := rfl

@[simp] theorem after_cons : w.after (s :: ss) = s.walk.after ss := rfl

@[simp] theorem after_append : w.after (ss ++ more) = (w.after ss).after more := List.foldl_append

end Walk

variable [DecidableEq σ] [BEq τ] [Pattern π τ]

namespace Machine

variable (m : Machine π σ τ κ ω ε φ) (capturing : Bool)

/-- The step for a cue; only the step for the end has a value. -/
def stride : Cue τ → Walk π σ τ κ → Stride π σ τ κ ω ε (Option φ)
  | .start, w => (m.start capturing w).map fun _ => none
  | .token t, w => (m.advance capturing t w).map fun _ => none
  | .finish, w => m.finish capturing w

/-- The steps for a list of cues, up to the first that fails. -/
def strides : List (Cue τ) → Walk π σ τ κ → List (Stride π σ τ κ ω ε (Option φ))
  | [], _ => []
  | q :: rest, w =>
    let s := m.stride capturing q w
    match s.result with
    | .ok _ => s :: strides rest s.walk
    | .error _ => [s]

variable {m capturing} {q : Cue τ} {cues rest : List (Cue τ)} {w : Walk π σ τ κ} {v : Option φ}
  {e : Failure σ τ ε}

@[simp] theorem strides_nil : m.strides capturing [] w = [] := rfl

theorem strides_cons_of_ok (h : (m.stride capturing q w).result = .ok v) :
    m.strides capturing (q :: rest) w =
      m.stride capturing q w :: m.strides capturing rest (m.stride capturing q w).walk := by
  rw [strides]
  simp only [h]

theorem strides_cons_of_error (h : (m.stride capturing q w).result = .error e) :
    m.strides capturing (q :: rest) w = [m.stride capturing q w] := by
  rw [strides]
  simp only [h]

@[simp] theorem strides_singleton : m.strides capturing [q] w = [m.stride capturing q w] := by
  cases h : (m.stride capturing q w).result with
  | ok v => rw [strides_cons_of_ok h, strides_nil]
  | error e => rw [strides_cons_of_error h]

theorem length_strides_cons_pos : 0 < (m.strides capturing (q :: rest) w).length := by
  cases hs : (m.stride capturing q w).result with
  | ok v => rw [strides_cons_of_ok hs]; exact Nat.succ_pos _
  | error e => rw [strides_cons_of_error hs]; exact Nat.one_pos

theorem head_of_succeeds (h : ∀ s ∈ m.strides capturing (q :: rest) w, s.Succeeds) :
    ∃ v, (m.stride capturing q w).result = .ok v := by
  refine h _ ?_
  cases hs : (m.stride capturing q w).result with
  | ok v => rw [strides_cons_of_ok hs]; exact List.mem_cons_self
  | error e => rw [strides_cons_of_error hs]; exact List.mem_cons_self

theorem succeeds_of_append (h : ∀ s ∈ m.strides capturing (cues ++ rest) w, s.Succeeds) :
    ∀ s ∈ m.strides capturing cues w, s.Succeeds := by
  induction cues generalizing w with
  | nil => exact nofun
  | cons q cues ih =>
    rw [List.cons_append] at h
    obtain ⟨v, hs⟩ := head_of_succeeds h
    rw [strides_cons_of_ok hs, List.forall_mem_cons] at h ⊢
    exact ⟨h.1, ih h.2⟩

theorem length_strides (h : ∀ s ∈ m.strides capturing cues w, s.Succeeds) :
    (m.strides capturing cues w).length = cues.length := by
  induction cues generalizing w with
  | nil => rfl
  | cons q rest ih =>
    obtain ⟨v, hs⟩ := head_of_succeeds h
    rw [strides_cons_of_ok hs, List.forall_mem_cons] at h
    rw [strides_cons_of_ok hs, List.length_cons, List.length_cons, ih h.2]

/-- If no step fails, the steps for more cues go on from where they led. -/
theorem strides_append (h : ∀ s ∈ m.strides capturing cues w, s.Succeeds) :
    m.strides capturing (cues ++ rest) w = m.strides capturing cues w ++
      m.strides capturing rest (w.after (m.strides capturing cues w)) := by
  induction cues generalizing w with
  | nil => rfl
  | cons q cues ih =>
    obtain ⟨v, hs⟩ := head_of_succeeds h
    rw [strides_cons_of_ok hs] at h ⊢
    rw [List.cons_append, strides_cons_of_ok hs, ih fun s hm => h s (List.mem_cons_of_mem _ hm),
      List.cons_append, Walk.after_cons]

theorem strides_append_of_failure (h : ¬ ∀ s ∈ m.strides capturing cues w, s.Succeeds) :
    m.strides capturing (cues ++ rest) w = m.strides capturing cues w := by
  induction cues generalizing w with
  | nil => exact absurd (fun _ hs => absurd hs List.not_mem_nil) h
  | cons q cues ih =>
    rw [List.cons_append]
    cases hs : (m.stride capturing q w).result with
    | error e => rw [strides_cons_of_error hs, strides_cons_of_error hs]
    | ok v =>
      rw [strides_cons_of_ok hs, List.forall_mem_cons, not_and] at h
      rw [strides_cons_of_ok hs, strides_cons_of_ok hs, ih (h ⟨v, hs⟩)]

/-- The first steps are the steps for the first cues. -/
theorem take_strides (m : Machine π σ τ κ ω ε φ) (capturing : Bool) (cues : List (Cue τ))
    (w : Walk π σ τ κ) (k : Nat) :
    (m.strides capturing cues w).take k = m.strides capturing (cues.take k) w := by
  induction cues generalizing w k with
  | nil => rw [List.take_nil, strides_nil, List.take_nil]
  | cons q rest ih =>
    cases k with
    | zero => rfl
    | succ k =>
      rw [List.take_succ_cons]
      cases hs : (m.stride capturing q w).result with
      | ok v => rw [strides_cons_of_ok hs, strides_cons_of_ok hs, List.take_succ_cons, ih]
      | error e =>
        rw [strides_cons_of_error hs, strides_cons_of_error hs, List.take_succ_cons, List.take_nil]

theorem length_strides_le (m : Machine π σ τ κ ω ε φ) (capturing : Bool) (cues : List (Cue τ))
    (w : Walk π σ τ κ) : (m.strides capturing cues w).length ≤ cues.length := by
  have htake := m.take_strides capturing cues w cues.length
  rw [List.take_length] at htake
  rw [← htake]
  exact List.length_take_le ..

/-- Of some steps all but the last one succeed. -/
theorem succeeds_take {k : Nat} (hk : k < (m.strides capturing cues w).length) :
    ∀ s ∈ (m.strides capturing cues w).take k, s.Succeeds := by
  refine Classical.byContradiction fun hfails => ?_
  rw [take_strides] at hfails
  have hsame : m.strides capturing (cues.take k ++ cues.drop k) w =
      m.strides capturing (cues.take k) w := strides_append_of_failure hfails
  have hlength := congrArg List.length hsame
  rw [List.take_append_drop, ← take_strides, List.length_take] at hlength
  omega

end Machine

/-! ## Executed runs -/

/-- The execution is what the steps of a walk come to, if so many questions have been asked
before. -/
structure Execution.ComesOf (x : Execution π σ τ κ ε φ) (asked : Nat) (w : Walk π σ τ κ)
    (ss : List (Stride π σ τ κ ω ε (Option φ))) : Prop where
  walk_eq : x.walk = w.after ss
  asked_eq : x.asked = asked + ss.length
  result_eq : ss.getLast?.map (·.result) = some x.result

namespace Machine

variable {m : Machine π σ τ κ ω ε φ}

theorem consume_comesOf (tokens : List τ) (asked : Nat) (w : Walk π σ τ κ) :
    (m.consume tokens asked w).ComesOf asked w
      (m.strides false (tokens.map .token ++ [.finish]) w) := by
  induction tokens generalizing asked w with
  | nil => exact ⟨by simp [consume, stride], by simp [consume], by simp [consume, stride]⟩
  | cons t rest ih =>
    rw [consume, List.map_cons, List.cons_append]
    cases hs : (m.advance false t w).result with
    | error e =>
      have hr : (m.stride false (.token t) w).result = .error e := congrArg (Except.map _) hs
      rw [strides_cons_of_error hr]
      exact ⟨rfl, rfl, congrArg some hr⟩
    | ok a =>
      have hr : (m.stride false (.token t) w).result = .ok none := congrArg (Except.map _) hs
      rw [strides_cons_of_ok hr]
      obtain ⟨hw, ha, hl⟩ := ih (asked + 1) (m.stride false (.token t) w).walk
      exact ⟨hw, ha.trans (by rw [List.length_cons]; omega), Stride.getLast?_result_cons hl⟩

/-- An executed run is the list of its steps, each of which asks once but for the start. -/
theorem drive_comesOf (tokens : List τ) (w : Walk π σ τ κ) :
    let ss := m.strides false (Cue.ofTokens tokens) w
    (m.drive tokens w).walk = w.after ss ∧ (m.drive tokens w).asked + 1 = ss.length ∧
      ss.getLast?.map (·.result) = some (m.drive tokens w).result := by
  intro ss
  have hss : ss = m.strides false (.start :: (tokens.map .token ++ [.finish])) w := rfl
  rw [drive, hss]
  cases hs : (m.start false w).result with
  | error e =>
    have hr : (m.stride false .start w).result = .error e := congrArg (Except.map _) hs
    rw [strides_cons_of_error hr]
    exact ⟨rfl, rfl, congrArg some hr⟩
  | ok a =>
    have hr : (m.stride false .start w).result = .ok none := congrArg (Except.map _) hs
    rw [strides_cons_of_ok hr]
    -- the start asks nothing: there is one step more than there are questions
    obtain ⟨hw, ha, hl⟩ := consume_comesOf (m := m) tokens 0 (m.stride false .start w).walk
    exact ⟨hw, by rw [List.length_cons, ← Nat.zero_add (List.length _), ← ha]; rfl,
      Stride.getLast?_result_cons hl⟩

end Machine

end Transducer
