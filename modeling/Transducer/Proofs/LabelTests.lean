import Transducer.Proofs.Endings
import Transducer.Proofs.Histories
import Transducer.Proofs.Patterns
import Transducer.Kind
import Transducer.Range

/-!
# Which labels are put to which tokens

The labels that a run has put to tokens, read off the rules of the state before each token: for each
token that has been taken those of the first rules of the state, up to the one that is for it.

* `Rule.upTo`: rules up to the first that is for a token; `Scan.tested_ofRules`: **their labels are
  those that a scan puts to the token.**
* `Walk.tests`: the tests that a walk has made; `Machine.tests_advance`: **a token adds its own.**
* `Machine.testsAt`, `Machine.tests`: the tests that the tokens of an input call for.
* `Machine.Stands`: the walk has made the tests for the tokens before a place, and is in the state
  before it; `Machine.tests_cues`: **the steps of a walk make the tests for their tokens.**
* `Machine.tests_each_token`: **what runs and executions have tested, wherever they are.**
-/

namespace Transducer

variable {π π' σ τ κ ω ε φ α : Type}

/-! ## The tests of a scan -/

section

variable [BEq τ] [Pattern π τ]

/-- The rules up to the first that is for the token; all of them, if none is. -/
def Rule.upTo (rs : List (Rule π σ τ α)) (t : τ) : List (Rule π σ τ α) :=
  rs.take (rs.findIdx (·.admits t) + 1)

theorem Scan.tested_ofRules (rs : List (Rule π σ τ α)) (t : τ) :
    (Scan.ofRules rs t).tested = (Rule.upTo rs t).map (·.label) := by
  induction rs with
  | nil => rfl
  | cons r rest ih =>
    rw [Scan.ofRules, Rule.upTo, List.findIdx_cons]
    cases r.admits t with
    | true => rfl
    | false =>
      simp only [ih, Rule.upTo, cond_false, Bool.false_eq_true, if_false, List.take_succ_cons,
        List.map_cons]

end

/-! ## The tests of a walk -/

namespace Walk

/-- The tests that the walk has made, each of a label and a token. -/
def tests (w : Walk π σ τ κ) : List (Label π τ × τ) := w.journal.filterMap Entry.test?

variable (w : Walk π σ τ κ)

@[simp] theorem tests_note (entries : List (Entry π σ τ)) :
    (w.note entries).tests = w.tests ++ entries.filterMap Entry.test? :=
  List.filterMap_append

@[simp] theorem tests_tested (labels : List (Label π τ)) (t : τ) :
    (w.note (labels.map (.tested · t))).tests = w.tests ++ labels.map (·, t) := by
  rw [tests_note, List.filterMap_map, ← List.filterMap_eq_map]
  rfl

@[simp] theorem tests_event (e : Event σ τ) : (w.note [.event e]).tests = w.tests :=
  (w.tests_note _).trans (List.append_nil _)

@[simp] theorem tests_move (s : σ) (t : τ) : (w.move s t).tests = w.tests := w.tests_event _

@[simp] theorem tests_invoke (i : Invocation σ τ) (capturing : Bool)
    (action : Option (Action κ ω ε α)) : (w.invoke i capturing action).walk.tests = w.tests := by
  cases action with
  | none => rfl
  | some a =>
    have hn : (w.note [.invoked i]).tests = w.tests := (w.tests_note _).trans (List.append_nil _)
    simp only [invoke]
    cases (a capturing w.context).result <;> exact hn

end Walk

namespace Machine

section

variable (m : Machine π σ τ κ ω ε φ) (capturing : Bool) (w : Walk π σ τ κ)

theorem tests_start : (m.start capturing w).walk.tests = w.tests :=
  (Walk.tests_invoke ..).trans (w.tests_event _)

theorem tests_finish : (m.finish capturing w).walk.tests = w.tests :=
  (Walk.tests_invoke ..).trans (w.tests_event _)

end

variable [DecidableEq σ] [BEq τ] [Pattern π τ] (m : Machine π σ τ κ ω ε φ)

/-- The tests that a token calls for in a state. -/
def testsFor (s : σ) (t : τ) : List (Label π τ × τ) :=
  (Rule.upTo (m.table.rules s) t).map fun r => (r.label, t)

/-- The tests that the token at a place of the input calls for in the state before it. -/
def testsAt (input : Input τ) (i : Nat) : List (Label π τ × τ) :=
  match m.stateBefore input i, input i with
  | some s, some t => m.testsFor s t
  | _, _ => []

/-- The tests that the tokens of the input before a place call for, token by token. -/
def tests (input : Input τ) (n : Nat) : List (Label π τ × τ) :=
  (List.range n).flatMap (m.testsAt input)

theorem tests_advance (capturing : Bool) (t : τ) (w : Walk π σ τ κ) :
    (m.advance capturing t w).walk.tests = w.tests ++ m.testsFor w.state t := by
  have htests : (w.note ((m.table.scan w.state t).tested.map (.tested · t))).tests =
      w.tests ++ m.testsFor w.state t := by
    rw [Walk.tests_tested, Table.scan, Scan.tested_ofRules, List.map_map]
    rfl
  simp only [advance]
  cases (m.table.scan w.state t).found with
  | none => exact (Walk.tests_event ..).trans htests
  | some rule => exact (Walk.tests_invoke ..).trans ((Walk.tests_move ..).trans htests)

theorem tests_stride_of_no_token {q : Cue τ} (hq : q.token? = none) (capturing : Bool)
    (w : Walk π σ τ κ) : (m.stride capturing q w).walk.tests = w.tests := by
  cases q with
  | start => exact m.tests_start capturing w
  | token t => cases hq
  | finish => exact m.tests_finish capturing w

/-! ## The tests over an input -/

variable {m} {input : Input τ} {i n : Nat} {s : σ} {t : τ} {capturing : Bool} {w : Walk π σ τ κ}

theorem testsAt_of_token (hs : m.stateBefore input i = some s) (ht : input i = some t) :
    m.testsAt input i = m.testsFor s t := by
  rw [testsAt, hs, ht]

theorem testsAt_of_end (hi : input i = none) : m.testsAt input i = [] := by
  rw [testsAt, hi]
  cases m.stateBefore input i <;> rfl

theorem tests_succ (m : Machine π σ τ κ ω ε φ) (input : Input τ) (n : Nat) :
    m.tests input (n + 1) = m.tests input n ++ m.testsAt input n := by
  rw [tests, List.range_succ, List.flatMap_append, List.flatMap_singleton, tests]

/-- The walk has made the tests for the tokens of the input before a place, each of them in the state
before its token. -/
structure Tested (m : Machine π σ τ κ ω ε φ) (input : Input τ) (n : Nat) (w : Walk π σ τ κ) :
    Prop where
  tests_eq : w.tests = m.tests input n
  exists_state : ∀ i < n, ∃ s, m.stateBefore input i = some s

/-- The walk has made the tests for the tokens of the input before a place, and is in the state before
that place. -/
structure Stands (m : Machine π σ τ κ ω ε φ) (input : Input τ) (n : Nat) (w : Walk π σ τ κ) : Prop
    extends m.Tested input n w where
  state_eq : m.stateBefore input n = some w.state

theorem Stands.tested_stride (h : m.Stands input i w) :
    m.Tested input (i + 1) (m.stride capturing (input.cue i) w).walk where
  tests_eq := by
    rw [tests_succ, ← h.tests_eq]
    cases hi : input i with
    | none =>
      rw [Input.cue_of_none hi, testsAt_of_end hi, List.append_nil]
      exact m.tests_finish capturing w
    | some t =>
      rw [Input.cue_of_some hi, testsAt_of_token h.state_eq hi]
      exact m.tests_advance capturing t w
  exists_state j hj := by
    obtain hj | rfl := Nat.lt_succ_iff_lt_or_eq.1 hj
    · exact h.exists_state j hj
    · exact ⟨w.state, h.state_eq⟩

theorem Stands.stride (h : m.Stands input i w) (hi : (input i).isSome)
    (hs : (m.stride capturing (input.cue i) w).Succeeds) :
    m.Stands input (i + 1) (m.stride capturing (input.cue i) w).walk where
  toTested := h.tested_stride
  state_eq := by
    obtain ⟨t, hi⟩ := Option.isSome_iff_exists.1 hi
    rw [Input.cue_of_some hi] at hs ⊢
    obtain ⟨rule, hl, ht⟩ | ⟨-, e, he⟩ := m.advance_cases capturing w t
    · rw [stateBefore_succ, transition?_eq_some h.state_eq hi hl, Option.map_some]
      exact congrArg some (congrArg Track.state ht).symm
    · obtain ⟨v, hv⟩ := hs
      rw [show (m.stride capturing (.token t) w).result = .error e from
        congrArg (Except.map _) he] at hv
      cases hv

theorem stands_start (hw : w.tests = []) : m.Stands input 0 (m.stride capturing .start w).walk where
  tests_eq := (m.tests_start capturing w).trans hw
  exists_state _ hi := absurd hi (Nat.not_lt_zero _)
  state_eq := (congrArg some (congrArg Track.state (m.track_start capturing w))).symm

/-- The steps for the start and the answers of the input, of which at most the last one is no token,
make the tests for all of these for which there is a step. -/
theorem tests_cues (capturing : Bool) (hw : w.tests = []) (hi : ∀ i, i + 1 < n → (input i).isSome) :
    let ss := m.strides capturing (input.cues n) w
    m.Tested input (ss.length - 1) (w.after ss) ∧
      ((∀ s ∈ ss, s.Succeeds) → (∀ i < n, (input i).isSome) → m.Stands input n (w.after ss)) := by
  induction n with
  | zero =>
    have hss : m.strides capturing (input.cues 0) w = [m.stride capturing .start w] :=
      strides_singleton
    rw [hss]
    exact ⟨(stands_start hw).toTested, fun _ _ => stands_start hw⟩
  | succ n ih =>
    obtain ⟨htested, hstands⟩ := ih fun i hlt => hi i (by omega)
    intro ss
    have hcues : ss = m.strides capturing (input.cues n ++ [input.cue n]) w :=
      congrArg (m.strides capturing · w) (input.cues_succ n)
    -- the next answer is asked for only if no step has failed
    by_cases hs : ∀ s ∈ m.strides capturing (input.cues n) w, s.Succeeds
    · have hat := hstands hs fun i hlt => hi i (by omega)
      have hlength : (m.strides capturing (input.cues n) w).length = n + 1 :=
        (length_strides hs).trans (input.length_cues n)
      rw [hcues, strides_append hs, strides_singleton, Walk.after_append, List.length_append, hlength]
      refine ⟨hat.tested_stride, fun hall hsome => hat.stride (hsome n n.lt_succ_self) ?_⟩
      exact hall _ (List.mem_append_right _ (List.mem_singleton.2 rfl))
    · rw [hcues, strides_append_of_failure hs]
      exact ⟨htested, fun hall => absurd hall hs⟩

end Machine

/-! ## Runs and executions -/

variable [DecidableEq σ] [BEq τ] [Pattern π τ]

namespace Run

variable {m : Machine π σ τ κ ω ε φ} {c : κ} {input : Input τ} {r : Run π σ τ κ ω ε φ}
  {xs : List (Except (Failure σ τ ε) ω)}

theorem Closes.length_strides (h : r.Closes m c input xs) :
    (m.strides true (input.cues r.asked) (m.walk c)).length = r.asked + 1 := by
  cases hn : r.asked with
  | zero => exact congrArg List.length Machine.strides_singleton
  | succ n =>
    have hs := (m.strides_course true (input.cues n) (m.walk c)).succeeds_iff.2 (h.before n hn).2
    rw [Input.cues_succ, Machine.strides_append hs, Machine.strides_singleton, List.length_append,
      Machine.length_strides hs, Input.length_cues]
    rfl

/-- **A run has made the tests for the tokens it has taken**, and until it is done it is in the state
before the next one. -/
theorem Closes.tested (h : r.Closes m c input xs) :
    m.Tested input r.asked r.walk ∧
      (r.phase ≠ .done → m.stateBefore input r.asked = some r.state) := by
  have htests := congrArg Walk.tests h.walk_eq
  have hstate := congrArg Walk.state h.walk_eq
  change r.walk.tests = _ at htests
  change r.state = _ at hstate
  by_cases hr : r.phase = .start
  · have hcues : r.cues = [] := by rw [cues, hr]
    rw [hcues] at htests hstate
    rw [h.asked_eq hr, hstate]
    exact ⟨⟨htests, fun _ hi => absurd hi (Nat.not_lt_zero _)⟩, fun _ => rfl⟩
  · have hcues : r.cues = input.cues r.asked := by
      rw [← h.input_eq, cues]
      split
      next hs => exact absurd hs hr
      next => rfl
    rw [hcues] at htests hstate
    have hsome : ∀ i, i + 1 < r.asked → (input i).isSome := fun i hi => by
      obtain ⟨n, hn⟩ := Nat.exists_eq_succ_of_ne_zero (Nat.ne_zero_of_lt hi)
      exact (h.before n hn).1 i (by omega)
    obtain ⟨ht, hstands⟩ := Machine.tests_cues (m := m) (w := m.walk c) true rfl hsome
    rw [h.length_strides, Nat.add_sub_cancel] at ht
    refine ⟨⟨htests.trans ht.tests_eq, ht.exists_state⟩, fun hd => ?_⟩
    have hsucceeds := h.succeeds hd
    rw [hcues] at hsucceeds
    rw [hstate]
    exact (hstands hsucceeds (h.isSome hd)).state_eq

end Run

namespace Machine

/-- The execution has made the tests for the tokens it has taken, and wherever it has come with its
steps it had made those for the tokens taken till then. -/
structure ExecutesTested (m : Machine π σ τ κ ω ε φ) (tokens : List τ) (w : Walk π σ τ κ)
    (e : Execution π σ τ κ ε φ) : Prop where
  tested : m.Tested (.ofList tokens) e.asked e.walk
  walk_eq : e.walk = w.after (m.strides false (Cue.ofTokens tokens) w)
  tested_take : ∀ k < (m.strides false (Cue.ofTokens tokens) w).length,
    m.Tested (.ofList tokens) k (w.after ((m.strides false (Cue.ofTokens tokens) w).take (k + 1)))
  state_take : ∀ k, k + 1 < (m.strides false (Cue.ofTokens tokens) w).length →
    m.stateBefore (.ofList tokens) k =
      some (w.after ((m.strides false (Cue.ofTokens tokens) w).take (k + 1))).state

theorem drive_tested (m : Machine π σ τ κ ω ε φ) (tokens : List τ) {w : Walk π σ τ κ}
    (hw : w.tests = []) : m.ExecutesTested tokens w (m.drive tokens w) := by
  obtain ⟨hwalk, hasked, -⟩ := m.drive_comesOf tokens w
  have hle := m.length_strides_le false (Cue.ofTokens tokens) w
  rw [Cue.length_ofTokens] at hle
  -- the tokens come first: what is asked for before the last question is one of them
  have hsome : ∀ i < tokens.length, (Input.ofList tokens i).isSome := Input.isSome_ofList tokens
  have htake : ∀ k < (m.strides false (Cue.ofTokens tokens) w).length,
      (m.strides false (Cue.ofTokens tokens) w).take (k + 1) =
        m.strides false ((Input.ofList tokens).cues k) w := fun k hk => by
    rw [take_strides, Cue.ofTokens_eq_cues, Input.take_cues _ (by omega)]
  have htested : ∀ k < (m.strides false (Cue.ofTokens tokens) w).length,
      m.Tested (.ofList tokens) k
        (w.after ((m.strides false (Cue.ofTokens tokens) w).take (k + 1))) := fun k hk => by
    obtain ⟨ht, -⟩ := tests_cues (m := m) (n := k) false hw fun i hi => hsome i (by omega)
    rwa [← htake k hk, List.length_take, Nat.min_eq_left hk, Nat.succ_sub_one] at ht
  refine ⟨?_, hwalk, htested, fun k hk => ?_⟩
  · have ht := htested (m.drive tokens w).asked (by omega)
    rwa [hasked, List.take_length, ← hwalk] at ht
  · obtain ⟨-, hstands⟩ := tests_cues (m := m) (n := k) false hw fun i hi => hsome i (by omega)
    rw [← htake k (by omega)] at hstands
    exact (hstands (succeeds_take hk) fun i hi => hsome i (by omega)).state_eq

variable [DecidableEq π] [Literal σ] [Literal τ]

/-- **Which labels are put to which tokens.** Wherever polls, of however many steps, and calls to
record lead, and wherever an execution has come, the tests made are for each token taken, in the order
of the input, those of the labels of the state before it up to the first that is for it; the rules of a
state stand in the order of their declaration. The start, the end of the input, a call to record and a
poll that gives an output that waits test nothing. Nor does the building of a machine, whether or not
it may repeat labels: with other patterns in their places, of which no two are the same, the same comes
of it, and there need be no tests for those patterns at all. -/
theorem tests_each_token (m : Machine π σ τ κ ω ε φ) (c : κ) :
    (∀ input xs r, (m.run c input).Visits xs r →
      m.Tested input r.asked r.walk ∧
        (r.isDone = false → m.stateBefore input r.asked = some r.state)) ∧
    (∀ tokens, m.ExecutesTested tokens (m.walk c) (m.execute c tokens) ∧
      m.ExecutesTested tokens (m.walk c).recording (m.executeWithHistory c tokens)) ∧
    (∀ capturing q w, q.token? = none → (m.stride capturing q w).walk.tests = w.tests) ∧
    (∀ r : Run π σ τ κ ω ε φ, r.recording.walk.tests = r.walk.tests ∧
      ∀ x rest, r.pending = x :: rest → ∀ n,
        (r.next n).2.walk.tests = r.walk.tests ∧ (r.next n).2.asked = r.asked) ∧
    (∀ items, ofItems items = .ok m →
      ∀ s, m.table.rules s = rulesOf (items.flatMap Item.declared) s) ∧
    ∀ (items : List (Item π σ τ κ ω ε φ)) (π' : Type) [DecidableEq π'] (f : π → π'),
      Function.Injective f → ofItems (items.map (.recast f)) = (ofItems items).map (.recast f) := by
  refine ⟨fun input xs r hv => ?_,
    fun tokens => ⟨m.drive_tested tokens rfl, m.drive_tested tokens rfl⟩,
    fun capturing q w hq => m.tests_stride_of_no_token hq capturing w,
    fun r => ⟨rfl, fun x rest hp n => ?_⟩, fun items hm s => ?_,
    fun items π' _ f hf => ofItems_recast hf items⟩
  · obtain ⟨htested, hstate⟩ := hv.closes.tested
    exact ⟨htested, fun hd => hstate (of_decide_eq_false hd)⟩
  · rw [Run.next_of_pending hp]
    exact ⟨rfl, rfl⟩
  · rw [(ofItems_ok hm).2.2.2]
    exact Table.rules_ofList ..

/-- A range comes first, and the seven, which does not lie in it, emits twice: while the second output
waits, the three behind it has not been tested. It lies in the range, and in the state to which it
leads there are no labels to test. -/
theorem tests_each_token_ranges :
    let range : Label (Numbered UInt8) UInt8 := .pattern ⟨0, .closed 1 5⟩
    let items : List (Item (Numbered UInt8) Bool UInt8 Nat UInt8 Nat Nat) :=
      [.initial false, .rule false ⟨range, true, none⟩, .rule false ⟨.any, false, some fun t _ _ => do
        Action.emit t
        Action.emit t⟩, .rule false ⟨.exact 7, true, none⟩]
    let input := Input.ofList [7, 3, 4]
    ∃ m, ofItems items = .ok m ∧
      m.table.rules true = [] ∧
      (∃ r, (m.run 0 input).Visits [.ok 7] r ∧ r.pending = [7] ∧ r.isDone = false ∧
        r.walk.tests = [(range, 7), (.any, 7)] ∧ m.stateBefore input 1 = some r.state ∧
        (r.next 4).2.walk.tests = r.walk.tests) ∧
      (m.execute 0 [7, 3, 4]).walk.tests = [(range, 7), (.any, 7), (range, 3)] ∧
      (m.stride true .finish (m.walk 0)).walk.tests = (m.walk 0).tests ∧
      ofItems (items.map (.recast some)) = .ok (m.recast some) := by
  intro range items input
  obtain ⟨m, hm⟩ : ∃ m, ofItems items = .ok m := ⟨_, rfl⟩
  obtain ⟨hruns, hexecutes, hcues, hwaits, hrules, hrecast⟩ := tests_each_token m 0
  have hbuilt := hrecast items _ some fun _ _ => Option.some.inj
  rw [hm] at hbuilt
  refine ⟨m, hm, hrules items hm true, ?_, ?_, hcues true .finish (m.walk 0) rfl, hbuilt⟩
  · have hv := Run.Visits.refl.poll (r := m.run 0 input) 4
    obtain rfl := Except.ok.inj hm
    obtain ⟨htested, hstate⟩ := hruns input _ _ hv
    exact ⟨_, hv, rfl, rfl, htested.tests_eq, hstate rfl, ((hwaits _).2 7 [] rfl 4).1⟩
  · obtain rfl := Except.ok.inj hm
    exact (hexecutes [7, 3, 4]).1.tested.tests_eq

end Machine

end Transducer
