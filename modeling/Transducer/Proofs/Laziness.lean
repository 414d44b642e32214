import Mathlib.Order.Nat
import Transducer.Proofs.Courses
import Transducer.Demo.Lexer

/-!
# Laziness

A run asks its input for no more than what its next output needs.

* `Machine.upTo`: what the start and the first tokens lead to.
* `Machine.Covers`: they give so many outputs.
* `Machine.standing`: the run behind them, with nothing waiting; `Machine.leads_standing`: **polls
  lead there over their outputs.**
* `Machine.pulls_least`: **to give some outputs a run takes the fewest tokens that give them, and
  makes no difference between inputs that begin with these tokens.**
-/

namespace Transducer

variable {π σ τ κ ω ε φ : Type} [DecidableEq σ] [BEq τ] [Pattern π τ]

namespace Machine

variable (m : Machine π σ τ κ ω ε φ) (c : κ) (input : Input τ)

/-- What the start and the first tokens lead to. -/
def upTo (n : Nat) : Course σ τ κ ω ε := m.plan.course true (input.cues n) m.initial c

/-- The start and the first `n` tokens give at least `k` outputs, without a failure. -/
structure Covers (k n : Nat) : Prop where
  isSome : ∀ i < n, (input i).isSome
  failure_eq : (m.upTo c input n).failure = none
  le_length : k ≤ (m.upTo c input n).outputs.length

/-- The steps of the start and the first tokens. -/
def stepsTo (n : Nat) : List (Stride π σ τ κ ω ε (Option φ)) :=
  m.strides true (input.cues n) (m.walk c)

/-- The run behind the start and the first tokens, with nothing waiting. -/
def standing (n : Nat) : Run π σ τ κ ω ε φ :=
  ⟨m, input, (m.walk c).after (m.stepsTo c input n), n, [], .input⟩

variable {m c input} {k n : Nat}

theorem upTo_shownBy : (m.upTo c input n).ShownBy (m.walk c) (m.stepsTo c input n) :=
  m.strides_course true (input.cues n) (m.walk c)

theorem stepsTo_succ (h : (m.upTo c input (n + 1)).failure = none) :
    m.stepsTo c input (n + 1) =
      m.stepsTo c input n ++ [(m.standing c input n).stride (input.cue n)] := by
  have hs := upTo_shownBy.succeeds_iff.2 h
  rw [stepsTo, Input.cues_succ] at hs ⊢
  rw [strides_append (succeeds_of_append hs), strides_singleton]
  rfl

theorem failure_of_succ (h : (m.upTo c input (n + 1)).failure = none) :
    (m.upTo c input n).failure = none := by
  have hs := upTo_shownBy.succeeds_iff.2 h
  rw [stepsTo_succ h] at hs
  exact upTo_shownBy.succeeds_iff.1 fun s hm => hs s (List.mem_append_left _ hm)

theorem failure_of_le (hk : k ≤ n) (h : (m.upTo c input n).failure = none) :
    (m.upTo c input k).failure = none := by
  induction hk with
  | refl => exact h
  | step _ ih => exact ih (failure_of_succ h)

theorem outputs_succ (h : (m.upTo c input (n + 1)).failure = none) :
    (m.upTo c input (n + 1)).outputs = (m.upTo c input n).outputs ++
      ((m.standing c input n).stride (input.cue n)).emits := by
  rw [upTo_shownBy.outputs_eq h, upTo_shownBy.outputs_eq (failure_of_succ h), stepsTo_succ h,
    List.flatMap_append, List.flatMap_singleton]

theorem run_pollsLike (h : (m.upTo c input 0).failure = none) :
    (m.run c input).PollsLike
      ((m.standing c input 0).withPending (m.upTo c input 0).outputs) := by
  have hss : m.stepsTo c input 0 = [m.stride true .start (m.walk c)] := strides_singleton
  have hs := upTo_shownBy.succeeds_iff.2 h
  rw [upTo_shownBy.outputs_eq h, standing, hss, List.flatMap_singleton]
  obtain ⟨v, hv⟩ := head_of_succeeds hs
  exact Run.pollsLike_of_ok rfl rfl hv

theorem standing_pollsLike (hi : (input n).isSome) (h : (m.upTo c input (n + 1)).failure = none) :
    (m.standing c input n).PollsLike ((m.standing c input (n + 1)).withPending
      ((m.standing c input n).stride (input.cue n)).emits) := by
  have hs := upTo_shownBy.succeeds_iff.2 h
  rw [stepsTo_succ h] at hs
  obtain ⟨v, hv⟩ := hs _ (List.mem_append_right _ (List.mem_singleton.2 rfl))
  obtain ⟨t, ht⟩ := Option.isSome_iff_exists.1 hi
  have hn : m.standing c input (n + 1) = (m.standing c input n).heed (input.cue n) := by
    rw [standing, stepsTo_succ h, Walk.after_append, Input.cue_of_some ht]
    rfl
  rw [hn]
  exact Run.pollsLike_of_ok rfl rfl hv

theorem leads_standing (hi : ∀ i < n, (input i).isSome) (h : (m.upTo c input n).failure = none) :
    (m.run c input).Leads (m.upTo c input n).outputs (m.standing c input n) := by
  induction n with
  | zero => exact (run_pollsLike h).leads
  | succ n ih =>
    rw [outputs_succ h]
    exact (ih (fun i hlt => hi i (Nat.lt_succ_of_lt hlt)) (failure_of_succ h)).trans
      (standing_pollsLike (hi n n.lt_succ_self) h).leads

/-- The token that gives the last of some outputs is the last that is taken for them; its other
outputs wait. -/
theorem yields_standing (hn : IsLeast {n | m.Covers c input k n} n) (hk : 0 < k) :
    (m.run c input).Yields (((m.upTo c input n).outputs.take k).map .ok)
      ((m.standing c input n).withPending ((m.upTo c input n).outputs.drop k)) := by
  obtain ⟨⟨hi, h, hle⟩, hleast⟩ := hn
  cases n with
  | zero =>
    have hne : (m.upTo c input 0).outputs.take k ≠ [] := by
      rw [← List.length_pos_iff, List.length_take]
      omega
    exact (run_pollsLike h).yields_take hne
  | succ n =>
    have hi' : ∀ i < n, (input i).isSome := fun i hlt => hi i (Nat.lt_succ_of_lt hlt)
    -- if the others gave `k` outputs, one token less would do: the last token gives the last one
    have hlt : (m.upTo c input n).outputs.length < k := Nat.lt_of_not_le fun hge =>
      Nat.not_succ_le_self n (hleast ⟨hi', failure_of_succ h, hge⟩)
    obtain ⟨j, rfl⟩ := Nat.exists_eq_add_of_le (Nat.le_of_lt hlt)
    rw [outputs_succ h, List.length_append] at hle
    have hj : ((m.standing c input n).stride (input.cue n)).emits.take j ≠ [] := by
      rw [← List.length_pos_iff, List.length_take]
      omega
    rw [outputs_succ h, List.take_length_add_append, List.drop_length_add_append]
    exact (leads_standing hi' (failure_of_succ h)).yields
      ((standing_pollsLike (hi n n.lt_succ_self) h).yields_take hj) hj

theorem covers_asked {xs : List (Except (Failure σ τ ε) ω)} {after : Run π σ τ κ ω ε φ}
    (h : (m.run c input).Yields xs after) (hx : xs ≠ []) (hd : after.isDone = false) :
    m.Covers c input xs.length after.asked := by
  have hf := h.visits.follows
  obtain ⟨-, hi, hn⟩ := m.visits_course c h.visits
  have hp : after.phase ≠ .done := of_decide_eq_false hd
  have hc : after.cues = input.cues after.asked := by
    cases hs : after.phase with
    | start =>
      -- nothing has been given before the start
      rw [Run.cues, hs] at hi
      exact absurd (List.append_eq_nil_iff.1 hi).1 hx
    | input => rw [Run.cues, hs, hf.input_eq]
    | done => exact absurd hs hp
  have hl := congrArg List.length hi
  rw [hc] at hn hl
  rw [Course.items, hn hd, List.length_append, List.length_map] at hl
  refine ⟨hf.isSome hp, hn hd, ?_⟩
  rw [upTo]
  simp only [List.length_append, List.length_map, Option.map_none, Option.toList_none,
    List.length_nil] at hl
  omega

theorem yields_iff_standing (hn : IsLeast {n | m.Covers c input k n} n) (hk : 0 < k)
    {xs : List (Except (Failure σ τ ε) ω)} {last : Run π σ τ κ ω ε φ} (hx : xs.length = k) :
    (m.run c input).Yields xs last ↔ xs = ((m.upTo c input n).outputs.take k).map .ok ∧
      last = (m.standing c input n).withPending ((m.upTo c input n).outputs.drop k) := by
  have hy := yields_standing hn hk
  refine ⟨fun h => h.unique hy ?_, by rintro ⟨rfl, rfl⟩; exact hy⟩
  rw [hx, List.length_map, List.length_take, Nat.min_eq_left hn.1.le_length]

variable {input' : Input τ}

theorem upTo_congr (h : ∀ i < n, input' i = input i) : m.upTo c input' n = m.upTo c input n := by
  rw [upTo, upTo, Input.cues_congr h]

theorem Covers.congr (h : ∀ i < n, input' i = input i) (hc : m.Covers c input k n) :
    m.Covers c input' k n where
  isSome i hi := by rw [h i hi]; exact hc.isSome i hi
  failure_eq := by rw [upTo_congr h]; exact hc.failure_eq
  le_length := by rw [upTo_congr h]; exact hc.le_length

theorem isLeast_covers_congr (h : ∀ i < n, input' i = input i)
    (hn : IsLeast {n | m.Covers c input k n} n) : IsLeast {n | m.Covers c input' k n} n :=
  ⟨hn.1.congr h, fun _ hj => Nat.le_of_not_lt fun hlt => Nat.not_le_of_lt hlt
    (hn.2 (Covers.congr (fun i hi => (h i (Nat.lt_trans hi hlt)).symm) hj))⟩

/-- **A run takes the fewest tokens that give what it has given.** Before its first poll it has done
nothing. To give `k` outputs of the start and the tokens, it takes and asks for just as many tokens
as these outputs need, does what these tokens lead to and nothing more, and cannot tell apart inputs
that begin with them. The outputs that no tokens cover are those of a run that is done. -/
theorem pulls_least (m : Machine π σ τ κ ω ε φ) (c : κ) (input : Input τ) :
    ((m.run c input).asked = 0 ∧ (m.run c input).context = c ∧
      (m.run c input).walk.journal = []) ∧
    (∀ k n, 0 < k → IsLeast {n | m.Covers c input k n} n →
      ∀ input' : Input τ, (∀ i < n, input' i = input i) →
        let x := m.upTo c input n
        ∃ after, (∀ xs last, xs.length = k →
            ((m.run c input').Yields xs last ↔ xs = (x.outputs.take k).map .ok ∧ last = after)) ∧
          after.asked = n ∧ after.taken = n ∧ after.walk.ComesTo x ∧ after.isDone = false) ∧
    (∀ xs w after, (m.run c input).Yields (xs ++ [.ok w]) after →
      (after.isDone = false ↔ ∃ n, IsLeast {n | m.Covers c input (xs.length + 1) n} n)) := by
  refine ⟨⟨rfl, rfl, rfl⟩, fun k n hk hn input' h => ?_, fun xs w after hy => ⟨fun hd => ?_, ?_⟩⟩
  · have hn' := isLeast_covers_congr h hn
    rw [← upTo_congr (m := m) (c := c) h]
    exact ⟨_, fun xs last hx => yields_iff_standing hn' hk hx, rfl,
      Input.given_of_isSome hn'.1.isSome, m.comesTo_course c true (input'.cues n), rfl⟩
  · classical
    have hc := covers_asked hy (List.append_ne_nil_of_right_ne_nil _ (List.cons_ne_nil _ _)) hd
    rw [List.length_append] at hc
    exact ⟨_, Nat.isLeast_find ⟨_, hc⟩⟩
  · rintro ⟨n, hn⟩
    have hl : (xs ++ [Except.ok w]).length = xs.length + 1 := List.length_append
    obtain ⟨-, rfl⟩ := (yields_iff_standing hn xs.length.succ_pos hl).1 hy
    rfl

open Demo.Lexer in
/-- The lexer takes a mark to give the word before it, and not the word behind the mark. -/
theorem pulls_least_lexer :
    IsLeast {n | lexer.Covers {} (.cycle ['a', '+']) 1 n} 2 ∧
      ∃ after, (lexer.run {} (.cycle ['a', '+'])).Yields [.ok (.word ['a'])] after ∧
        after.asked = 2 := by
  have hn : IsLeast {n | lexer.Covers {} (.cycle ['a', '+']) 1 n} 2 := by
    refine ⟨⟨by decide, rfl, by decide⟩, fun j hj => ?_⟩
    have hl := hj.le_length
    match j with
    | 0 => exact absurd hl (by decide)
    | 1 => exact absurd hl (by decide)
    | j + 2 => exact Nat.le_add_left 2 j
  obtain ⟨-, hp, -⟩ := pulls_least lexer {} (.cycle ['a', '+'])
  obtain ⟨after, hy, ha, -⟩ := hp 1 2 Nat.one_pos hn (.cycle ['a', '+']) fun _ _ => rfl
  exact ⟨hn, after, (hy [.ok (.word ['a'])] after rfl).2 ⟨rfl, rfl⟩, ha⟩

end Machine

end Transducer
