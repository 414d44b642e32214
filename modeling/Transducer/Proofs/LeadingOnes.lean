import Transducer.Demo.Counter
import Transducer.Proofs.Courses

/-!
# What the counter counts

The number that the counter comes to is that of the ones in front of all other tokens. It fails at
the token behind them unless this is a zero; behind a zero it fails no more.

* `leading`: how many ones are in front; `fault?`: the failure at the token behind them; `tally`:
  the one or the other.
* `Counts`: a course that emits nothing, with its number and its failure.
* `counts_closed`, `counts_counting`: **what tokens lead to from each of the two states.**
* `course_counter`: the course of a whole run, whatever the number was before it.
* `counter_counts`: **what executions and runs come to.**
-/

namespace Transducer.Demo.Counter

/-- How many ones are in front of all other tokens. -/
def leading (tokens : List UInt8) : Nat := (tokens.takeWhile (· == 1)).length

/-- The failure at the token behind the ones in front, unless it is a zero. -/
def fault? (tokens : List UInt8) : Option (Failure String UInt8 Unexpected) :=
  (tokens[leading tokens]?.filter (· != 0)).map fun t => .unexpected ⟨counting, t⟩

/-- What the counter comes to: the number of ones in front, or the failure. -/
def tally (tokens : List UInt8) : Except (Failure String UInt8 Unexpected) Nat :=
  (fault? tokens).elim (.ok (leading tokens)) .error

/-- The course emits nothing, and ends with the number, and with the failure if there is one. -/
structure Counts (x : Course String UInt8 Nat Nat Unexpected) (n : Nat)
    (f : Option (Failure String UInt8 Unexpected)) : Prop where
  outputs_eq : x.outputs = []
  context_eq : x.context = n
  failure_eq : x.failure = f

section

variable {t : UInt8} {rest tokens : List UInt8}

/-! ## The ones in front -/

theorem leading_one : leading (1 :: rest) = leading rest + 1 := by
  simp [leading]

theorem leading_other (h : t ≠ 1) : leading (t :: rest) = 0 := by
  simp [leading, h]

theorem fault?_one : fault? (1 :: rest) = fault? rest := by
  simp [fault?, leading_one]

theorem fault?_other (h : t ≠ 1) :
    fault? (t :: rest) = if t = 0 then none else some (.unexpected ⟨counting, t⟩) := by
  rw [fault?, leading_other h, List.getElem?_cons_zero]
  by_cases ht : t = 0 <;> simp [ht]

theorem tally_eq_ok (h : tokens[leading tokens]? = none ∨ tokens[leading tokens]? = some 0) :
    tally tokens = .ok (leading tokens) := by
  obtain h | h := h <;> rw [tally, fault?, h] <;> rfl

theorem tally_eq_error (h : tokens[leading tokens]? = some t) (ht : t ≠ 0) :
    tally tokens = .error (.unexpected ⟨counting, t⟩) := by
  have hf : fault? tokens = some (.unexpected ⟨counting, t⟩) := by
    simp [fault?, h, Option.filter_some, ht]
  rw [tally, hf]
  rfl

/-! ## One cue -/

variable (capturing : Bool) (n : Nat)

theorem leg_start : counter.plan.leg capturing counting n .start =
    ⟨none, some .start, counting, 0, .ok []⟩ :=
  rfl

theorem leg_zero : counter.plan.leg capturing counting n (.token 0) =
    ⟨some (counting, closed, 0), none, closed, n, .ok []⟩ :=
  rfl

theorem leg_one : counter.plan.leg capturing counting n (.token 1) =
    ⟨some (counting, counting, 1), some (.reaction 1 counting counting), counting, n + 1, .ok []⟩ :=
  rfl

theorem leg_other (h₀ : t ≠ 0) (h₁ : t ≠ 1) : counter.plan.leg capturing counting n (.token t) =
    ⟨none, none, counting, n, .error (.unexpected ⟨counting, t⟩)⟩ := by
  have hrules : counter.table.rules counting =
      [⟨.exact 0, closed, none⟩, ⟨.exact 1, counting, some counts⟩] := rfl
  have hr : counter.plan.rule? counting t = none := by
    change (counter.table.rules counting).find? (·.label.admits t) = none
    simp [hrules, Label.admits, Ne.symm h₀, Ne.symm h₁]
  rw [Plan.leg, hr]

theorem leg_closed (t : UInt8) : counter.plan.leg capturing closed n (.token t) =
    ⟨some (closed, closed, t), none, closed, n, .ok []⟩ :=
  rfl

theorem course_finish (s : String) :
    let x := counter.plan.course capturing [.finish] s n
    x.context = n ∧ x.failure = none ∧ x.outputs = if capturing = true then [n] else [] := by
  cases capturing <;> exact ⟨rfl, rfl, rfl⟩

/-! ## Many cues -/

variable {capturing n} {q : Cue UInt8} {cues : List (Cue UInt8)} {s s' : String} {n' k : Nat}
  {move : Option (String × String × UInt8)} {i : Option (Invocation String UInt8)}
  {f : Option (Failure String UInt8 Unexpected)}

theorem Counts.cons (hq : counter.plan.leg capturing s n q = ⟨move, i, s', n', .ok []⟩)
    (h : Counts (counter.plan.course capturing cues s' n') k f) :
    Counts (counter.plan.course capturing (q :: cues) s n) k f := by
  rw [Plan.course, hq]
  exact ⟨h.outputs_eq, h.context_eq, h.failure_eq⟩

variable (capturing) (n) (tokens : List UInt8)

/-- Behind a zero all tokens are read, and none makes a difference. -/
theorem counts_closed :
    Counts (counter.plan.course capturing (tokens.map .token) closed n) n none := by
  induction tokens with
  | nil => exact ⟨rfl, rfl, rfl⟩
  | cons t rest ih => exact .cons (leg_closed capturing n t) ih

/-- In front of all zeros the ones are counted. -/
theorem counts_counting :
    Counts (counter.plan.course capturing (tokens.map .token) counting n) (n + leading tokens)
      (fault? tokens) := by
  induction tokens generalizing n with
  | nil => exact ⟨rfl, rfl, rfl⟩
  | cons t rest ih =>
    rw [List.map_cons]
    by_cases h₁ : t = 1
    · subst h₁
      have hn : n + (leading rest + 1) = n + 1 + leading rest := by omega
      rw [leading_one, fault?_one, hn]
      exact .cons (leg_one capturing n) (ih (n + 1))
    · rw [leading_other h₁, fault?_other h₁, Nat.add_zero]
      by_cases h₀ : t = 0
      · subst h₀
        rw [if_pos rfl]
        exact .cons (leg_zero capturing n) (counts_closed capturing n rest)
      · rw [if_neg h₀, Plan.course, leg_other capturing n h₀ h₁]
        exact ⟨rfl, rfl, rfl⟩

theorem counts_start (previous : Nat) :
    Counts (counter.plan.course capturing (.start :: tokens.map .token) counting previous)
      (leading tokens) (fault? tokens) := by
  have htokens := counts_counting capturing 0 tokens
  rw [Nat.zero_add] at htokens
  exact .cons (leg_start capturing previous) htokens

theorem course_counter (previous : Nat) :
    let x := counter.plan.course capturing (Cue.ofTokens tokens) counting previous
    x.context = leading tokens ∧ x.failure = fault? tokens ∧
      x.outputs = if fault? tokens = none ∧ capturing = true then [leading tokens] else [] := by
  intro x
  have h := counts_start capturing tokens previous
  have hx : x = counter.plan.course capturing ((.start :: tokens.map .token) ++ [.finish]) counting
      previous := rfl
  cases hf : fault? tokens with
  | some f =>
    have hfails := h.failure_eq.trans hf
    rw [Plan.course_append_of_failure (by rw [hfails]; exact Option.some_ne_none f)] at hx
    rw [hx, if_neg fun hn => Option.some_ne_none f hn.1]
    exact ⟨h.context_eq, hfails, h.outputs_eq⟩
  | none =>
    obtain ⟨hcontext, hfailure, houtputs⟩ := course_finish capturing (leading tokens)
      (counter.plan.course capturing (.start :: tokens.map .token) counting previous).state
    rw [Plan.course_append (h.failure_eq.trans hf), h.context_eq, h.outputs_eq,
      List.nil_append] at hx
    rw [hx]
    exact ⟨hcontext, hfailure, houtputs.trans (by simp)⟩

end

/-! ## Executions and runs -/

theorem execute_tally (previous : Nat) (tokens : List UInt8) :
    let e := counter.execute previous tokens
    e.walk.context = leading tokens ∧ e.result = (tally tokens).map some := by
  intro e
  obtain ⟨hcontext, hfailure, -⟩ := course_counter false tokens previous
  obtain ⟨hcomes, hfails⟩ := counter.drive_comesTo previous (w := counter.walk previous) rfl tokens
  refine ⟨hcomes.context_eq.trans hcontext, ?_⟩
  have hf : fault? tokens = Failure.of? e.result := (hfails.trans hfailure).symm
  rw [tally, hf]
  cases hr : e.result with
  | error f => rfl
  | ok v =>
    -- the value is that of the action at the end, which finds the number of ones
    have hv := counter.drive_value hr
    have hk : (counter.plan.course false (.start :: tokens.map .token) counting previous).context =
      leading tokens := (counts_start false tokens previous).context_eq
    have hvalue : some (.ok (leading tokens)) = v.map (Except.ok (ε := Unexpected)) := by
      rw [← hv, ← hk]
      rfl
    obtain ⟨n, rfl, hn⟩ := Option.map_eq_some_iff.1 hvalue.symm
    rw [Except.ok.inj hn]
    rfl

theorem drains_tally (previous : Nat) (tokens : List UInt8) :
    ∃ last, (counter.run previous (.ofList tokens)).Drains [tally tokens] last ∧
      last.context = leading tokens := by
  obtain ⟨hcontext, hfailure, houtputs⟩ := course_counter true tokens previous
  obtain ⟨last, hd, hcomes⟩ := counter.drains_course previous (Input.gives_ofList tokens)
  have hitems : (counter.plan.course true (Cue.ofTokens tokens) counting previous).items =
      [tally tokens] := by
    rw [Course.items, houtputs, hfailure, tally]
    cases fault? tokens <;> simp
  rw [← hitems]
  exact ⟨last, hd, hcomes.context_eq.trans hcontext⟩

/-- **The counter counts the ones in front of all other tokens**, whatever its number was before. If
nothing comes behind them, or a zero and then any tokens, their number is the value of the execution
and the only item of the run. At any other token both fail in the first state, and the run gives
nothing but the failure. The number is left in the context either way. -/
theorem counter_counts (previous : Nat) (tokens : List UInt8) :
    let k := (tokens.takeWhile (· == 1)).length
    let e := counter.execute previous tokens
    e.walk.context = k ∧
    ∃ items last,
      (∀ xs r, (counter.run previous (.ofList tokens)).Drains xs r ↔ xs = items ∧ r = last) ∧
      last.context = k ∧
      (tokens[k]? = none ∨ tokens[k]? = some 0 → e.result = .ok (some k) ∧ items = [.ok k]) ∧
      ∀ t, tokens[k]? = some t → t ≠ 0 →
        e.result = .error (.unexpected ⟨"start", t⟩) ∧
          items = [.error (.unexpected ⟨"start", t⟩)] := by
  intro k e
  obtain ⟨hcontext, hresult⟩ := execute_tally previous tokens
  obtain ⟨last, hd, hlast⟩ := drains_tally previous tokens
  refine ⟨hcontext, [tally tokens], last, fun xs r => hd.iff, hlast, fun hk => ?_,
    fun t hk ht => ?_⟩
  · have htally : tally tokens = .ok k := tally_eq_ok hk
    rw [htally] at hresult ⊢
    exact ⟨hresult, rfl⟩
  · have htally : tally tokens = .error (.unexpected ⟨"start", t⟩) := tally_eq_error hk ht
    rw [htally] at hresult ⊢
    exact ⟨hresult, rfl⟩

/-- A seven is read behind a zero and refused before one, and the nine of an earlier run is gone. -/
theorem counter_counts_sevens :
    (counter.execute 9 [1, 1, 0, 7]).result = .ok (some 2) ∧
      (counter.execute 9 [1, 1, 7]).result = .error (.unexpected ⟨"start", 7⟩) := by
  obtain ⟨-, _, _, -, -, hcounts, -⟩ := counter_counts 9 [1, 1, 0, 7]
  obtain ⟨-, _, _, -, -, -, hfails⟩ := counter_counts 9 [1, 1, 7]
  exact ⟨(hcounts (.inr rfl)).1, (hfails 7 rfl (by decide)).1⟩

end Transducer.Demo.Counter
